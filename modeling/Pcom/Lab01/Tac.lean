import Pcom.Lib.Lines

/-!
# `tac.c` of `Lab01`

`getline` reads the file line by line; each line is copied as a C string into a row of a table, and the rows are printed
from the last to the first.  The table has 1024 rows of 1024 bytes, and neither bound is tested.

* `tac_eq` — which files fit the table, and what is printed of them;
* `tac_tac_iff` — reversed twice, a file comes back exactly when it fits, has no zero bytes and ends with a line end.
-/

namespace Pcom.Lab01.Tac

open Pcom.Lib.Scan Pcom.Lib.Lines

/-- Both dimensions of `char lines[1024][1024]`. -/
def LINES : ℕ := 1024

/-! ### The code -/

/-- `getline`: a line with its line end, of any length, and the rest of the file; `none` at the end of the file. -/
def getline (file : Bytes) : Option (Bytes × Bytes) := if file = [] then none else some (chunk file.length file)

/-- A call reads the first line that is left. -/
theorem getline_some {file line rest : Bytes} (h : getline file = some (line, rest)) : rest.length < file.length ∧
    ∃ text, 10 ∉ text ∧ Whole text line ∧ lines file = text :: lines rest := by
  rw [getline] at h
  split at h
  · cases h
  · rename_i hne
    have hread : Read file.length file line rest := by
      have hchunk := read_chunk file.length file
      rw [Option.some.inj h] at hchunk
      exact hchunk
    cases hread with
    | @line text rest htext hfits =>
      refine ⟨?_, text, htext, Or.inr rfl, lines_line htext rest⟩
      rw [List.length_append, List.length_cons]
      omega
    | last hline => exact ⟨List.length_pos_iff.mpr hne, _, hline, Or.inl rfl, lines_single hline hne⟩
    | cut hpart hfull hrest =>
      -- there is room for the whole file
      rw [List.length_append, Nat.left_eq_add] at hfull
      exact absurd (List.length_eq_zero_iff.mp hfull) hrest

/-- The row of a line: the C string in it, without its line end; undefined where the row is too short. -/
def row (line : Bytes) : Option Bytes :=
  let text := cString line
  let text := if text.getLast? = some 10 then text.dropLast else text
  if text.length < LINES then some text else none

/-- The loop `while (getline(..) != -1)` with `n` rows filled: the rows it fills. -/
def readLoop (n : ℕ) (file : Bytes) : Option (List Bytes) :=
  match _hline : getline file with
  | none => some []
  | some (line, rest) =>
    if n < LINES then (row line).bind fun text => (readLoop (n + 1) rest).map (text :: ·)
    else none
termination_by file.length
decreasing_by exact (getline_some _hline).1

/-- The loop that prints, from row `n - 1` down to the first. -/
def printLoop (lines : List Bytes) : ℕ → Bytes
  | 0 => []
  | i + 1 => lines.getD i [] ++ 10 :: printLoop lines i

def tac (file : Bytes) : Option Bytes := (readLoop 0 file).map fun lines => printLoop lines lines.length

/-! ### What is printed -/

theorem getLast?_ne {text : Bytes} (h : 10 ∉ text) : text.getLast? ≠ some 10 :=
  fun hlast => h (List.mem_of_getLast? hlast)

theorem not_mem_cString {text : Bytes} (h : 10 ∉ text) : 10 ∉ cString text :=
  fun hmem => h ((List.takeWhile_prefix _).subset hmem)

/-- The line end goes, and with a zero byte in the line it has gone before. -/
theorem row_whole {text line : Bytes} (htext : 10 ∉ text) (hwhole : Whole text line) :
    row line = if (cString text).length < LINES then some (cString text) else none := by
  have hplain : row text = if (cString text).length < LINES then some (cString text) else none := by
    simp only [row, if_neg (getLast?_ne (not_mem_cString htext))]
  rcases hwhole with rfl | rfl
  · exact hplain
  · by_cases hnul : NoNul text
    · have hself : cString (text ++ [10]) = text ++ [10] :=
        cString_eq_self (noNul_append.mpr ⟨hnul, noNul_cons.mpr ⟨by decide, noNul_nil⟩⟩)
      have hlast : (text ++ [10]).getLast? = some 10 := List.getLast?_concat
      simp only [row, hself, if_pos hlast, List.dropLast_concat, cString_eq_self hnul]
    · have hcut : cString (text ++ [10]) = cString text := by
        rw [cString, List.takeWhile_append, if_neg]
        · rfl
        · intro hlength
          have hself : cString text = text := (List.takeWhile_prefix _).eq_of_length hlength
          exact hnul (hself ▸ noNul_cString text)
      rw [← hplain, row, row, hcut]

/-- The table has room for these lines behind `n` rows. -/
def Room (n : ℕ) (texts : List Bytes) : Prop := n + texts.length ≤ LINES ∧ ∀ text ∈ texts, (cString text).length < LINES

instance (n : ℕ) (texts : List Bytes) : Decidable (Room n texts) := inferInstanceAs (Decidable (_ ∧ _))

theorem room_cons {n : ℕ} {text : Bytes} {texts : List Bytes} :
    Room n (text :: texts) ↔ (cString text).length < LINES ∧ Room (n + 1) texts := by
  rw [Room, Room, List.forall_mem_cons, List.length_cons, Nat.add_right_comm, ← Nat.add_assoc]
  tauto

theorem readLoop_eq {n : ℕ} (hn : n ≤ LINES) (file : Bytes) :
    readLoop n file = if Room n (lines file) then some ((lines file).map cString) else none := by
  fun_induction readLoop n file with
  | case1 n file h =>
    have hnil : file = [] := by
      rw [getline] at h
      by_contra hne
      rw [if_neg hne] at h
      cases h
    rw [hnil, lines, if_pos ⟨hn, fun line hmem => absurd hmem List.not_mem_nil⟩]
    rfl
  | case2 n file line rest h hlt ih =>
    obtain ⟨-, text, htext, hwhole, hlines⟩ := getline_some h
    rw [row_whole htext hwhole, ih hlt, hlines, List.map_cons]
    by_cases hshort : (cString text).length < LINES
    · by_cases hroom : Room (n + 1) (lines rest)
      · rw [if_pos hshort, if_pos hroom, if_pos (room_cons.mpr ⟨hshort, hroom⟩)]
        rfl
      · rw [if_pos hshort, if_neg hroom, if_neg fun h => hroom (room_cons.mp h).2]
        rfl
    · rw [if_neg hshort, if_neg fun h => hshort (room_cons.mp h).1]
      rfl
  | case3 n file line rest h hge =>
    obtain ⟨-, text, -, -, hlines⟩ := getline_some h
    rw [if_neg]
    rintro ⟨hle, -⟩
    rw [hlines, List.length_cons] at hle
    omega

theorem printLoop_eq (rows : List Bytes) {n : ℕ} (hn : n ≤ rows.length) :
    printLoop rows n = unlines (rows.take n).reverse := by
  induction n with
  | zero => rfl
  | succ n ih =>
    have hget : rows[n]? = some rows[n] := List.getElem?_eq_getElem hn
    rw [printLoop, ih (Nat.le_of_succ_le hn), List.take_add_one, hget, List.getD_eq_getElem?_getD, hget]
    show rows[n] ++ 10 :: _ = unlines (rows.take n ++ [rows[n]]).reverse
    rw [List.reverse_append, List.reverse_singleton, List.singleton_append, unlines_cons]

/-- **What is printed** of a file that fits. -/
theorem tac_eq (file : Bytes) :
    tac file = if Room 0 (lines file) then some (unlines ((lines file).map cString).reverse) else none := by
  rw [tac, readLoop_eq (Nat.zero_le _)]
  by_cases hroom : Room 0 (lines file)
  · rw [if_pos hroom, if_pos hroom, Option.map_some, printLoop_eq _ le_rfl, List.take_length]
  · rw [if_neg hroom, if_neg hroom]
    rfl

/-! ### Twice -/

theorem noNul_unlines {rows : List Bytes} : NoNul (unlines rows) ↔ ∀ row ∈ rows, NoNul row := by
  induction rows with
  | nil => exact iff_of_true noNul_nil fun row hmem => absurd hmem List.not_mem_nil
  | cons row rows ih =>
    rw [unlines_cons, noNul_append, noNul_cons, ih, List.forall_mem_cons]
    exact and_congr_right fun _ => and_iff_right (by decide)

/-- The second time, the rows are as they are printed. -/
theorem tac_tac_eq (file : Bytes) :
    (tac file).bind tac = if Room 0 (lines file) then some (unlines ((lines file).map cString)) else none := by
  rw [tac_eq]
  by_cases hroom : Room 0 (lines file)
  · have hrows : ∀ row ∈ ((lines file).map cString).reverse, 10 ∉ row := by
      intro row hrow
      obtain ⟨line, hline, rfl⟩ := List.mem_map.mp (List.mem_reverse.mp hrow)
      exact not_mem_cString (not_mem_of_mem_lines hline)
    have hself : (((lines file).map cString).reverse).map cString = ((lines file).map cString).reverse := by
      rw [List.map_reverse, List.map_map]
      exact congrArg List.reverse (List.map_congr_left fun line _ => cString_eq_self (noNul_cString line))
    have hroom' : Room 0 ((lines file).map cString).reverse := by
      refine ⟨?_, fun row hrow => ?_⟩
      · rw [List.length_reverse, List.length_map]
        exact hroom.1
      · obtain ⟨line, hline, rfl⟩ := List.mem_map.mp (List.mem_reverse.mp hrow)
        rw [cString_eq_self (noNul_cString line)]
        exact hroom.2 line hline
    rw [if_pos hroom, if_pos hroom, Option.bind_some, tac_eq, lines_unlines hrows, if_pos hroom', hself,
      List.reverse_reverse]
  · rw [if_neg hroom, if_neg hroom]
    rfl

/-- **Reversed twice**, a file comes back exactly when it fits the table, has no zero byte in it and does not end
inside a line. -/
theorem tac_tac_iff (file : Bytes) : (tac file).bind tac = some file ↔
    ((lines file).length ≤ LINES ∧ ∀ line ∈ lines file, line.length < LINES) ∧ NoNul file ∧
      (file ≠ [] → file.getLast? = some 10) := by
  rw [tac_tac_eq]
  constructor
  · intro h
    by_cases hroom : Room 0 (lines file)
    · rw [if_pos hroom] at h
      have hback := Option.some.inj h
      have hlines : lines file = (lines file).map cString := by
        conv_lhs => rw [← hback]
        exact lines_unlines fun row hrow => by
          obtain ⟨line, hline, rfl⟩ := List.mem_map.mp hrow
          exact not_mem_cString (not_mem_of_mem_lines hline)
      refine ⟨⟨Nat.zero_add (lines file).length ▸ hroom.1, fun line hline => ?_⟩, ?_, fun hne => ?_⟩
      · rw [hlines] at hline
        obtain ⟨text, htext, rfl⟩ := List.mem_map.mp hline
        exact hroom.2 text htext
      · rw [← hback, noNul_unlines]
        intro row hrow
        obtain ⟨line, -, rfl⟩ := List.mem_map.mp hrow
        exact noNul_cString line
      · rw [← hback] at hne ⊢
        exact getLast?_unlines hne
    · rw [if_neg hroom] at h
      cases h
  · rintro ⟨⟨hcount, hshort⟩, hnul, hend⟩
    have hfile := unlines_lines hend
    have hself : ∀ line ∈ lines file, cString line = line := by
      rw [← hfile, noNul_unlines] at hnul
      exact fun line hline => cString_eq_self (hnul line hline)
    have hroom : Room 0 (lines file) :=
      ⟨(Nat.zero_add _).symm ▸ hcount, fun line hline => (hself line hline).symm ▸ hshort line hline⟩
    rw [if_pos hroom, List.map_congr_left hself, List.map_id', hfile]

end Pcom.Lab01.Tac
