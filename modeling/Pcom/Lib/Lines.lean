import Mathlib.Data.List.Forall2
import Pcom.Lib.Scan

/-!
# Texts as lists of lines, and reading them with `fgets`

`lines` cuts a text at its line ends; a text that does not end with one has a last line all the same.  A program
that calls `fgets` with an array of fixed size gets a long line in several chunks.

* `lines_unlines`, `unlines_lines` — lines are written and read back;
* `fgetsAll_short` — lines shorter than the array are read one at a time;
* `fgetsAll_lines` — and where a line is cut, the program sees **more lines than there are**.
-/

namespace Pcom.Lib.Lines

open Pcom.Lib.Scan

/-- The lines of a text, without their line ends. -/
def lines : Bytes → List Bytes
  | [] => []
  | c :: text =>
    if c = 10 then [] :: lines text
    else match lines text with
      | [] => [[c]]
      | line :: more => (c :: line) :: more

theorem lines_ne_nil {text : Bytes} (hne : text ≠ []) : lines text ≠ [] := by
  obtain ⟨c, text, rfl⟩ := List.exists_cons_of_ne_nil hne
  rw [lines]
  split
  · simp
  · split <;> simp

/-- A line behind its line end. -/
theorem lines_line {line : Bytes} (hline : 10 ∉ line) (text : Bytes) :
    lines (line ++ 10 :: text) = line :: lines text := by
  induction line with
  | nil => rw [List.nil_append, lines, if_pos rfl]
  | cons c line ih =>
    rw [List.mem_cons, not_or] at hline
    rw [List.cons_append, lines, if_neg (Ne.symm hline.1), ih hline.2]

/-- A part of a line in front of more text belongs to the first line of that text. -/
theorem lines_append {part text : Bytes} (hpart : 10 ∉ part) (htext : text ≠ []) :
    lines (part ++ text) = (lines text).modifyHead (part ++ ·) := by
  obtain ⟨line, more, htext⟩ := List.exists_cons_of_ne_nil (lines_ne_nil htext)
  rw [htext, List.modifyHead_cons]
  induction part with
  | nil => exact htext
  | cons c part ih =>
    rw [List.mem_cons, not_or] at hpart
    rw [List.cons_append, lines, if_neg (Ne.symm hpart.1), ih hpart.2]
    rfl

/-- A text without a line end is one line. -/
theorem lines_single {line : Bytes} (hline : 10 ∉ line) (hne : line ≠ []) : lines line = [line] := by
  induction line with
  | nil => exact absurd rfl hne
  | cons c line ih =>
    rw [List.mem_cons, not_or] at hline
    cases line with
    | nil => rw [lines, if_neg (Ne.symm hline.1), lines]
    | cons d line => rw [lines, if_neg (Ne.symm hline.1), ih hline.2 (List.cons_ne_nil d line)]

/-! ### Writing lines -/

/-- Each line with a line end. -/
def unlines (rows : List Bytes) : Bytes := rows.flatMap (· ++ [10])

theorem unlines_cons (row : Bytes) (rows : List Bytes) : unlines (row :: rows) = row ++ 10 :: unlines rows := by
  rw [unlines, List.flatMap_cons, List.append_assoc, List.singleton_append]
  rfl

/-- **Lines that are written are read back.** -/
theorem lines_unlines {rows : List Bytes} (hrows : ∀ row ∈ rows, 10 ∉ row) : lines (unlines rows) = rows := by
  induction rows with
  | nil => rfl
  | cons row rows ih =>
    obtain ⟨hrow, hrows⟩ := List.forall_mem_cons.mp hrows
    rw [unlines_cons, lines_line hrow, ih hrows]

theorem not_mem_of_mem_lines {text line : Bytes} (h : line ∈ lines text) : 10 ∉ line := by
  induction text generalizing line with
  | nil => exact absurd h List.not_mem_nil
  | cons c text ih =>
    rw [lines] at h
    split at h
    · rcases List.mem_cons.mp h with rfl | hmem
      · exact List.not_mem_nil
      · exact ih hmem
    · rename_i hc
      have hhead : ∀ {b : Bytes}, 10 ∉ b → 10 ∉ c :: b := fun hb => by
        rw [List.mem_cons, not_or]
        exact ⟨Ne.symm hc, hb⟩
      split at h
      · rw [List.mem_singleton.mp h]
        exact hhead List.not_mem_nil
      · rename_i first more hlines
        rw [hlines] at ih
        rcases List.mem_cons.mp h with rfl | hmem
        · exact hhead (ih List.mem_cons_self)
        · exact ih (List.mem_cons_of_mem _ hmem)

/-- A text whose last line has its line end is the lines it is made of. -/
theorem unlines_lines {text : Bytes} (hend : text ≠ [] → text.getLast? = some 10) : unlines (lines text) = text := by
  induction text with
  | nil => rfl
  | cons c text ih =>
    cases text with
    | nil =>
      obtain rfl : c = 10 := Option.some.inj (hend (List.cons_ne_nil _ _))
      rfl
    | cons d text =>
      have hrest := ih fun _ => (List.getLast?_cons_cons ▸ hend (List.cons_ne_nil _ _))
      rw [lines]
      split
      · rename_i hc
        rw [unlines_cons, hrest, hc, List.nil_append]
      · split
        · rename_i hnil
          exact absurd hnil (lines_ne_nil (List.cons_ne_nil _ _))
        · rename_i line more hlines
          rw [hlines, unlines_cons] at hrest
          rw [unlines_cons, List.cons_append, hrest]

theorem getLast?_unlines {rows : List Bytes} (hne : unlines rows ≠ []) : (unlines rows).getLast? = some 10 := by
  induction rows with
  | nil => exact absurd rfl hne
  | cons row rows ih =>
    rw [unlines_cons, List.getLast?_append_cons]
    cases hrest : unlines rows with
    | nil => rfl
    | cons c rest =>
      rw [List.getLast?_cons_cons, ← hrest]
      exact ih (hrest ▸ List.cons_ne_nil c rest)

/-! ### `fgets` -/

/-- Up to `room` bytes of a text, through its first line end, and what follows them. -/
def chunk : ℕ → Bytes → Bytes × Bytes
  | 0, text => ([], text)
  | _ + 1, [] => ([], [])
  | room + 1, c :: text => if c = 10 then ([10], text) else (c :: (chunk room text).1, (chunk room text).2)

/-- `fgets` into an array of `size` bytes, one of which is for the terminator: the bytes read and the rest of the
file; `none` at the end of the file. -/
def fgets (size : ℕ) (file : Bytes) : Option (Bytes × Bytes) :=
  if file = [] then none else some (chunk (size - 1) file)

/-- What one call reads: a line with its line end, all that is left, or as much of a line as there is room for. -/
inductive Read (room : ℕ) : Bytes → Bytes → Bytes → Prop
  | line {line rest : Bytes} (hline : 10 ∉ line) (hfits : line.length < room) :
      Read room (line ++ 10 :: rest) (line ++ [10]) rest
  | last {line : Bytes} (hline : 10 ∉ line) : Read room line line []
  | cut {part rest : Bytes} (hpart : 10 ∉ part) (hfull : part.length = room) (hrest : rest ≠ []) :
      Read room (part ++ rest) part rest

theorem Read.cons {room : ℕ} {text read rest : Bytes} (h : Read room text read rest) {c : UInt8} (hc : c ≠ 10) :
    Read (room + 1) (c :: text) (c :: read) rest := by
  have hmem : ∀ {b : Bytes}, 10 ∉ b → 10 ∉ c :: b := fun hb => by
    rw [List.mem_cons, not_or]
    exact ⟨Ne.symm hc, hb⟩
  cases h with
  | line hline hfits => exact .line (hmem hline) (Nat.succ_lt_succ hfits)
  | last hline => exact .last (hmem hline)
  | cut hpart hfull hrest => exact .cut (hmem hpart) (congrArg (· + 1) hfull) hrest

theorem read_chunk (room : ℕ) (text : Bytes) : Read room text (chunk room text).1 (chunk room text).2 := by
  induction room generalizing text with
  | zero =>
    cases text with
    | nil => exact .last List.not_mem_nil
    | cons c text => exact .cut (List.not_mem_nil) rfl (List.cons_ne_nil c text)
  | succ room ih =>
    cases text with
    | nil => exact .last List.not_mem_nil
    | cons c text =>
      by_cases hc : c = 10
      · subst hc
        exact .line List.not_mem_nil (Nat.succ_pos room)
      · simpa only [chunk, if_neg hc] using (ih text).cons hc

variable {size : ℕ} {file read rest : Bytes}

theorem fgets_eq_none : fgets size file = none ↔ file = [] := by simp [fgets]

theorem fgets_some (h : fgets size file = some (read, rest)) : file ≠ [] ∧ Read (size - 1) file read rest := by
  rw [fgets] at h
  split at h
  · cases h
  · rename_i hne
    have hchunk := read_chunk (size - 1) file
    rw [Option.some.inj h] at hchunk
    exact ⟨hne, hchunk⟩

/-- Every call reads a byte. -/
theorem length_fgets_lt (hsize : 2 ≤ size) (h : fgets size file = some (read, rest)) :
    rest.length < file.length := by
  obtain ⟨hne, hread⟩ := fgets_some h
  cases hread with
  | line hline hfits => simp; omega
  | last hline => exact List.length_pos_iff.mpr hne
  | cut hpart hfull hrest => rw [List.length_append]; omega

/-- What `while (fgets(line, size, file))` reads. -/
def fgetsAll (size : ℕ) (hsize : 2 ≤ size) (file : Bytes) : List Bytes :=
  match _hread : fgets size file with
  | none => []
  | some (read, rest) => read :: fgetsAll size hsize rest
termination_by file.length
decreasing_by exact length_fgets_lt hsize _hread

/-- A chunk that holds a whole line, with or without its line end. -/
def Whole (line read : Bytes) : Prop := read = line ∨ read = line ++ [10]

/-- **Lines that fit the array** are read one at a time. -/
theorem fgetsAll_short (hsize : 2 ≤ size) (hshort : ∀ line ∈ lines file, line.length + 1 < size) :
    List.Forall₂ Whole (lines file) (fgetsAll size hsize file) := by
  fun_induction fgetsAll size hsize file with
  | case1 file h =>
    rw [fgets_eq_none.mp h]
    exact .nil
  | case2 file read rest h ih =>
    obtain ⟨hne, hread⟩ := fgets_some h
    cases hread with
    | line hline hfits =>
      rw [lines_line hline] at hshort ⊢
      exact .cons (.inr rfl) (ih fun line hmem => hshort line (List.mem_cons_of_mem _ hmem))
    | last hline =>
      rw [lines_single hline hne]
      exact .cons (.inl rfl) (ih fun line hmem => absurd hmem List.not_mem_nil)
    | cut hpart hfull hrest =>
      -- the line that was cut is longer than the array
      obtain ⟨line, more, hlines⟩ := List.exists_cons_of_ne_nil (lines_ne_nil hrest)
      rw [lines_append hpart hrest, hlines, List.modifyHead_cons] at hshort
      have hlong := hshort _ List.mem_cons_self
      rw [List.length_append] at hlong
      omega

/-- **A line that is cut** adds a chunk. -/
theorem fgetsAll_lines (hsize : 2 ≤ size) (file : Bytes) :
    List.Forall₂ Whole (lines file) (fgetsAll size hsize file) ∨
      (lines file).length < (fgetsAll size hsize file).length := by
  fun_induction fgetsAll size hsize file with
  | case1 file h =>
    rw [fgets_eq_none.mp h]
    exact .inl .nil
  | case2 file read rest h ih =>
    obtain ⟨hne, hread⟩ := fgets_some h
    cases hread with
    | line hline hfits =>
      rw [lines_line hline]
      exact ih.imp (.cons (.inr rfl)) Nat.succ_lt_succ
    | last hline =>
      rw [lines_single hline hne]
      exact ih.imp (.cons (.inl rfl)) Nat.succ_lt_succ
    | cut hpart hfull hrest =>
      have hcount : (lines rest).length ≤ (fgetsAll size hsize rest).length :=
        ih.elim (fun hwhole => hwhole.length_eq.le) Nat.le_of_lt
      rw [lines_append hpart hrest, List.length_modifyHead, List.length_cons]
      exact .inr (Nat.lt_succ_of_le hcount)

end Pcom.Lib.Lines
