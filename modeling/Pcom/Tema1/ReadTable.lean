import Pcom.Lib.Lines
import Pcom.Lib.Words
import Pcom.Tema1.Route
import Pcom.Tema1.Skel

/-!
# Reading the routing table

`readRtable` reads a file with `fgets`, takes up to four words from each line and stores an entry, whatever it has
found: the arrays the words are copied to keep their old contents where a word is missing, `ipToInt` adds up
integers it may not have read, and the index is not compared with the size of the table.

* `fields_of_parse`, `scanGroups_fields` — a line of four fields gives the entry it describes;
* `readLoop_some` — every chunk gives **one entry**, at the next index;
* `exact_iff` — **the exact condition** for the table to hold what the file says: there is nothing else in it.
-/

namespace Pcom.Tema1.ReadTable

open Pcom.Lib.Ipv4 Pcom.Lib.Lines Pcom.Lib.Scan Pcom.Lib.Words Pcom.Tema1.Route Pcom.Tema1.Skel

/-! ### The code -/

/-- The number of entries `main` allocates. -/
def RTABLE_ENTRIES : ℕ := 66000

/-- The arrays `group1` to `group4`, as C strings. -/
structure Groups where
  group1 : Bytes
  group2 : Bytes
  group3 : Bytes
  group4 : Bytes
  deriving DecidableEq

/-- `sscanf(line, "%s %s %s %s", group1, group2, group3, group4)`; `none` where a word overflows its array. -/
def scanGroups (old : Groups) (line : Bytes) : Option Groups :=
  (sscanf (List.replicate 4 (.word 100)) (cString line)).map fun vals =>
    ⟨wordArg vals 0 old.group1, wordArg vals 1 old.group2, wordArg vals 2 old.group3, wordArg vals 3 old.group4⟩

/-- The entry that is stored; `uninit k` is the sum of the integers of the `k`-th call of `ipToInt` where it has
not read all of them. -/
def entryOf (uninit : ℕ → BitVec 32) (groups : Groups) : RouteTableEntry :=
  { pfx := swapBytes ((ipToInt groups.group1).getD (uninit 0))
    nextHop := swapBytes ((ipToInt groups.group2).getD (uninit 1))
    mask := swapBytes ((ipToInt groups.group3).getD (uninit 2))
    interface := atoi groups.group4 }

variable (uninit : ℕ → ℕ → BitVec 32)

/-- The loop: what is written to the table, in order, each with its index, and the final value of `i`. -/
def readLoop (i : ℕ) (groups : Groups) : List Bytes → Option (List (ℕ × RouteTableEntry) × ℕ)
  | [] => some ([], i)
  | line :: more => do
    let groups ← scanGroups groups line
    let (writes, count) ← readLoop (i + 1) groups more
    some ((i, entryOf (uninit i) groups) :: writes, count)

/-- `readRtable` on the contents of the file; `groups` is what the arrays hold to begin with. -/
def readRtable (groups : Groups) (file : Bytes) : Option (List (ℕ × RouteTableEntry) × ℕ) :=
  readLoop uninit 0 groups (fgetsAll MAX_LEN (by decide) file)

/-! ### What the file says -/

/-- Four octets; the word has the first of them in its lowest byte, as network order is loaded. -/
def parseQuad (text : Bytes) : Option (BitVec 32) :=
  match text.splitOn 46 with
  | [a, b, c, d] =>
    if IsOctet a ∧ IsOctet b ∧ IsOctet c ∧ IsOctet d then some (octet d ++ octet c ++ octet b ++ octet a) else none
  | _ => none

/-- An `int` in decimal, which may have a sign. -/
def parseNumeral (text : Bytes) : Option ℤ :=
  let (neg, ds) := scanSign text
  let n : ℤ := if neg then -(digitsValue ds : ℤ) else digitsValue ds
  if ds ≠ [] ∧ (∀ c ∈ ds, isDigit c = true) ∧ FitsInt n then some n else none

/-- The entry a line describes: three quads and an `int`, with one blank between two of them. -/
def parseLine (line : Bytes) : Option RouteTableEntry :=
  match line.splitOn 32 with
  | [pfx, nextHop, mask, interface] => do
    some ⟨← parseQuad pfx, ← parseQuad nextHop, ← parseQuad mask, ← parseNumeral interface⟩
  | _ => none

/-- The table holds the entries the lines of the file describe, in order and from the start, and `count` of them; no
write is outside the table. -/
structure Exact (file : Bytes) (writes : List (ℕ × RouteTableEntry)) (count : ℕ) : Prop where
  stored : writes.map Prod.snd = (lines file).filterMap parseLine
  indices : writes.map Prod.fst = List.range writes.length
  counted : count = writes.length
  allocated : ∀ w ∈ writes, w.1 < RTABLE_ENTRIES

/-! ### Fields -/

/-- A field of a line is neither empty nor cut by `sscanf`. -/
structure IsField (text : Bytes) : Prop where
  ne_nil : text ≠ []
  bytes : ∀ c ∈ text, 43 ≤ c.toNat

theorem IsField.words {text : Bytes} (h : IsField text) : words text = [text] :=
  words_single h.ne_nil fun c hc => (clean_of_le (h.bytes c hc)).1

theorem IsField.noNul {text : Bytes} (h : IsField text) : NoNul text :=
  fun c hc => (clean_of_le (h.bytes c hc)).2.1

theorem digit_le {c : UInt8} (h : isDigit c = true) : 43 ≤ c.toNat := by
  have hc := isDigit_range h
  omega

/-- **A quad** is read by `ipToInt` as the word it denotes. -/
theorem ipToInt_of_parse {text : Bytes} {word : BitVec 32} (h : parseQuad text = some word) :
    IsField text ∧ (ipToInt text).map swapBytes = some word := by
  rw [parseQuad] at h
  split at h
  · rename_i a b c d hsplit
    split at h
    · rename_i hoctets
      obtain ⟨ha, hb, hc, hd⟩ := hoctets
      have htext : a ++ 46 :: (b ++ 46 :: (c ++ 46 :: d)) = text := by
        simpa [hsplit, List.intercalate] using @List.intercalate_splitOn _ text _ _ 46
      rw [← htext, ipToInt_quad ha hb hc hd, Option.map_some, swapBytes_append]
      refine ⟨⟨by simp, fun x hx => ?_⟩, h⟩
      simp only [List.mem_append, List.mem_cons] at hx
      obtain hx | rfl | hx | rfl | hx | rfl | hx := hx
      · exact digit_le (ha.digits x hx)
      · decide
      · exact digit_le (hb.digits x hx)
      · decide
      · exact digit_le (hc.digits x hx)
      · decide
      · exact digit_le (hd.digits x hx)
    · cases h
  · cases h

theorem scanSign_cases (text : Bytes) :
    text = (scanSign text).2 ∨ ∃ sign, text = sign :: (scanSign text).2 ∧ 43 ≤ sign.toNat := by
  unfold scanSign
  split
  · exact .inr ⟨45, rfl, by decide⟩
  · exact .inr ⟨43, rfl, by decide⟩
  · exact .inl rfl

/-- **A numeral** is read by `atoi` as the number it denotes. -/
theorem atoi_of_parse {text : Bytes} {n : ℤ} (h : parseNumeral text = some n) : IsField text ∧ atoi text = n := by
  simp only [parseNumeral, Option.ite_none_right_eq_some, Option.some.injEq] at h
  obtain ⟨⟨hne, hds, hfits⟩, hn⟩ := h
  have hfield : IsField text := by
    obtain htext | ⟨sign, htext, hsign⟩ := scanSign_cases text
    · rw [htext]
      exact ⟨hne, fun c hc => digit_le (hds c hc)⟩
    · rw [htext]
      exact ⟨List.cons_ne_nil _ _, List.forall_mem_cons.mpr ⟨hsign, fun c hc => digit_le (hds c hc)⟩⟩
  have hskip : skipSpace text = text := by
    obtain ⟨c, cs, rfl⟩ := List.exists_cons_of_ne_nil hfield.ne_nil
    exact skipSpace_of_stop (clean_of_le (hfield.bytes c List.mem_cons_self)).1
  have hsign : scanSign text = ((scanSign text).1, (scanSign text).2 ++ []) := by rw [List.append_nil]
  rw [atoi, scanInt_of_digits hskip hsign hne hds trivial hn.symm (hn ▸ hfits)]
  exact ⟨hfield, rfl⟩

/-! ### Lines -/

/-- The fields of a line that describes an entry. -/
structure Fields (line : Bytes) (entry : RouteTableEntry) (groups : Groups) : Prop where
  words : words line = [groups.group1, groups.group2, groups.group3, groups.group4]
  noNul : NoNul line
  length : line.length =
    groups.group1.length + groups.group2.length + groups.group3.length + groups.group4.length + 3
  entryOf : ∀ uninit, entryOf uninit groups = entry

theorem fields_of_parse {line : Bytes} {entry : RouteTableEntry} (h : parseLine line = some entry) :
    ∃ groups, Fields line entry groups := by
  rw [parseLine] at h
  split at h
  · rename_i p n m i hsplit
    simp only [Option.bind_eq_bind, Option.bind_eq_some_iff] at h
    obtain ⟨pfx, hp, nextHop, hn, mask, hm, interface, hi, hentry⟩ := h
    obtain ⟨hpf, hp⟩ := ipToInt_of_parse hp
    obtain ⟨hnf, hn⟩ := ipToInt_of_parse hn
    obtain ⟨hmf, hm⟩ := ipToInt_of_parse hm
    obtain ⟨hif, hi⟩ := atoi_of_parse hi
    have hline : p ++ 32 :: (n ++ 32 :: (m ++ 32 :: i)) = line := by
      simpa [hsplit, List.intercalate] using @List.intercalate_splitOn _ line _ _ 32
    have hword : ∀ {text : Bytes} {word : BitVec 32}, (ipToInt text).map swapBytes = some word →
        ∀ garbage, swapBytes ((ipToInt text).getD garbage) = word := by
      intro text word hmap garbage
      obtain ⟨ip, hip, rfl⟩ := Option.map_eq_some_iff.mp hmap
      rw [hip, Option.getD_some]
    refine ⟨⟨p, n, m, i⟩, ?_, ?_, ?_, fun uninit => ?_⟩
    · rw [← hline, words_append_blank, words_append_blank, words_append_blank, hpf.words, hnf.words, hmf.words,
        hif.words]
      rfl
    · rw [← hline]
      simp [hpf.noNul, hnf.noNul, hmf.noNul, hif.noNul]
    · rw [← hline]
      simp only [List.length_append, List.length_cons]
      omega
    · rw [entryOf, hword hp, hword hn, hword hm, hi]
      exact Option.some.inj hentry
  · cases h

example : parseLine (ascii "192.1.4.0 192.1.4.2 255.255.255.0 1") =
    some ⟨0x000401C0, 0x020401C0, 0x00FFFFFF, 1⟩ := by decide

/-- What `sscanf` makes of the line, however the chunk ends. -/
theorem scanGroups_fields {line read : Bytes} {entry : RouteTableEntry} {groups : Groups}
    (h : Fields line entry groups) (hread : Whole line read) (old : Groups) :
    scanGroups old read = if ∀ w ∈ words line, w.length < 100 then some groups else none := by
  have hclean : cString read = read ∧ words read = words line := by
    obtain rfl | rfl := hread
    · exact ⟨cString_eq_self h.noNul, rfl⟩
    · refine ⟨cString_eq_self ?_, ?_⟩
      · simp [h.noNul]
      · rw [words_append_space (by decide), words_nil, List.append_nil]
  rw [scanGroups, sscanf_words, hclean.1, hclean.2, h.words]
  simp only [List.take_succ_cons, List.take_nil]
  split
  · simp only [Option.map_some, wordArg_words]
    rfl
  · rfl

/-! ### The loop -/

variable {uninit} {i count : ℕ} {groups : Groups} {read : List Bytes} {writes : List (ℕ × RouteTableEntry)}

/-- A turn of the loop. -/
theorem readLoop_cons {line : Bytes} (h : readLoop uninit i groups (line :: read) = some (writes, count)) :
    ∃ next more, scanGroups groups line = some next ∧ readLoop uninit (i + 1) next read = some (more, count) ∧
      writes = (i, entryOf (uninit i) next) :: more := by
  simp only [readLoop, Option.bind_eq_bind, Option.bind_eq_some_iff, Option.some.injEq, Prod.mk.injEq] at h
  obtain ⟨next, hscan, ⟨more, count'⟩, hrun, hwrites, rfl⟩ := h
  exact ⟨next, more, hscan, hrun, hwrites.symm⟩

/-- **Every chunk gives one entry**, at the next index. -/
theorem readLoop_some (h : readLoop uninit i groups read = some (writes, count)) :
    writes.map Prod.fst = List.range' i read.length ∧ count = i + read.length := by
  induction read generalizing i groups writes with
  | nil =>
    obtain ⟨rfl, rfl⟩ := Prod.mk.inj (Option.some.inj h)
    exact ⟨rfl, rfl⟩
  | cons line read ih =>
    obtain ⟨next, more, -, hrun, rfl⟩ := readLoop_cons h
    obtain ⟨hindices, hcount⟩ := ih hrun
    refine ⟨?_, ?_⟩
    · rw [List.map_cons, hindices, List.length_cons, List.range'_succ]
    · rw [hcount, List.length_cons]
      omega

theorem length_writes (h : readLoop uninit i groups read = some (writes, count)) : writes.length = read.length := by
  rw [← List.length_map Prod.fst, (readLoop_some h).1, List.length_range']

/-- A line that describes an entry, and whose fields fit the arrays. -/
def Fits (line : Bytes) : Prop := (parseLine line).isSome ∧ ∀ w ∈ words line, w.length < 100

/-- A run that ends has scanned every line. -/
theorem fits_of_readLoop {file : List Bytes} (hwhole : List.Forall₂ Whole file read)
    (h : readLoop uninit i groups read = some (writes, count)) (hparse : ∀ line ∈ file, (parseLine line).isSome) :
    ∀ line ∈ file, Fits line := by
  induction hwhole generalizing i groups writes count with
  | nil => exact fun line hline => absurd hline List.not_mem_nil
  | @cons line chunk file read hline hwhole ih =>
    obtain ⟨next, more, hscan, hrun, -⟩ := readLoop_cons h
    obtain ⟨hparse, hmore⟩ := List.forall_mem_cons.mp hparse
    obtain ⟨entry, hentry⟩ := Option.isSome_iff_exists.mp hparse
    obtain ⟨fields, hfields⟩ := fields_of_parse hentry
    rw [scanGroups_fields hfields hline, Option.ite_none_right_eq_some] at hscan
    exact List.forall_mem_cons.mpr ⟨⟨hparse, hscan.1⟩, ih hrun hmore⟩

/-- **A run on lines that describe entries** stores them. -/
theorem readLoop_lines {file : List Bytes} (hwhole : List.Forall₂ Whole file read) (hfits : ∀ line ∈ file, Fits line)
    (uninit : ℕ → ℕ → BitVec 32) (i : ℕ) (groups : Groups) :
    ∃ writes, readLoop uninit i groups read = some (writes, i + read.length) ∧
      writes.map Prod.snd = file.filterMap parseLine := by
  induction hwhole generalizing i groups with
  | nil => exact ⟨[], rfl, rfl⟩
  | @cons line chunk file read hline hwhole ih =>
    obtain ⟨⟨hparse, hshort⟩, hmore⟩ := List.forall_mem_cons.mp hfits
    obtain ⟨entry, hentry⟩ := Option.isSome_iff_exists.mp hparse
    obtain ⟨fields, hfields⟩ := fields_of_parse hentry
    obtain ⟨writes, hrun, hstored⟩ := ih hmore (i + 1) fields
    refine ⟨(i, entry) :: writes, ?_, ?_⟩
    · rw [readLoop, scanGroups_fields hfields hline, if_pos hshort]
      simp only [Option.bind_eq_bind, Option.bind_some, hrun, hfields.entryOf, List.length_cons]
      rw [Nat.add_right_comm, Nat.add_assoc]
    · rw [List.map_cons, hstored, List.filterMap_cons_some hentry]

/-- A line whose fields fit the arrays fits the buffer. -/
theorem Fits.length_lt {line : Bytes} (h : Fits line) : line.length + 1 < MAX_LEN := by
  obtain ⟨hparse, hshort⟩ := h
  obtain ⟨entry, hentry⟩ := Option.isSome_iff_exists.mp hparse
  obtain ⟨fields, hfields⟩ := fields_of_parse hentry
  rw [hfields.words] at hshort
  simp only [List.forall_mem_cons] at hshort
  obtain ⟨h1, h2, h3, h4, -⟩ := hshort
  rw [hfields.length, MAX_LEN]
  omega

/-- **When the table is read exactly.** -/
theorem exact_iff (uninit : ℕ → ℕ → BitVec 32) (groups : Groups) (file : Bytes) :
    (∃ writes count, readRtable uninit groups file = some (writes, count) ∧ Exact file writes count) ↔
      (∀ line ∈ lines file, Fits line) ∧ (lines file).length ≤ RTABLE_ENTRIES := by
  constructor
  · intro ⟨writes, count, hrun, hexact⟩
    obtain ⟨hindices, -⟩ := readLoop_some hrun
    have hwrites := length_writes hrun
    have hstored : writes.length = ((lines file).filterMap parseLine).length := by
      simpa using congrArg List.length hexact.stored
    have hparsed := List.length_filterMap_le parseLine (lines file)
    -- there are as many entries as chunks, and at least as many chunks as lines
    obtain hwhole | hmore := fgetsAll_lines (by decide : 2 ≤ MAX_LEN) file
    · have hlength : (lines file).length = writes.length := by rw [hwrites, hwhole.length_eq]
      have hall := List.filterMap_length_eq_length.mp (hstored.symm.trans hlength.symm)
      refine ⟨fits_of_readLoop hwhole hrun hall, ?_⟩
      by_contra hover
      have hmem : RTABLE_ENTRIES ∈ writes.map Prod.fst := by
        rw [hindices, ← hwrites, List.mem_range'_1]
        omega
      obtain ⟨w, hw, hindex⟩ := List.mem_map.mp hmem
      exact absurd (hexact.allocated w hw) (by omega)
    · omega
  · intro ⟨hfits, hcount⟩
    have hwhole := fgetsAll_short (by decide) fun line hline => (hfits line hline).length_lt
    obtain ⟨writes, hrun, hstored⟩ := readLoop_lines hwhole hfits uninit 0 groups
    obtain ⟨hindices, -⟩ := readLoop_some hrun
    have hlength := length_writes hrun
    rw [← hlength] at hindices hrun
    refine ⟨writes, _, hrun, hstored, hindices.trans List.range_eq_range'.symm, Nat.zero_add _, fun w hw => ?_⟩
    have hmem := List.mem_map_of_mem (f := Prod.fst) hw
    rw [hindices, List.mem_range'_1] at hmem
    have hlines := hwhole.length_eq
    omega

/-- **A blank line** adds an entry. -/
theorem blank_line_stored : ¬ ∀ uninit groups file, ∃ writes count,
    readRtable uninit groups file = some (writes, count) ∧ Exact file writes count := by
  intro h
  obtain ⟨writes, count, hrun, hexact⟩ := h (fun _ _ => 0) ⟨[], [], [], []⟩ [10]
  have hwhole : List.Forall₂ Whole (lines [10]) (fgetsAll MAX_LEN (by decide) [10]) := fgetsAll_short _ (by decide)
  have hstored := congrArg List.length hexact.stored
  rw [List.length_map, length_writes hrun, ← hwhole.length_eq] at hstored
  revert hstored
  decide

end Pcom.Tema1.ReadTable
