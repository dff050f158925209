import Mathlib.Data.List.DropRight
import Pcom.Lib.Scan
import Pcom.Lib.Search

/-!
# Messages of HTTP/1.1

A message is a block of lines, each ended by CRLF, up to an empty one, and a body of as many octets as the field
`Content-Length` says.

* `Line`, `Field`, `LengthField` — lines and fields that are well formed by construction;
* `Response` — responses with one `Content-Length` field, in any of its spellings;
* `terminator_first` — the block ends at **the first empty line**;
* `readLines_block` — reading gives the lines back, whatever follows them;
* `readRequest` — a reader of requests; what it leaves begins right **behind the body** (`readRequest_body`).
-/

namespace Pcom.Lib.Http

open Pcom.Lib.Scan Pcom.Lib.Search

def crlf : Bytes := [13, 10]

/-- `tolower` of the C locale. -/
def toLower (c : UInt8) : UInt8 := if 65 ≤ c ∧ c ≤ 90 then c + 32 else c

/-- Case does not matter. -/
def lower (s : Bytes) : Bytes := s.map toLower

/-! ### Lines -/

/-- A line of a block: not empty, and without a line end in it. -/
structure Line where
  bytes : Bytes
  ne_nil : bytes ≠ []
  clean : ∀ c ∈ bytes, c ≠ 13 ∧ c ≠ 10

/-- The lines, and the empty one behind them. -/
def block (ls : List Line) : Bytes := (ls.flatMap fun l => l.bytes ++ crlf) ++ crlf

theorem block_nil : block [] = crlf := rfl

theorem block_cons (l : Line) (ls : List Line) : block (l :: ls) = l.bytes ++ 13 :: 10 :: block ls := by
  simp [block, crlf]

theorem Line.not_mem (l : Line) : (13 : UInt8) ∉ l.bytes := fun h => (l.clean 13 h).1 rfl

/-- A block that is not over starts with a character of a line. -/
theorem block_head (l : Line) (ls : List Line) (rest : Bytes) :
    ∃ c s, block (l :: ls) ++ rest = c :: s ∧ c ≠ 13 := by
  obtain ⟨c, s, hl⟩ := List.exists_cons_of_ne_nil l.ne_nil
  refine ⟨c, s ++ 13 :: 10 :: block ls ++ rest, by rw [block_cons, hl]; rfl, ?_⟩
  exact (l.clean c (hl ▸ List.mem_cons_self)).1

/-- **The block ends at the first empty line.** -/
theorem terminator_first (l : Line) (ls : List Line) (rest : Bytes) :
    FirstAt (crlf ++ crlf) (block (l :: ls) ++ rest) ((block (l :: ls)).length - 4) := by
  induction ls generalizing l with
  | nil =>
    have hhere : FirstAt (crlf ++ crlf) (13 :: 10 :: 13 :: 10 :: rest) 0 :=
      ⟨⟨rest, rfl⟩, fun j hj => absurd hj j.not_lt_zero⟩
    have hlen : (block [l]).length - 4 = l.bytes.length + 0 := by simp [block_cons, block_nil, crlf]
    rw [hlen, block_cons, block_nil, List.append_assoc]
    exact hhere.append_left l.not_mem
  | cons l' ls ih =>
    obtain ⟨c, s, hs, hc⟩ := block_head l' ls rest
    have hlen : (block (l :: l' :: ls)).length - 4 = l.bytes.length + ((block (l' :: ls)).length - 4 + 1 + 1) := by
      rw [block_cons l, block_cons l']
      simp only [block, crlf, List.length_append, List.length_cons]
      omega
    have hsecond : ¬ crlf ++ crlf <+: 10 :: (block (l' :: ls) ++ rest) := fun h =>
      absurd (List.cons_prefix_cons.mp h).1 (by decide)
    have hfirst : ¬ crlf ++ crlf <+: 13 :: 10 :: (block (l' :: ls) ++ rest) := fun h => by
      rw [hs] at h
      obtain ⟨-, h⟩ := List.cons_prefix_cons.mp h
      obtain ⟨-, h⟩ := List.cons_prefix_cons.mp h
      exact hc (List.cons_prefix_cons.mp h).1.symm
    rw [hlen, block_cons l, List.append_assoc]
    exact (((ih l').cons hsecond).cons hfirst).append_left l.not_mem

/-! ### Fields -/

/-- The characters of a name. -/
def isTokenChar (c : UInt8) : Bool :=
  isDigit c || (65 ≤ c && c ≤ 90) || (97 ≤ c && c ≤ 122) || (ascii "!#$%&'*+-.^_|~").contains c || c == 96

/-- The characters of a value: visible ones, those above 127, and blanks. -/
def isValueChar (c : UInt8) : Bool := c == 9 || (32 ≤ c && c != 127)

def isBlank (c : UInt8) : Bool := c == 32 || c == 9

/-- A class without the two characters of a line end. -/
theorem clean_of_class {p : UInt8 → Bool} (h13 : p 13 = false) (h10 : p 10 = false) {c : UInt8} (h : p c = true) :
    c ≠ 13 ∧ c ≠ 10 := by
  constructor
  · rintro rfl
    exact absurd h (by simp [h13])
  · rintro rfl
    exact absurd h (by simp [h10])

theorem isTokenChar_clean {c : UInt8} (h : isTokenChar c = true) : c ≠ 13 ∧ c ≠ 10 :=
  clean_of_class (by decide) (by decide) h

theorem isValueChar_clean {c : UInt8} (h : isValueChar c = true) : c ≠ 13 ∧ c ≠ 10 :=
  clean_of_class (by decide) (by decide) h

/-- A field; its value is all that stands behind the colon. -/
structure Field where
  name : Bytes
  value : Bytes
  ne_nil : name ≠ []
  token : ∀ c ∈ name, isTokenChar c = true
  text : ∀ c ∈ value, isValueChar c = true

def Field.line (f : Field) : Line where
  bytes := f.name ++ 58 :: f.value
  ne_nil := List.append_ne_nil_of_left_ne_nil f.ne_nil _
  clean := fun c hc => by
    rcases List.mem_append.mp hc with hc | hc
    · exact isTokenChar_clean (f.token c hc)
    rcases List.mem_cons.mp hc with rfl | hc
    · decide
    · exact isValueChar_clean (f.text c hc)

/-- A `Content-Length` field that announces `n`, in any case of its letters, with blanks around the digits. -/
structure LengthField (n : ℕ) where
  name : Bytes
  before : Bytes
  digits : Bytes
  after : Bytes
  spelled : lower name = ascii "content-length"
  blank_before : ∀ c ∈ before, isBlank c = true
  blank_after : ∀ c ∈ after, isBlank c = true
  ne_nil : digits ≠ []
  decimal : ∀ c ∈ digits, isDigit c = true
  announces : digitsValue digits = n

theorem isTokenChar_of_lower {c : UInt8} (h : toLower c ∈ ascii "content-length") : isTokenChar c = true := by
  unfold toLower at h
  split at h
  · rename_i hc
    simp [isTokenChar, hc]
  · exact (show ∀ d ∈ ascii "content-length", isTokenChar d = true by decide) c h

theorem isValueChar_of_blank {c : UInt8} (h : isBlank c = true) : isValueChar c = true := by
  simp only [isBlank, Bool.or_eq_true, beq_iff_eq] at h
  rcases h with rfl | rfl <;> decide

theorem isValueChar_of_digit {c : UInt8} (h : isDigit c = true) : isValueChar c = true := by
  obtain ⟨hlo, hhi⟩ := isDigit_range h
  have hne : c ≠ 127 := by
    rintro rfl
    exact absurd hhi (by decide)
  simp only [isValueChar, Bool.or_eq_true, Bool.and_eq_true, decide_eq_true_eq, bne_iff_ne, UInt8.le_iff_toNat_le]
  exact Or.inr ⟨le_trans (by decide) hlo, hne⟩

def LengthField.field {n : ℕ} (f : LengthField n) : Field where
  name := f.name
  value := f.before ++ f.digits ++ f.after
  ne_nil := fun h => absurd (h ▸ f.spelled) (by decide)
  token := fun c hc => isTokenChar_of_lower (f.spelled ▸ List.mem_map_of_mem hc)
  text := fun c hc => by
    rcases List.mem_append.mp hc with hc | hc
    · rcases List.mem_append.mp hc with hc | hc
      · exact isValueChar_of_blank (f.blank_before c hc)
      · exact isValueChar_of_digit (f.decimal c hc)
    · exact isValueChar_of_blank (f.blank_after c hc)

/-! ### Responses -/

/-- A response with one `Content-Length` field, and exactly the body it announces. -/
structure Response where
  code : Bytes
  reason : Bytes
  fieldsBefore : List Field
  body : Bytes
  contentLength : LengthField body.length
  fieldsAfter : List Field
  three_digits : code.length = 3 ∧ ∀ c ∈ code, isDigit c = true
  text : ∀ c ∈ reason, isValueChar c = true
  once : ∀ f ∈ fieldsBefore ++ fieldsAfter, lower f.name ≠ ascii "content-length"

def Response.status (r : Response) : Line where
  bytes := ascii "HTTP/1.1 " ++ (r.code ++ 32 :: r.reason)
  ne_nil := List.append_ne_nil_of_left_ne_nil (by decide) _
  clean := fun c hc => by
    rcases List.mem_append.mp hc with hc | hc
    · exact (show ∀ d ∈ ascii "HTTP/1.1 ", d ≠ 13 ∧ d ≠ 10 by decide) c hc
    rcases List.mem_append.mp hc with hc | hc
    · exact isValueChar_clean (isValueChar_of_digit (r.three_digits.2 c hc))
    rcases List.mem_cons.mp hc with rfl | hc
    · decide
    · exact isValueChar_clean (r.text c hc)

def Response.lines (r : Response) : List Line :=
  r.fieldsBefore.map Field.line ++ r.contentLength.field.line :: r.fieldsAfter.map Field.line

/-- The status line and the fields, up to the empty line. -/
def Response.head (r : Response) : Bytes := block (r.status :: r.lines)

def Response.render (r : Response) : Bytes := r.head ++ r.body

/-! ### Reading a request -/

/-- The line up to the first CRLF, and what is behind it. -/
def splitLine : Bytes → Option (Bytes × Bytes)
  | 13 :: 10 :: s => some ([], s)
  | c :: s => (splitLine s).map fun r => (c :: r.1, r.2)
  | [] => none

/-- The lines up to the first empty one. -/
def readLines : ℕ → Bytes → Option (List Bytes × Bytes)
  | 0, _ => none
  | n + 1, s => do
    let (line, s) ← splitLine s
    if line = [] then return ([], s)
    let (lines, s) ← readLines n s
    return (line :: lines, s)

def trim (s : Bytes) : Bytes := (s.dropWhile isBlank).rdropWhile isBlank

/-- The name of a field, in small letters, and its value without the blanks around it. -/
def readField (line : Bytes) : Option (Bytes × Bytes) :=
  let name := line.takeWhile (· != 58)
  let value := (line.drop name.length).tail
  if name ≠ [] ∧ name ≠ line ∧ name.all isTokenChar ∧ value.all isValueChar then some (lower name, trim value)
  else none

/-- The method and the target, behind each of which there is one space. -/
def readRequestLine (line : Bytes) : Option (Bytes × Bytes) :=
  let method := line.takeWhile (· != 32)
  let rest := (line.drop method.length).tail
  let target := rest.takeWhile (· != 32)
  if method ≠ [] ∧ target ≠ [] ∧ rest.drop target.length = ascii " HTTP/1.1" then some (method, target) else none

structure Request where
  method : Bytes
  target : Bytes
  fields : List (Bytes × Bytes)
  body : Bytes

/-- The values of the fields of a name. -/
def valuesOf (fields : List (Bytes × Bytes)) (name : Bytes) : List Bytes :=
  fields.filterMap fun f => if f.1 = name then some f.2 else none

/-- The length of the body; a transfer coding is not read. -/
def bodyLength (fields : List (Bytes × Bytes)) : Option ℕ :=
  if valuesOf fields (ascii "transfer-encoding") ≠ [] then none
  else
    match valuesOf fields (ascii "content-length") with
    | [] => some 0
    | [value] => if value ≠ [] ∧ value.all isDigit then some (digitsValue value) else none
    | _ => none

/-- A request, and what is behind its last octet. -/
def readRequest (s : Bytes) : Option (Request × Bytes) := do
  let (lines, s) ← readLines s.length s
  let (method, target) ← lines.head?.bind readRequestLine
  let fields ← lines.tail.mapM readField
  let n ← bodyLength fields
  if s.length < n then none else some (⟨method, target, fields, s.take n⟩, s.drop n)

theorem splitLine_append {l : Bytes} (hl : ∀ c ∈ l, c ≠ 13) (s : Bytes) :
    splitLine (l ++ 13 :: 10 :: s) = some (l, s) := by
  induction l with
  | nil => rfl
  | cons c l ih =>
    have hc : c ≠ 13 := hl c List.mem_cons_self
    rw [List.cons_append, splitLine.eq_2 _ _ fun _ h _ => hc h, ih fun d hd => hl d (List.mem_cons_of_mem _ hd)]
    rfl

/-- **Reading a block** gives its lines, and what is behind it. -/
theorem readLines_block (ls : List Line) (s : Bytes) {n : ℕ} (hn : ls.length < n) :
    readLines n (block ls ++ s) = some (ls.map Line.bytes, s) := by
  induction ls generalizing n with
  | nil =>
    obtain ⟨n, rfl⟩ : ∃ k, n = k + 1 := ⟨n - 1, by omega⟩
    simp [readLines, block_nil, crlf, splitLine]
  | cons l ls ih =>
    rw [List.length_cons] at hn
    obtain ⟨n, rfl⟩ : ∃ k, n = k + 1 := ⟨n - 1, by omega⟩
    have hline := splitLine_append (fun c hc => (l.clean c hc).1) (block ls ++ s)
    have hsplit : block (l :: ls) ++ s = l.bytes ++ 13 :: 10 :: (block ls ++ s) := by
      rw [block_cons, List.append_assoc]
      rfl
    rw [hsplit, readLines, hline]
    simp [l.ne_nil, ih (Nat.lt_of_succ_lt_succ hn)]

theorem length_block (ls : List Line) : ls.length < (block ls).length := by
  induction ls with
  | nil => decide
  | cons l ls ih =>
    rw [block_cons, List.length_append, List.length_cons, List.length_cons, List.length_cons]
    omega

/-- What is read behind a block is the body, and what is behind that. -/
theorem readRequest_body {ls : List Line} {s rest : Bytes} {q : Request}
    (h : readRequest (block ls ++ s) = some (q, rest)) : s = q.body ++ rest := by
  have hlen : ls.length < (block ls ++ s).length := by
    rw [List.length_append]
    exact Nat.lt_add_right _ (length_block ls)
  simp only [readRequest, readLines_block ls s hlen, Option.bind_eq_bind, Option.bind_some, Option.bind_eq_some_iff,
    Prod.exists] at h
  obtain ⟨method, target, -, fields, -, n, -, h⟩ := h
  rw [Option.ite_none_left_eq_some] at h
  obtain ⟨rfl, rfl⟩ := Prod.mk.inj (Option.some.inj h.2)
  exact (List.take_append_drop n s).symm

theorem trim_space (s : Bytes) : trim (32 :: s) = trim s := by
  rw [trim, List.dropWhile_cons_of_pos (by decide), trim]

/-- A field written with one space behind the colon. -/
theorem readField_spaced {name value : Bytes} (hne : name ≠ []) (hname : ∀ c ∈ name, isTokenChar c = true)
    (hvalue : ∀ c ∈ value, isValueChar c = true) :
    readField (name ++ 58 :: 32 :: value) = some (lower name, trim value) := by
  have hcolon : ∀ c ∈ name, (c != 58) = true := fun c hc => by
    rw [bne_iff_ne]
    rintro rfl
    exact absurd (hname 58 hc) (by decide)
  have htake : (name ++ 58 :: 32 :: value).takeWhile (· != 58) = name :=
    takeWhile_append_stop hcolon (show ((58 : UInt8) != 58) = false by decide)
  have hall : (32 :: value).all isValueChar = true := by
    rw [List.all_cons, List.all_eq_true.mpr hvalue]
    rfl
  simp only [readField, htake, List.drop_left, List.tail_cons]
  rw [if_pos ⟨hne, by simp, List.all_eq_true.mpr hname, hall⟩, trim_space]

/-- A request line. -/
theorem readRequestLine_spaced {method target : Bytes} (hmethod : method ≠ [] ∧ ∀ c ∈ method, c ≠ 32)
    (htarget : target ≠ [] ∧ ∀ c ∈ target, c ≠ 32) :
    readRequestLine (method ++ 32 :: (target ++ ascii " HTTP/1.1")) = some (method, target) := by
  have hstop : ∀ s : Bytes, StopsAt (· != 32) (32 :: s) := fun s => show ((32 : UInt8) != 32) = false by decide
  have htake : (method ++ 32 :: (target ++ ascii " HTTP/1.1")).takeWhile (· != 32) = method :=
    takeWhile_append_stop (fun c hc => bne_iff_ne.mpr (hmethod.2 c hc)) (hstop _)
  have htake' : (target ++ ascii " HTTP/1.1").takeWhile (· != 32) = target :=
    takeWhile_append_stop (fun c hc => bne_iff_ne.mpr (htarget.2 c hc)) (hstop (ascii "HTTP/1.1"))
  simp only [readRequestLine, htake, List.drop_left, List.tail_cons, htake']
  rw [if_pos ⟨hmethod.1, htarget.1, trivial⟩]

end Pcom.Lib.Http
