import Pcom.Lib.Scan

/-!
# JSON texts

A reader of JSON texts over octets: strings are given back decoded, octets above 127 are taken as they are, and a
number is a mantissa with a decimal exponent.  A writer that prints strings between quotes as they are is read back
exactly as long as nothing in them would have to be escaped.

* `parse` — the reader, with a bound on its depth from the length of the text;
* `Fair` — what reading can do to the marks `\` and `u` of a text: an escape loses one at least;
* `parse_renderObject_iff` — **the exact condition** for the round trip of a flat object, whatever its strings are.
-/

namespace Pcom.Lib.Json

open Pcom.Lib.Scan

/-- A JSON value; a number is `mantissa · 10 ^ exponent`, and an object keeps its members in order. -/
inductive Value
  | null
  | bool (b : Bool)
  | number (mantissa exponent : ℤ)
  | string (s : Bytes)
  | array (vs : List Value)
  | object (members : List (Bytes × Value))

/-! ### Tokens -/

/-- Blanks between tokens. -/
def isBlank (c : UInt8) : Bool := c == 32 || c == 9 || c == 10 || c == 13

def skipBlanks (s : Bytes) : Bytes := s.dropWhile isBlank

/-- What follows a fixed token. -/
def expect (lit s : Bytes) : Option Bytes := if startsWith lit s then some (s.drop lit.length) else none

/-- The integer part of a number has no leading zero. -/
def intPart : Bytes → Option (Bytes × Bytes)
  | 48 :: s => some ([48], s)
  | c :: s => if isDigit c then some (c :: s.takeWhile isDigit, s.dropWhile isDigit) else none
  | [] => none

/-- One digit at least. -/
def digits (s : Bytes) : Option (Bytes × Bytes) :=
  if s.takeWhile isDigit = [] then none else some (s.takeWhile isDigit, s.dropWhile isDigit)

/-- The digits of a fraction. -/
def fraction : Bytes → Option (Bytes × Bytes)
  | 46 :: s => digits s
  | s => some ([], s)

/-- The value of an exponent. -/
def exponent : Bytes → Option (ℤ × Bytes)
  | c :: s =>
    if c = 101 ∨ c = 69 then
      (digits (scanSign s).2).map fun r => (if (scanSign s).1 then -digitsValue r.1 else digitsValue r.1, r.2)
    else some (0, c :: s)
  | [] => some (0, [])

/-- A number behind its sign. -/
def unsigned (s : Bytes) : Option (ℕ × ℤ × Bytes) := do
  let (int, s) ← intPart s
  let (frac, s) ← fraction s
  let (exp, s) ← exponent s
  return (digitsValue (int ++ frac), exp - frac.length, s)

def number : Bytes → Option (Value × Bytes)
  | 45 :: s => (unsigned s).map fun r => (.number (-r.1) r.2.1, r.2.2)
  | s => (unsigned s).map fun r => (.number r.1 r.2.1, r.2.2)

/-! ### Strings -/

def hexValue (c : UInt8) : Option ℕ :=
  if 48 ≤ c ∧ c ≤ 57 then some (c.toNat - 48)
  else if 65 ≤ c ∧ c ≤ 70 then some (c.toNat - 55)
  else if 97 ≤ c ∧ c ≤ 102 then some (c.toNat - 87)
  else none

/-- Four hexadecimal digits. -/
def hex4 : Bytes → Option (ℕ × Bytes)
  | a :: b :: c :: d :: s => do
    return (((← hexValue a) * 16 + (← hexValue b)) * 256 + ((← hexValue c) * 16 + (← hexValue d)), s)
  | _ => none

/-- The octets of a character. -/
def utf8 (n : ℕ) : Bytes :=
  if n < 0x80 then [n.toUInt8]
  else if n < 0x800 then [(0xC0 + n / 64).toUInt8, (0x80 + n % 64).toUInt8]
  else if n < 0x10000 then [(0xE0 + n / 4096).toUInt8, (0x80 + n / 64 % 64).toUInt8, (0x80 + n % 64).toUInt8]
  else [(0xF0 + n / 262144 % 8).toUInt8, (0x80 + n / 4096 % 64).toUInt8, (0x80 + n / 64 % 64).toUInt8,
    (0x80 + n % 64).toUInt8]

/-- The second half of a surrogate pair. -/
def lowSurrogate : Bytes → Option (ℕ × Bytes)
  | 92 :: 117 :: s => (hex4 s).bind fun r => if 0xDC00 ≤ r.1 ∧ r.1 < 0xE000 then some (r.1 - 0xDC00, r.2) else none
  | _ => none

/-- The character behind `\u`; half a surrogate pair is none. -/
def unicode (s : Bytes) : Option (Bytes × Bytes) := do
  let (n, s) ← hex4 s
  if 0xD800 ≤ n ∧ n < 0xDC00 then
    let (low, s) ← lowSurrogate s
    return (utf8 (0x10000 + (n - 0xD800) * 1024 + low), s)
  else if 0xDC00 ≤ n ∧ n < 0xE000 then none
  else return (utf8 n, s)

/-- The character a letter behind `\` stands for. -/
def shortEscape (c : UInt8) : Option UInt8 :=
  if c = 34 ∨ c = 92 ∨ c = 47 then some c
  else if c = 98 then some 8
  else if c = 102 then some 12
  else if c = 110 then some 10
  else if c = 114 then some 13
  else if c = 116 then some 9
  else none

/-- A character that stands for itself in a string. -/
def isPlain (c : UInt8) : Bool := 32 ≤ c && c != 34 && c != 92

/-- One character of a string, decoded. -/
def character : Bytes → Option (Bytes × Bytes)
  | 92 :: 117 :: s => unicode s
  | 92 :: c :: s => (shortEscape c).map fun d => ([d], s)
  | c :: s => if isPlain c then some ([c], s) else none
  | [] => none

/-- The characters of a string up to its closing quote. -/
def characters : ℕ → Bytes → Option (Bytes × Bytes)
  | _, 34 :: s => some ([], s)
  | 0, _ => none
  | n + 1, s => do
    let (c, s) ← character s
    let (cs, s) ← characters n s
    return (c ++ cs, s)

/-! ### Values -/

mutual

def readValue : ℕ → Bytes → Option (Value × Bytes)
  | 0, _ => none
  | n + 1, s =>
    match skipBlanks s with
    | 34 :: s => (characters s.length s).map fun r => (.string r.1, r.2)
    | 91 :: s => ((expect [93] (skipBlanks s)).map fun s => (.array [], s)) <|>
        (readItems n s).map fun r => (.array r.1, r.2)
    | 123 :: s => ((expect [125] (skipBlanks s)).map fun s => (.object [], s)) <|>
        (readMembers n s).map fun r => (.object r.1, r.2)
    | s => ((expect (ascii "null") s).map fun s => (.null, s)) <|>
        ((expect (ascii "true") s).map fun s => (.bool true, s)) <|>
        ((expect (ascii "false") s).map fun s => (.bool false, s)) <|> number s

/-- The items of an array up to its closing bracket. -/
def readItems : ℕ → Bytes → Option (List Value × Bytes)
  | 0, _ => none
  | n + 1, s => do
    let (v, s) ← readValue n s
    match skipBlanks s with
    | 93 :: s => return ([v], s)
    | 44 :: s => (readItems n s).map fun r => (v :: r.1, r.2)
    | _ => none

/-- The members of an object up to its closing brace. -/
def readMembers : ℕ → Bytes → Option (List (Bytes × Value) × Bytes)
  | 0, _ => none
  | n + 1, s => do
    let s ← expect [34] (skipBlanks s)
    let (key, s) ← characters s.length s
    let s ← expect [58] (skipBlanks s)
    let (v, s) ← readValue n s
    match skipBlanks s with
    | 125 :: s => return ([(key, v)], s)
    | 44 :: s => (readMembers n s).map fun r => ((key, v) :: r.1, r.2)
    | _ => none

end

/-- The value of a JSON text. -/
def parse (s : Bytes) : Option Value := do
  let (v, rest) ← readValue (2 * s.length + 2) s
  if skipBlanks rest = [] then some v else none

mutual

/-- All strings of a value, keys included. -/
def Value.strings : Value → List Bytes
  | .string s => [s]
  | .array vs => stringsOfItems vs
  | .object ms => stringsOfMembers ms
  | _ => []

def stringsOfItems : List Value → List Bytes
  | [] => []
  | v :: vs => v.strings ++ stringsOfItems vs

def stringsOfMembers : List (Bytes × Value) → List Bytes
  | [] => []
  | (key, v) :: ms => key :: (v.strings ++ stringsOfMembers ms)

end

/-! ### Suffixes -/

theorem skipBlanks_suffix (s : Bytes) : skipBlanks s <:+ s := List.dropWhile_suffix _

theorem expect_suffix {lit s rest : Bytes} (h : expect lit s = some rest) : rest <:+ s := by
  rw [expect, Option.ite_none_right_eq_some] at h
  obtain rfl := Option.some.inj h.2
  exact List.drop_suffix _ _

theorem digits_suffix {s ds rest : Bytes} (h : digits s = some (ds, rest)) : rest <:+ s := by
  rw [digits, Option.ite_none_left_eq_some] at h
  obtain ⟨-, rfl⟩ := Prod.mk.inj (Option.some.inj h.2)
  exact List.dropWhile_suffix _

theorem intPart_suffix {s ds rest : Bytes} (h : intPart s = some (ds, rest)) : rest <:+ s := by
  unfold intPart at h
  split at h
  · obtain ⟨-, rfl⟩ := Prod.mk.inj (Option.some.inj h)
    exact List.suffix_cons _ _
  · rw [Option.ite_none_right_eq_some] at h
    obtain ⟨-, rfl⟩ := Prod.mk.inj (Option.some.inj h.2)
    exact (List.dropWhile_suffix _).trans (List.suffix_cons _ _)
  · cases h

theorem fraction_suffix {s ds rest : Bytes} (h : fraction s = some (ds, rest)) : rest <:+ s := by
  unfold fraction at h
  split at h
  · exact (digits_suffix h).trans (List.suffix_cons _ _)
  · obtain ⟨-, rfl⟩ := Prod.mk.inj (Option.some.inj h)
    exact List.suffix_rfl

theorem exponent_suffix {s rest : Bytes} {e : ℤ} (h : exponent s = some (e, rest)) : rest <:+ s := by
  unfold exponent at h
  split at h
  · split at h
    · obtain ⟨r, hr, heq⟩ := Option.map_eq_some_iff.mp h
      obtain ⟨-, rfl⟩ := Prod.mk.inj heq
      exact (digits_suffix hr).trans ((scanSign_suffix _).trans (List.suffix_cons _ _))
    · obtain ⟨-, rfl⟩ := Prod.mk.inj (Option.some.inj h)
      exact List.suffix_rfl
  · obtain ⟨-, rfl⟩ := Prod.mk.inj (Option.some.inj h)
    exact List.suffix_rfl

theorem unsigned_suffix {s rest : Bytes} {m : ℕ} {e : ℤ} (h : unsigned s = some (m, e, rest)) : rest <:+ s := by
  simp only [unsigned, Option.bind_eq_bind, Option.bind_eq_some_iff, Option.pure_def, Option.some.injEq,
    Prod.mk.injEq, Prod.exists] at h
  obtain ⟨int, s₁, h₁, frac, s₂, h₂, e', s₃, h₃, -, -, rfl⟩ := h
  exact (exponent_suffix h₃).trans ((fraction_suffix h₂).trans (intPart_suffix h₁))

/-- A number contains no string. -/
theorem number_suffix {s rest : Bytes} {v : Value} (h : number s = some (v, rest)) :
    rest <:+ s ∧ v.strings = [] := by
  unfold number at h
  split at h
  all_goals
    obtain ⟨⟨m, e, s'⟩, hr, heq⟩ := Option.map_eq_some_iff.mp h
    obtain ⟨rfl, rfl⟩ := Prod.mk.inj heq
  · exact ⟨(unsigned_suffix hr).trans (List.suffix_cons _ _), rfl⟩
  · exact ⟨unsigned_suffix hr, rfl⟩

/-! ### What an escape costs -/

/-- The marks of escapes: `\` and `u`. -/
def isMark (c : UInt8) : Bool := c == 92 || c == 117

/-- The number of marks. -/
def load (s : Bytes) : ℕ := s.countP isMark

/-- All characters of the string stand for themselves. -/
def Plain (s : Bytes) : Prop := ∀ c ∈ s, isPlain c = true

instance (s : Bytes) : Decidable (Plain s) := inferInstanceAs (Decidable (∀ _ ∈ _, _))

/-- Reading some strings from the front of a text: no mark is made up, and if none is lost, none of the strings had
to be escaped. -/
structure Fair (s : Bytes) (out : List Bytes) (rest : Bytes) : Prop where
  le : load out.flatten + load rest ≤ load s
  plain : load s ≤ load out.flatten + load rest → ∀ t ∈ out, Plain t

@[simp] theorem load_append (a b : Bytes) : load (a ++ b) = load a + load b := List.countP_append

theorem load_cons (c : UInt8) (s : Bytes) : load (c :: s) = load s + if isMark c then 1 else 0 := List.countP_cons

@[simp] theorem load_backslash (s : Bytes) : load (92 :: s) = load s + 1 := load_cons 92 s

@[simp] theorem load_u (s : Bytes) : load (117 :: s) = load s + 1 := load_cons 117 s

theorem load_le_of_suffix {rest s : Bytes} (h : rest <:+ s) : load rest ≤ load s := h.sublist.countP_le

theorem Fair.of_suffix {s rest : Bytes} (h : rest <:+ s) : Fair s [] rest := by
  refine ⟨?_, fun _ _ ht => absurd ht List.not_mem_nil⟩
  rw [List.flatten_nil, show load [] = 0 from rfl, Nat.zero_add]
  exact load_le_of_suffix h

/-- Reading on. -/
theorem Fair.append {s mid rest : Bytes} {out out' : List Bytes} (h : Fair s out mid) (h' : Fair mid out' rest) :
    Fair s (out ++ out') rest := by
  have hle := h.le
  have hle' := h'.le
  refine ⟨?_, fun heq t ht => ?_⟩
  · rw [List.flatten_append, load_append]
    omega
  · rw [List.flatten_append, load_append] at heq
    rcases List.mem_append.mp ht with ht | ht
    · exact h.plain (by omega) t ht
    · exact h'.plain (by omega) t ht

/-- Two pieces of one string. -/
theorem Fair.join {s rest a b : Bytes} (h : Fair s [a, b] rest) : Fair s [a ++ b] rest := by
  have hflat : [a ++ b].flatten = [a, b].flatten := by simp
  refine ⟨by rw [hflat]; exact h.le, fun heq t ht c hc => ?_⟩
  rw [hflat] at heq
  rw [List.mem_singleton.mp ht] at hc
  rcases List.mem_append.mp hc with hc | hc
  · exact h.plain heq a (by simp) c hc
  · exact h.plain heq b (by simp) c hc

/-- A mark lost. -/
theorem Fair.of_lt {s rest : Bytes} {out : List Bytes} (h : load out.flatten + load rest < load s) :
    Fair s out rest :=
  ⟨h.le, fun hge => absurd hge (not_le.mpr h)⟩

theorem isMark_toUInt8 {n : ℕ} (hlo : 128 ≤ n) (hhi : n < 256) : isMark n.toUInt8 = false := by
  have hnat : n.toUInt8.toNat = n := Nat.mod_eq_of_lt hhi
  have hne : ∀ c : UInt8, c.toNat < 128 → n.toUInt8 ≠ c := by
    rintro c hc rfl
    omega
  simp [isMark, hne 92 (by decide), hne 117 (by decide)]

/-- No character has two marks in its octets. -/
theorem load_utf8 (n : ℕ) : load (utf8 n) ≤ 1 := by
  have htail : ∀ k, isMark (0x80 + k % 64).toUInt8 = false := fun k => isMark_toUInt8 (by omega) (by omega)
  unfold utf8
  split
  · rw [load_cons]
    split <;> simp [load]
  split
  · have hhead : isMark (0xC0 + n / 64).toUInt8 = false := isMark_toUInt8 (by omega) (by omega)
    simp only [load_cons, hhead, htail, Bool.false_eq_true, if_false]
    exact Nat.zero_le 1
  split
  · have hhead : isMark (0xE0 + n / 4096).toUInt8 = false := isMark_toUInt8 (by omega) (by omega)
    simp only [load_cons, hhead, htail, Bool.false_eq_true, if_false]
    exact Nat.zero_le 1
  · have hhead : isMark (0xF0 + n / 262144 % 8).toUInt8 = false := isMark_toUInt8 (by omega) (by omega)
    simp only [load_cons, hhead, htail, Bool.false_eq_true, if_false]
    exact Nat.zero_le 1

theorem hex4_suffix {s rest : Bytes} {n : ℕ} (h : hex4 s = some (n, rest)) : rest <:+ s := by
  unfold hex4 at h
  split at h
  · rename_i a b c d s
    simp only [Option.bind_eq_bind, Option.bind_eq_some_iff, Option.pure_def, Option.some.injEq,
      Prod.mk.injEq] at h
    obtain ⟨-, -, -, -, -, -, -, -, -, rfl⟩ := h
    exact ⟨[a, b, c, d], rfl⟩
  · cases h

theorem lowSurrogate_suffix {s rest : Bytes} {n : ℕ} (h : lowSurrogate s = some (n, rest)) : rest <:+ s := by
  unfold lowSurrogate at h
  split at h
  · rename_i s
    obtain ⟨r, hr, hif⟩ := Option.bind_eq_some_iff.mp h
    rw [Option.ite_none_right_eq_some] at hif
    obtain ⟨-, rfl⟩ := Prod.mk.inj (Option.some.inj hif.2)
    exact (hex4_suffix hr).trans ⟨[92, 117], rfl⟩
  · cases h

/-- The octets behind `\u` have one mark at most. -/
theorem unicode_load {s c rest : Bytes} (h : unicode s = some (c, rest)) : load c ≤ 1 ∧ rest <:+ s := by
  unfold unicode at h
  simp only [Option.bind_eq_bind, Option.bind_eq_some_iff, Option.pure_def, Prod.exists] at h
  obtain ⟨n, s₁, hhex, h⟩ := h
  split at h
  · simp only [Option.bind_eq_some_iff, Option.some.injEq, Prod.mk.injEq, Prod.exists] at h
    obtain ⟨low, s₂, hlow, rfl, rfl⟩ := h
    exact ⟨load_utf8 _, (lowSurrogate_suffix hlow).trans (hex4_suffix hhex)⟩
  split at h
  · cases h
  · obtain ⟨rfl, rfl⟩ := Prod.mk.inj (Option.some.inj h)
    exact ⟨load_utf8 _, hex4_suffix hhex⟩

/-- A letter behind `\` loses the mark in front of it. -/
theorem shortEscape_load {c d : UInt8} (h : shortEscape c = some d) : load [d] ≤ load [c] := by
  unfold shortEscape at h
  split_ifs at h
  all_goals obtain rfl := Option.some.inj h
  · exact le_rfl
  all_goals exact Nat.zero_le _

/-- **One character**: an escape loses a mark at least. -/
theorem character_fair {s c rest : Bytes} (h : character s = some (c, rest)) : Fair s [c] rest := by
  have hflat : [c].flatten = c := by simp
  unfold character at h
  split at h
  · rename_i s
    obtain ⟨hc, hrest⟩ := unicode_load h
    have hle := load_le_of_suffix hrest
    refine .of_lt ?_
    rw [hflat, load_backslash, load_u]
    omega
  · rename_i b s _
    obtain ⟨d, hd, heq⟩ := Option.map_eq_some_iff.mp h
    obtain ⟨rfl, rfl⟩ := Prod.mk.inj heq
    have hle := shortEscape_load hd
    refine .of_lt ?_
    rw [hflat, load_backslash, show load (b :: s) = load [b] + load s from load_append [b] s]
    omega
  · rename_i b s _ _
    rw [Option.ite_none_right_eq_some] at h
    obtain ⟨hplain, h⟩ := h
    obtain ⟨rfl, rfl⟩ := Prod.mk.inj (Option.some.inj h)
    refine ⟨?_, fun _ t ht => ?_⟩
    · rw [hflat, ← load_append]
      exact le_rfl
    · rw [List.mem_singleton.mp ht]
      exact fun x hx => by rwa [List.mem_singleton.mp hx]
  · cases h

/-- A string up to its closing quote. -/
theorem characters_fair {n : ℕ} {s t rest : Bytes} (h : characters n s = some (t, rest)) : Fair s [t] rest := by
  have hclose : ∀ s : Bytes, Fair (34 :: s) [[]] s := fun s =>
    ⟨(Nat.zero_add _).trans_le (load_le_of_suffix (List.suffix_cons _ _)),
      fun _ t ht => by simp [List.mem_singleton.mp ht, Plain]⟩
  fun_induction characters n s generalizing t rest with
  | case1 n s =>
    obtain ⟨rfl, rfl⟩ := Prod.mk.inj (Option.some.inj h)
    exact hclose s
  | case2 s hs => cases h
  | case3 n s hs ih =>
    simp only [Option.bind_eq_bind, Option.bind_eq_some_iff, Option.pure_def, Option.some.injEq, Prod.mk.injEq,
      Prod.exists] at h
    obtain ⟨c, s₁, hc, cs, s₂, hcs, rfl, rfl⟩ := h
    exact ((character_fair hc).append (ih s₁ hcs)).join

/-! ### Values -/

/-- What a reader of values does to the marks. -/
def ReadsFairly (n : ℕ) : Prop :=
  (∀ s v rest, readValue n s = some (v, rest) → Fair s v.strings rest) ∧
    (∀ s vs rest, readItems n s = some (vs, rest) → Fair s (stringsOfItems vs) rest) ∧
      ∀ s ms rest, readMembers n s = some (ms, rest) → Fair s (stringsOfMembers ms) rest

theorem readsFairly_zero : ReadsFairly 0 := by
  refine ⟨?_, ?_, ?_⟩
  all_goals rintro s v rest h
  · cases readValue.eq_1 s ▸ h
  · cases readItems.eq_1 s ▸ h
  · cases readMembers.eq_1 s ▸ h

theorem Fair.nil_append {s mid rest : Bytes} {out : List Bytes} (h : mid <:+ s) (h' : Fair mid out rest) :
    Fair s out rest := (Fair.of_suffix h).append h'

theorem expect_fair {lit s s' rest : Bytes} {v w : Value} (hw : w.strings = []) (hs : s' <:+ s)
    (h : (expect lit s').map (fun s => (w, s)) = some (v, rest)) : Fair s v.strings rest := by
  obtain ⟨r, hr, heq⟩ := Option.map_eq_some_iff.mp h
  obtain ⟨rfl, rfl⟩ := Prod.mk.inj heq
  rw [hw]
  exact .of_suffix ((expect_suffix hr).trans hs)

/-- What stands between brackets, or nothing. -/
theorem bracket_fair {β : Type} {lit s rest : Bytes} {v empty : Value} {items : Option (β × Bytes)} {f : β → Value}
    (hempty : empty.strings = []) (hitems : ∀ b r, items = some (b, r) → Fair s (f b).strings r)
    (h : ((expect lit (skipBlanks s)).map fun s => (empty, s)).or (items.map fun r => (f r.1, r.2)) = some (v, rest)) :
    Fair s v.strings rest := by
  rcases Option.or_eq_some_iff.mp h with h | ⟨-, h⟩
  · exact expect_fair hempty (skipBlanks_suffix s) h
  · obtain ⟨⟨b, r⟩, hr, heq⟩ := Option.map_eq_some_iff.mp h
    obtain ⟨rfl, rfl⟩ := Prod.mk.inj heq
    exact hitems b r hr

theorem readValue_fair {n : ℕ} (ih : ReadsFairly n) {s rest : Bytes} {v : Value}
    (h : readValue (n + 1) s = some (v, rest)) : Fair s v.strings rest := by
  have hblanks := skipBlanks_suffix s
  simp only [readValue, Option.orElse_eq_orElse, Option.orElse_eq_or] at h
  split at h
  · rename_i s' hs
    obtain ⟨⟨t, r⟩, ht, heq⟩ := Option.map_eq_some_iff.mp h
    obtain ⟨rfl, rfl⟩ := Prod.mk.inj heq
    rw [hs] at hblanks
    exact .nil_append ((List.suffix_cons _ _).trans hblanks) (characters_fair ht)
  · rename_i s' hs
    rw [hs] at hblanks
    have hitems : ∀ vs r, readItems n s' = some (vs, r) → Fair s' (Value.array vs).strings r := ih.2.1 s'
    exact .nil_append ((List.suffix_cons _ _).trans hblanks)
      (bracket_fair (by simp [Value.strings, stringsOfItems]) hitems h)
  · rename_i s' hs
    rw [hs] at hblanks
    have hmembers : ∀ ms r, readMembers n s' = some (ms, r) → Fair s' (Value.object ms).strings r := ih.2.2 s'
    exact .nil_append ((List.suffix_cons _ _).trans hblanks)
      (bracket_fair (by simp [Value.strings, stringsOfMembers]) hmembers h)
  · simp only [Option.or_eq_some_iff] at h
    rcases h with h | ⟨-, h | ⟨-, h | ⟨-, h⟩⟩⟩
    · exact expect_fair (by simp [Value.strings]) hblanks h
    · exact expect_fair (by simp [Value.strings]) hblanks h
    · exact expect_fair (by simp [Value.strings]) hblanks h
    · obtain ⟨hrest, hv⟩ := number_suffix h
      rw [hv]
      exact .of_suffix (hrest.trans hblanks)

theorem readItems_fair {n : ℕ} (ih : ReadsFairly n) {s rest : Bytes} {vs : List Value}
    (h : readItems (n + 1) s = some (vs, rest)) : Fair s (stringsOfItems vs) rest := by
  simp only [readItems, Option.bind_eq_bind, Option.bind_eq_some_iff, Prod.exists] at h
  obtain ⟨v, s₁, hv, h⟩ := h
  have hfirst := ih.1 _ _ _ hv
  have hblanks := skipBlanks_suffix s₁
  split at h
  · rename_i s₂ hs
    obtain ⟨rfl, rfl⟩ := Prod.mk.inj (Option.some.inj h)
    rw [hs] at hblanks
    exact hfirst.append (.of_suffix ((List.suffix_cons _ _).trans hblanks))
  · rename_i s₂ hs
    obtain ⟨⟨vs', r⟩, hr, heq⟩ := Option.map_eq_some_iff.mp h
    obtain ⟨rfl, rfl⟩ := Prod.mk.inj heq
    rw [hs] at hblanks
    exact hfirst.append (.nil_append ((List.suffix_cons _ _).trans hblanks) (ih.2.1 _ _ _ hr))
  · cases h

theorem readMembers_fair {n : ℕ} (ih : ReadsFairly n) {s rest : Bytes} {ms : List (Bytes × Value)}
    (h : readMembers (n + 1) s = some (ms, rest)) : Fair s (stringsOfMembers ms) rest := by
  simp only [readMembers, Option.bind_eq_bind, Option.bind_eq_some_iff, Prod.exists] at h
  obtain ⟨s₁, hquote, key, s₂, hkey, s₃, hcolon, v, s₄, hv, h⟩ := h
  have hname := (characters_fair hkey).nil_append ((expect_suffix hquote).trans (skipBlanks_suffix s))
  have hvalue := (ih.1 _ _ _ hv).nil_append ((expect_suffix hcolon).trans (skipBlanks_suffix s₂))
  have hfirst := hname.append hvalue
  have hblanks := skipBlanks_suffix s₄
  split at h
  · rename_i s₅ hs
    obtain ⟨rfl, rfl⟩ := Prod.mk.inj (Option.some.inj h)
    rw [hs] at hblanks
    simpa [stringsOfMembers] using hfirst.append (.of_suffix ((List.suffix_cons _ _).trans hblanks))
  · rename_i s₅ hs
    obtain ⟨⟨ms', r⟩, hr, heq⟩ := Option.map_eq_some_iff.mp h
    obtain ⟨rfl, rfl⟩ := Prod.mk.inj heq
    rw [hs] at hblanks
    simpa [stringsOfMembers] using
      hfirst.append (.nil_append ((List.suffix_cons _ _).trans hblanks) (ih.2.2 _ _ _ hr))
  · cases h

theorem readsFairly (n : ℕ) : ReadsFairly n := by
  induction n with
  | zero => exact readsFairly_zero
  | succ n ih =>
    exact ⟨fun _ _ _ => readValue_fair ih, fun _ _ _ => readItems_fair ih, fun _ _ _ => readMembers_fair ih⟩

/-- **The marks of a text**: its value has no more of them, and if as many, nothing was escaped. -/
theorem parse_fair {s : Bytes} {v : Value} (h : parse s = some v) : Fair s v.strings [] := by
  simp only [parse, Option.bind_eq_bind, Option.bind_eq_some_iff, Prod.exists] at h
  obtain ⟨w, rest, hread, h⟩ := h
  rw [Option.ite_none_right_eq_some] at h
  obtain rfl := Option.some.inj h.2
  simpa using ((readsFairly _).1 _ _ _ hread).append (.of_suffix (List.nil_suffix))

/-! ### A flat object as printed -/

/-- A value that is printed without a look at what is in it. -/
inductive Field
  | text (s : Bytes)
  | int (n : ℤ)

def Field.render : Field → Bytes
  | .text s => 34 :: (s ++ [34])
  | .int n => printInt n

def Field.json : Field → Value
  | .text s => .string s
  | .int n => .number n 0

def memberJson (m : Bytes × Field) : Bytes × Value := (m.1, m.2.json)

def renderMember (m : Bytes × Field) : Bytes := 34 :: (m.1 ++ 34 :: 58 :: m.2.render)

/-- The members behind the opening brace. -/
def renderMembers : Bytes × Field → List (Bytes × Field) → Bytes
  | m, [] => renderMember m ++ [125]
  | m, m' :: ms => renderMember m ++ 44 :: renderMembers m' ms

def renderObject (m : Bytes × Field) (ms : List (Bytes × Field)) : Bytes := 123 :: renderMembers m ms

/-! ### Printed numbers -/

/-- Where a number ends. -/
def inNumber (c : UInt8) : Bool := isDigit c || c == 46 || c == 101 || c == 69

theorem stopsAt_digit_of_inNumber {rest : Bytes} (hr : StopsAt inNumber rest) : StopsAt isDigit rest := by
  cases rest with
  | nil => trivial
  | cons c rest => simp_all [StopsAt, inNumber]

/-- No leading zero is printed. -/
theorem decimal_zero_head {n : ℕ} {cs : Bytes} (h : decimal n = 48 :: cs) : cs = [] := by
  by_contra hne
  have hdigits : ∀ d ∈ cs, isDigit d = true := fun d hd =>
    isDigit_of_mem_decimal (n := n) (h ▸ List.mem_cons_of_mem _ hd)
  have hn : n = digitsValue cs := by
    rw [← digitsValue_decimal n, h]
    rfl
  have hlen := length_decimal_le (List.length_pos_iff.mpr hne) (hn ▸ digitsValue_lt hdigits)
  rw [h, List.length_cons] at hlen
  omega

theorem intPart_decimal (n : ℕ) {rest : Bytes} (hr : StopsAt isDigit rest) :
    intPart (decimal n ++ rest) = some (decimal n, rest) := by
  obtain ⟨htake, hdrop⟩ := digits_decimal n hr
  obtain ⟨c, cs, hd, hc⟩ := decimal_cons n
  rw [hd, List.cons_append, List.takeWhile_cons_of_pos hc] at htake
  rw [hd, List.cons_append, List.dropWhile_cons_of_pos hc] at hdrop
  rw [hd, List.cons_append]
  unfold intPart
  split
  · rename_i s heq
    obtain ⟨rfl, rfl⟩ := List.cons.inj heq
    obtain rfl := decimal_zero_head hd
    rfl
  · rename_i c' s _ heq
    obtain ⟨rfl, rfl⟩ := List.cons.inj heq
    rw [if_pos hc, htake, hdrop]
  · rename_i heq
    cases heq

theorem fraction_none {rest : Bytes} (hr : StopsAt inNumber rest) : fraction rest = some ([], rest) := by
  unfold fraction
  split
  · cases hr
  · rfl

theorem exponent_none {rest : Bytes} (hr : StopsAt inNumber rest) : exponent rest = some (0, rest) := by
  cases rest with
  | nil => rfl
  | cons c rest =>
    simp only [StopsAt, inNumber, Bool.or_eq_false_iff, beq_eq_false_iff_ne] at hr
    rw [exponent, if_neg (by tauto)]

theorem unsigned_decimal (n : ℕ) {rest : Bytes} (hr : StopsAt inNumber rest) :
    unsigned (decimal n ++ rest) = some (n, 0, rest) := by
  simp [unsigned, intPart_decimal n (stopsAt_digit_of_inNumber hr), fraction_none hr, exponent_none hr,
    digitsValue_decimal]

/-- A number as printed is read back. -/
theorem number_printInt (n : ℤ) {rest : Bytes} (hr : StopsAt inNumber rest) :
    number (printInt n ++ rest) = some (.number n 0, rest) := by
  by_cases hneg : n < 0
  · rw [printInt, if_pos hneg, List.cons_append, number, unsigned_decimal _ hr, Option.map_some,
      show -((n.natAbs : ℕ) : ℤ) = n by omega]
  · obtain ⟨c, cs, hd, hc⟩ := decimal_cons n.natAbs
    have h45 : c ≠ 45 := (isDigit_facts hc).2.1
    rw [printInt, if_neg hneg]
    unfold number
    split
    · rename_i s heq
      rw [hd, List.cons_append] at heq
      exact absurd (List.cons.inj heq).1 h45
    · rw [unsigned_decimal _ hr, Option.map_some, show ((n.natAbs : ℕ) : ℤ) = n by omega]

/-! ### Reading what was printed -/

theorem character_plain {c : UInt8} (hc : isPlain c = true) (s : Bytes) : character (c :: s) = some ([c], s) := by
  have h92 : c ≠ 92 := by
    rintro rfl
    exact absurd hc (by decide)
  unfold character
  split
  · rename_i heq
    exact absurd (List.cons.inj heq).1 h92
  · rename_i heq
    exact absurd (List.cons.inj heq).1 h92
  · rename_i heq
    obtain ⟨rfl, rfl⟩ := List.cons.inj heq
    rw [if_pos hc]
  · rename_i heq
    cases heq

/-- A string of plain characters is read back. -/
theorem characters_plain {t : Bytes} (ht : Plain t) {n : ℕ} (hn : t.length ≤ n) (s : Bytes) :
    characters n (t ++ 34 :: s) = some (t, s) := by
  induction t generalizing n with
  | nil => cases n <;> rfl
  | cons c t ih =>
    have hc : isPlain c = true := ht c List.mem_cons_self
    have h34 : c ≠ 34 := by
      rintro rfl
      exact absurd hc (by decide)
    cases n with
    | zero => cases hn
    | succ n =>
      have hrest := ih (fun d hd => ht d (List.mem_cons_of_mem _ hd)) (Nat.le_of_succ_le_succ hn)
      rw [List.cons_append, characters.eq_3 _ _ (by rintro s' heq; exact h34 (List.cons.inj heq).1)]
      simp [character_plain hc, hrest]

theorem skipBlanks_of_stop {c : UInt8} (hc : isBlank c = false) (s : Bytes) : skipBlanks (c :: s) = c :: s :=
  List.dropWhile_cons_of_neg (by simp [hc])

/-- A value that starts with a digit or a minus sign is a number. -/
theorem readValue_number {n : ℕ} {c : UInt8} (hc : 45 ≤ c.toNat ∧ c.toNat ≤ 57) (s : Bytes) :
    readValue (n + 1) (c :: s) = number (c :: s) := by
  have hne : ∀ d : UInt8, d.toNat < 45 ∨ 57 < d.toNat → c ≠ d := by
    rintro d hd rfl
    omega
  have hblank : isBlank c = false := by
    simp [isBlank, hne 32 (by decide), hne 9 (by decide), hne 10 (by decide), hne 13 (by decide)]
  have hliteral : ∀ d lit, d.toNat < 45 ∨ 57 < d.toNat → expect (d :: lit) (c :: s) = none := fun d lit hd => by
    simp [expect, startsWith, List.isPrefixOf, (hne d hd).symm]
  rw [readValue, skipBlanks_of_stop hblank]
  split
  · rename_i heq
    exact absurd (List.cons.inj heq).1 (hne 34 (by decide))
  · rename_i heq
    exact absurd (List.cons.inj heq).1 (hne 91 (by decide))
  · rename_i heq
    exact absurd (List.cons.inj heq).1 (hne 123 (by decide))
  · rw [show ascii "null" = 110 :: ascii "ull" from rfl, show ascii "true" = 116 :: ascii "rue" from rfl,
      show ascii "false" = 102 :: ascii "alse" from rfl, hliteral 110 _ (by decide), hliteral 116 _ (by decide),
      hliteral 102 _ (by decide)]
    rfl

/-- A field is read back where no character of it would have to be escaped. -/
theorem readValue_render {f : Field} (hf : ∀ t ∈ f.json.strings, Plain t) (n : ℕ) {s : Bytes}
    (hs : StopsAt inNumber s) : readValue (n + 1) (f.render ++ s) = some (f.json, s) := by
  cases f with
  | text t =>
    have ht : Plain t := hf t List.mem_cons_self
    have hread : characters (t ++ 34 :: s).length (t ++ 34 :: s) = some (t, s) :=
      characters_plain ht (by simp) s
    simp only [Field.render, Field.json, List.cons_append, List.append_assoc, List.nil_append]
    rw [readValue, skipBlanks_of_stop (by decide)]
    simp only [hread, Option.map_some]
  | int k =>
    obtain ⟨c, cs, hhead⟩ := List.exists_cons_of_ne_nil (printInt_ne_nil k)
    have hc := range_of_mem_printInt (n := k) (c := c) (by simp [hhead])
    have hnumber := number_printInt k hs
    simp only [Field.render, Field.json]
    rw [hhead, List.cons_append] at hnumber ⊢
    rw [readValue_number hc, hnumber]

/-- All strings of the members are plain. -/
def PlainMembers (ms : List (Bytes × Field)) : Prop := ∀ t ∈ stringsOfMembers (ms.map memberJson), Plain t

theorem plainMembers_cons {m : Bytes × Field} {ms : List (Bytes × Field)} (h : PlainMembers (m :: ms)) :
    Plain m.1 ∧ (∀ t ∈ m.2.json.strings, Plain t) ∧ PlainMembers ms := by
  simp only [PlainMembers, List.map_cons, memberJson, stringsOfMembers, List.mem_cons, List.mem_append] at h
  exact ⟨h _ (.inl rfl), fun t ht => h t (.inr (.inl ht)), fun t ht => h t (.inr (.inr ht))⟩

/-- One member, and what is behind it. -/
theorem readMembers_renderMember {m : Bytes × Field} (hkey : Plain m.1) (hvalue : ∀ t ∈ m.2.json.strings, Plain t)
    (n : ℕ) (s : Bytes) :
    readMembers (n + 2) (renderMember m ++ 125 :: s) = some ([memberJson m], s) ∧
      readMembers (n + 2) (renderMember m ++ 44 :: s) =
        (readMembers (n + 1) s).map fun r => (memberJson m :: r.1, r.2) := by
  have hmember : ∀ t, renderMember m ++ t = 34 :: (m.1 ++ 34 :: 58 :: (m.2.render ++ t)) := fun t => by
    simp [renderMember]
  have hquote : ∀ t, expect [34] (34 :: t) = some t := fun t => by simp [expect, startsWith]
  have hcolon : ∀ t, expect [58] (58 :: t) = some t := fun t => by simp [expect, startsWith]
  have hname : ∀ t, characters (m.1 ++ 34 :: t).length (m.1 ++ 34 :: t) = some (m.1, t) := fun t =>
    characters_plain hkey (by simp) t
  constructor
  · rw [hmember, readMembers, skipBlanks_of_stop (by decide), hquote]
    simp only [Option.bind_eq_bind, Option.bind_some, hname, skipBlanks_of_stop (c := 58) (by decide), hcolon,
      readValue_render hvalue n (s := 125 :: s) (show inNumber 125 = false by decide),
      skipBlanks_of_stop (c := 125) (by decide)]
    rfl
  · rw [hmember, readMembers, skipBlanks_of_stop (by decide), hquote]
    simp only [Option.bind_eq_bind, Option.bind_some, hname, skipBlanks_of_stop (c := 58) (by decide), hcolon,
      readValue_render hvalue n (s := 44 :: s) (show inNumber 44 = false by decide),
      skipBlanks_of_stop (c := 44) (by decide)]
    rfl

theorem readMembers_render {m : Bytes × Field} {ms : List (Bytes × Field)} (h : PlainMembers (m :: ms)) {n : ℕ}
    (hn : ms.length + 2 ≤ n) (s : Bytes) :
    readMembers n (renderMembers m ms ++ s) = some ((m :: ms).map memberJson, s) := by
  induction ms generalizing m n with
  | nil =>
    obtain ⟨n, rfl⟩ : ∃ k, n = k + 2 := ⟨n - 2, by omega⟩
    obtain ⟨hkey, hvalue, -⟩ := plainMembers_cons h
    rw [renderMembers, List.append_assoc]
    exact (readMembers_renderMember hkey hvalue n s).1
  | cons m' ms ih =>
    rw [List.length_cons] at hn
    obtain ⟨n, rfl⟩ : ∃ k, n = k + 2 := ⟨n - 2, by omega⟩
    obtain ⟨hkey, hvalue, hrest⟩ := plainMembers_cons h
    rw [renderMembers, List.append_assoc, List.cons_append, (readMembers_renderMember hkey hvalue n _).2,
      ih hrest (by omega)]
    rfl

theorem length_renderMembers (m : Bytes × Field) (ms : List (Bytes × Field)) :
    ms.length + 1 ≤ (renderMembers m ms).length := by
  induction ms generalizing m with
  | nil => simp [renderMembers]
  | cons m' ms ih =>
    have hle := ih m'
    simp only [renderMembers, List.length_append, List.length_cons]
    omega

theorem parse_renderObject {m : Bytes × Field} {ms : List (Bytes × Field)} (h : PlainMembers (m :: ms)) :
    parse (renderObject m ms) = some (.object ((m :: ms).map memberJson)) := by
  have hlen := length_renderMembers m ms
  have hempty : expect [125] (skipBlanks (renderMembers m ms)) = none := by
    cases ms <;> simp [renderMembers, renderMember, skipBlanks, isBlank, expect, startsWith, List.isPrefixOf]
  have hmembers := readMembers_render h (n := 2 * (renderObject m ms).length + 1)
    (by rw [renderObject, List.length_cons]; omega) []
  rw [List.append_nil] at hmembers
  have hvalue : readValue (2 * (renderObject m ms).length + 2) (renderObject m ms) =
      some (.object ((m :: ms).map memberJson), []) := by
    rw [renderObject] at hmembers ⊢
    rw [readValue, skipBlanks_of_stop (by decide)]
    simp only [hempty, hmembers]
    rfl
  rw [parse, hvalue]
  rfl

/-! ### The marks of what was printed -/

theorem load_printInt (n : ℤ) : load (printInt n) = 0 := by
  refine List.countP_eq_zero.mpr fun c hc hmark => ?_
  have hhi := (range_of_mem_printInt hc).2
  simp only [isMark, Bool.or_eq_true, beq_iff_eq] at hmark
  rcases hmark with rfl | rfl
  · exact absurd hhi (by decide)
  · exact absurd hhi (by decide)

theorem load_renderMember (m : Bytes × Field) :
    load (renderMember m) = load m.1 + load m.2.json.strings.flatten := by
  have hquote : ∀ s, load (34 :: s) = load s := fun s => load_cons 34 s
  have hcolon : ∀ s, load (58 :: s) = load s := fun s => load_cons 58 s
  rcases m with ⟨k, f | f⟩
  · simp [renderMember, Field.render, Field.json, Value.strings, hquote, hcolon, show load [] = 0 from rfl]
  · simp [renderMember, Field.render, Field.json, Value.strings, hquote, hcolon, show load [] = 0 from rfl,
      load_printInt]

/-- Printing makes no marks. -/
theorem load_renderMembers (m : Bytes × Field) (ms : List (Bytes × Field)) :
    load (renderMembers m ms) = load (stringsOfMembers ((m :: ms).map memberJson)).flatten := by
  induction ms generalizing m with
  | nil =>
    simp [renderMembers, load_renderMember, stringsOfMembers, memberJson, show load [125] = 0 from rfl]
  | cons m' ms ih =>
    rw [renderMembers, load_append, load_renderMember, load_cons, ih m']
    simp [stringsOfMembers, memberJson, isMark, Nat.add_assoc]

theorem stringsOfMembers_eq (ms : List (Bytes × Value)) :
    stringsOfMembers ms = ms.flatMap fun m => m.1 :: m.2.strings := by
  induction ms with
  | nil => rw [stringsOfMembers, List.flatMap_nil]
  | cons m ms ih => rw [stringsOfMembers, ih, List.flatMap_cons, List.cons_append]

/-- **The round trip of a flat object**, in any order of its members: it succeeds exactly when no string of it would
have to be escaped. -/
theorem parse_renderObject_iff {m : Bytes × Field} {ms : List (Bytes × Field)} :
    (∃ js, parse (renderObject m ms) = some (.object js) ∧ js.Perm ((m :: ms).map memberJson)) ↔
      PlainMembers (m :: ms) := by
  constructor
  · rintro ⟨js, hparse, hperm⟩
    have hstrings : (stringsOfMembers js).Perm (stringsOfMembers ((m :: ms).map memberJson)) := by
      rw [stringsOfMembers_eq, stringsOfMembers_eq]
      exact hperm.flatMap_right _
    have hload : load (renderObject m ms) = load (stringsOfMembers js).flatten := by
      rw [renderObject, load_cons, load_renderMembers, load, load, hstrings.flatten.countP_eq]
      rfl
    exact fun t ht => (parse_fair hparse).plain (hload.trans_le (Nat.le_add_right _ _)) t
      (hstrings.mem_iff.mpr ht)
  · exact fun h => ⟨_, parse_renderObject h, .refl _⟩

end Pcom.Lib.Json
