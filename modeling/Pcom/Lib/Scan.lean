import Mathlib.Data.List.Basic
import Mathlib.Data.List.Induction
import Mathlib.Data.List.TakeWhile
import Mathlib.Tactic.Ring

/-!
# Byte strings, and the C text conversions that read and print them

A C string is a byte array read up to its first zero byte (`cString`).  `sscanf` is modelled for the
two conversions the programs use, `%s` and `%d`: it returns the values converted before the first
failure, so that what a caller's variables keep when a field is missing is visible to the model.

* `scanWord_append`, `scanInt_printInt` — **round trips**: a word, or a printed `int`, is read back
  from in front of any text that does not prolong it;
* `Token` — a non-empty word with a length bound, the invariant in the type.
-/

namespace Pcom.Lib.Scan

/-- A sequence of bytes. -/
abbrev Bytes := List UInt8

/-- What holds of all bytes of a string is decided along the string, not over all byte values. -/
instance (priority := high) decidableForallByte {p : UInt8 → Prop} [DecidablePred p] (b : Bytes) :
    Decidable (∀ c ∈ b, p c) := List.decidableBAll p b

/-- The bytes of an ASCII literal. -/
def ascii (s : String) : Bytes := s.toList.map fun c => c.toNat.toUInt8

/-- What a C string function sees of a byte array: everything before the first zero byte. -/
def cString (b : Bytes) : Bytes := b.takeWhile (· != 0)

/-- No zero byte, so that the byte array and the C string in it are the same. -/
def NoNul (b : Bytes) : Prop := ∀ c ∈ b, c ≠ 0

instance (b : Bytes) : Decidable (NoNul b) := inferInstanceAs (Decidable (∀ c ∈ b, c ≠ 0))

@[simp] theorem noNul_nil : NoNul [] := fun _ h => absurd h List.not_mem_nil

@[simp] theorem noNul_cons {c : UInt8} {b : Bytes} : NoNul (c :: b) ↔ c ≠ 0 ∧ NoNul b :=
  List.forall_mem_cons

@[simp] theorem noNul_append {a b : Bytes} : NoNul (a ++ b) ↔ NoNul a ∧ NoNul b :=
  List.forall_mem_append

theorem cString_eq_self {b : Bytes} (h : NoNul b) : cString b = b := by
  rw [cString, List.takeWhile_eq_self_iff]
  exact fun c hc => bne_iff_ne.mpr (h c hc)

theorem noNul_cString (b : Bytes) : NoNul (cString b) := fun c hc => by
  simpa using List.mem_takeWhile_imp hc

/-- `strncmp(s, lit, strlen(lit)) == 0`. -/
def startsWith (lit s : Bytes) : Bool := lit.isPrefixOf s

/-! ### Words: `%s` -/

/-- `isspace` in the "C" locale. -/
def isSpace (c : UInt8) : Bool := c == 32 || (9 ≤ c && c ≤ 13)

/-- The bytes a `%s` conversion collects. -/
def isWordByte (c : UInt8) : Bool := !isSpace c

/-- Skip the white space every conversion skips first. -/
def skipSpace (s : Bytes) : Bytes := s.dropWhile isSpace

/-- `%s`: the next maximal run of non-space bytes and the rest; fails at the end of the string. -/
def scanWord (s : Bytes) : Option (Bytes × Bytes) :=
  let t := skipSpace s
  if t = [] then none else some (t.takeWhile isWordByte, t.dropWhile isWordByte)

/-- The text does not go on with a byte of class `p`. -/
def StopsAt (p : UInt8 → Bool) : Bytes → Prop
  | [] => True
  | c :: _ => p c = false

theorem takeWhile_append_stop {p : UInt8 → Bool} {w rest : Bytes} (hw : ∀ c ∈ w, p c = true)
    (hr : StopsAt p rest) : (w ++ rest).takeWhile p = w := by
  rw [List.takeWhile_append_of_pos hw]
  cases rest with
  | nil => simp
  | cons c rest => simp only [StopsAt] at hr; simp [hr]

theorem dropWhile_append_stop {p : UInt8 → Bool} {w rest : Bytes} (hw : ∀ c ∈ w, p c = true)
    (hr : StopsAt p rest) : (w ++ rest).dropWhile p = rest := by
  rw [List.dropWhile_append_of_pos hw]
  cases rest with
  | nil => simp
  | cons c rest => simp only [StopsAt] at hr; simp [hr]

theorem skipSpace_of_stop {s : Bytes} (h : StopsAt isSpace s) : skipSpace s = s := by
  simpa [skipSpace] using dropWhile_append_stop (p := isSpace) (w := []) (by simp) h

@[simp] theorem skipSpace_space (s : Bytes) : skipSpace (32 :: s) = skipSpace s := by
  simp [skipSpace, isSpace]

@[simp] theorem scanWord_space (s : Bytes) : scanWord (32 :: s) = scanWord s := by
  simp [scanWord]

/-- **A word is read back** from in front of a text that does not prolong it. -/
theorem scanWord_append {w rest : Bytes} (hne : w ≠ []) (hw : ∀ c ∈ w, isSpace c = false)
    (hr : StopsAt isWordByte rest) : scanWord (w ++ rest) = some (w, rest) := by
  have hskip : skipSpace (w ++ rest) = w ++ rest := by
    apply skipSpace_of_stop
    cases w with
    | nil => exact absurd rfl hne
    | cons c w => exact hw c List.mem_cons_self
  have hword : ∀ c ∈ w, isWordByte c = true := fun c hc => by simp [isWordByte, hw c hc]
  have hne' : w ++ rest ≠ [] := fun h => hne (List.append_eq_nil_iff.mp h).1
  simp only [scanWord, hskip, if_neg hne', takeWhile_append_stop hword hr,
    dropWhile_append_stop hword hr]

/-- A word of at most `n` bytes, none of them white space or zero. -/
structure Token (n : ℕ) where
  bytes : Bytes
  ne_nil : bytes ≠ []
  length_le : bytes.length ≤ n
  clean : ∀ c ∈ bytes, isSpace c = false ∧ c ≠ 0

theorem Token.noNul {n : ℕ} (t : Token n) : NoNul t.bytes := fun c hc => (t.clean c hc).2

/-! ### Decimal numbers: `%d` -/

/-- `isdigit`. -/
def isDigit (c : UInt8) : Bool := 48 ≤ c && c ≤ 57

/-- A blank ends words and numbers. -/
theorem stopsAt_blank (rest : Bytes) :
    StopsAt isWordByte (32 :: rest) ∧ StopsAt isDigit (32 :: rest) :=
  ⟨show isWordByte 32 = false by decide, show isDigit 32 = false by decide⟩

/-- The number a run of decimal digits denotes. -/
def digitsValue (ds : Bytes) : ℕ := ds.foldl (fun acc d => 10 * acc + (d.toNat - 48)) 0

/-- `strtol` saturates at the ends of a 64-bit `long`. -/
def clampLong (n : ℤ) : ℤ := max (-2 ^ 63) (min (2 ^ 63 - 1) n)

/-- The value left by storing `n` in a 32-bit `int`. -/
def toInt (n : ℤ) : ℤ := Int.bmod n (2 ^ 32)

/-- The value fits an `int`. -/
def FitsInt (n : ℤ) : Prop := -2 ^ 31 ≤ n ∧ n < 2 ^ 31

instance (n : ℤ) : Decidable (FitsInt n) := inferInstanceAs (Decidable (_ ∧ _))

theorem fitsInt_toInt (n : ℤ) : FitsInt (toInt n) := by
  have hlo := Int.le_bmod (x := n) (m := 2 ^ 32) (by decide)
  have hhi := Int.bmod_lt (x := n) (m := 2 ^ 32) (by decide)
  rw [FitsInt, toInt]
  omega

theorem toInt_eq_self {n : ℤ} (hlo : -2 ^ 31 ≤ n) (hhi : n < 2 ^ 31) : toInt n = n := by
  rw [toInt, Int.bmod_eq_iff (by decide)]
  omega

/-- The sign in front of a number, and what follows it. -/
def scanSign : Bytes → Bool × Bytes
  | 45 :: s => (true, s)
  | 43 :: s => (false, s)
  | s => (false, s)

theorem scanSign_of_ne {c : UInt8} {s : Bytes} (hminus : c ≠ 45) (hplus : c ≠ 43) :
    scanSign (c :: s) = (false, c :: s) := by
  simp only [scanSign]
  split
  · rename_i heq; exact absurd (List.cons.inj heq).1 hminus
  · rename_i heq; exact absurd (List.cons.inj heq).1 hplus
  · rfl

/-- A sign, if there is one, is the first byte. -/
theorem scanSign_suffix (s : Bytes) : (scanSign s).2 <:+ s := by
  unfold scanSign
  split
  · exact List.suffix_cons _ _
  · exact List.suffix_cons _ _
  · exact List.suffix_refl _

/-- `%d`: optional sign, then at least one digit. -/
def scanInt (s : Bytes) : Option (ℤ × Bytes) :=
  let signed := scanSign (skipSpace s)
  let ds := signed.2.takeWhile isDigit
  let n : ℤ := digitsValue ds
  if ds = [] then none
  else some (toInt (clampLong (if signed.1 then -n else n)), signed.2.dropWhile isDigit)

@[simp] theorem scanInt_space (s : Bytes) : scanInt (32 :: s) = scanInt s := by
  simp [scanInt]

/-- `%u` as printed: the decimal digits of a number. -/
def decimal (n : ℕ) : Bytes := (Nat.toDigits 10 n).map fun c => c.toNat.toUInt8

/-- `%d` as printed. -/
def printInt (n : ℤ) : Bytes := if n < 0 then 45 :: decimal n.natAbs else decimal n.natAbs

theorem decimal_ne_nil (n : ℕ) : decimal n ≠ [] := by
  simp [decimal]

theorem isDigit_byte {c : Char} (h : c.isDigit = true) :
    isDigit c.toNat.toUInt8 = true ∧ c.toNat.toUInt8.toNat = c.toNat := by
  have hc : 48 ≤ c.toNat ∧ c.toNat ≤ 57 := by
    simpa [Char.isDigit, UInt32.le_iff_toNat_le] using h
  have hb : c.toNat.toUInt8.toNat = c.toNat := by
    rw [Nat.toUInt8, UInt8.toNat_ofNat']
    omega
  refine ⟨?_, hb⟩
  simp only [isDigit, Bool.and_eq_true, decide_eq_true_eq, UInt8.le_iff_toNat_le, hb]
  exact hc

theorem isDigit_of_mem_decimal {n : ℕ} {c : UInt8} (h : c ∈ decimal n) : isDigit c = true := by
  obtain ⟨d, hd, rfl⟩ := List.mem_map.mp h
  exact (isDigit_byte (Nat.isDigit_of_mem_toDigits (by decide) (by decide) hd)).1

theorem digitsValue_decimal (n : ℕ) : digitsValue (decimal n) = n := by
  have hfold : ∀ (cs : List Char) (acc : ℕ), (∀ c ∈ cs, c.isDigit = true) →
      (cs.map fun c => c.toNat.toUInt8).foldl (fun acc d => 10 * acc + (d.toNat - 48)) acc =
        Nat.ofDigitChars 10 cs acc := by
    intro cs
    induction cs with
    | nil => intro acc _; rfl
    | cons c cs ih =>
      intro acc hcs
      rw [List.map_cons, List.foldl_cons, (isDigit_byte (hcs c List.mem_cons_self)).2,
        ih _ fun d hd => hcs d (List.mem_cons_of_mem _ hd), Nat.ofDigitChars_cons]
      rfl
  rw [digitsValue, decimal, hfold _ _ fun c hc =>
    Nat.isDigit_of_mem_toDigits (by decide) (by decide) hc]
  exact Nat.ofDigitChars_ten_toDigits

theorem isDigit_range {c : UInt8} (h : isDigit c = true) : 48 ≤ c.toNat ∧ c.toNat ≤ 57 := by
  simpa [isDigit, UInt8.le_iff_toNat_le] using h

/-- A number has fewer values than its digits allow. -/
theorem digitsValue_lt {ds : Bytes} (h : ∀ d ∈ ds, isDigit d = true) : digitsValue ds < 10 ^ ds.length := by
  induction ds using List.reverseRecOn with
  | nil => decide
  | append_singleton ds d ih =>
    have hd : d.toNat ≤ 57 := (isDigit_range (h d (List.mem_append_right _ List.mem_cons_self))).2
    have hds := ih fun d hd => h d (List.mem_append_left _ hd)
    rw [digitsValue, List.foldl_append, ← digitsValue, List.length_append, List.length_singleton, pow_succ]
    show 10 * digitsValue ds + (d.toNat - 48) < _
    omega

/-- From the plus sign on, no byte is white space or a terminator. -/
theorem clean_of_le {c : UInt8} (hc : 43 ≤ c.toNat) : isSpace c = false ∧ c ≠ 0 ∧ c ≠ 10 := by
  have hne : ∀ d : UInt8, d.toNat < 43 → c ≠ d := by
    intro d hd heq
    rw [heq] at hc
    omega
  refine ⟨?_, hne 0 (by decide), hne 10 (by decide)⟩
  simp only [isSpace, Bool.or_eq_false_iff, beq_eq_false_iff_ne, Bool.and_eq_false_iff,
    decide_eq_false_iff_not, UInt8.le_iff_toNat_le]
  refine ⟨hne 32 (by decide), Or.inr ?_⟩
  rw [show (13 : UInt8).toNat = 13 from rfl]
  omega

theorem isDigit_facts {c : UInt8} (h : isDigit c = true) :
    isSpace c = false ∧ c ≠ 45 ∧ c ≠ 43 ∧ c ≠ 0 ∧ c ≠ 10 := by
  have hc := isDigit_range h
  obtain ⟨hspace, hzero, hend⟩ := clean_of_le (by omega : 43 ≤ c.toNat)
  have hne : ∀ d : UInt8, d.toNat < 48 → c ≠ d := by
    intro d hd heq
    rw [heq] at hc
    omega
  exact ⟨hspace, hne 45 (by decide), hne 43 (by decide), hzero, hend⟩

theorem decimal_cons (n : ℕ) : ∃ c cs, decimal n = c :: cs ∧ isDigit c = true := by
  cases hd : decimal n with
  | nil => exact absurd hd (decimal_ne_nil n)
  | cons c cs => exact ⟨c, cs, rfl, isDigit_of_mem_decimal (n := n) (by simp [hd])⟩

theorem scanSign_decimal (n : ℕ) (rest : Bytes) :
    scanSign (decimal n ++ rest) = (false, decimal n ++ rest) := by
  obtain ⟨c, cs, hd, hc⟩ := decimal_cons n
  obtain ⟨-, hminus, hplus, -⟩ := isDigit_facts hc
  rw [hd, List.cons_append]
  exact scanSign_of_ne hminus hplus

/-- The digits of a printed number are collected exactly, whatever sign was read before them. -/
theorem digits_decimal (n : ℕ) {rest : Bytes} (hr : StopsAt isDigit rest) :
    (decimal n ++ rest).takeWhile isDigit = decimal n ∧
      (decimal n ++ rest).dropWhile isDigit = rest :=
  ⟨takeWhile_append_stop (fun _ hc => isDigit_of_mem_decimal hc) hr,
    dropWhile_append_stop (fun _ hc => isDigit_of_mem_decimal hc) hr⟩

theorem toInt_clampLong {n : ℤ} (h : FitsInt n) : toInt (clampLong n) = n := by
  obtain ⟨hlo, hhi⟩ := h
  rw [clampLong, toInt_eq_self] <;> omega

/-- Digits behind a sign, or behind none, are read as the number they denote. -/
theorem scanInt_of_digits {s t ds rest : Bytes} {neg : Bool} (hskip : skipSpace s = t)
    (hsign : scanSign t = (neg, ds ++ rest)) (hne : ds ≠ []) (hds : ∀ d ∈ ds, isDigit d = true)
    (hr : StopsAt isDigit rest) {n : ℤ} (hn : n = if neg then -(digitsValue ds : ℤ) else digitsValue ds)
    (hfits : FitsInt n) : scanInt s = some (n, rest) := by
  have htake := takeWhile_append_stop hds hr
  have hdrop := dropWhile_append_stop hds hr
  simp only [scanInt, hskip, hsign, htake, hdrop, if_neg hne, ← hn, toInt_clampLong hfits]

/-- **A printed `int` is read back** from in front of a text that does not start with a digit. -/
theorem scanInt_printInt {n : ℤ} (hlo : -2 ^ 31 ≤ n) (hhi : n < 2 ^ 31) {rest : Bytes}
    (hr : StopsAt isDigit rest) : scanInt (printInt n ++ rest) = some (n, rest) := by
  have hdigits : ∀ d ∈ decimal n.natAbs, isDigit d = true := fun _ hd => isDigit_of_mem_decimal hd
  by_cases hneg : n < 0
  · rw [printInt, if_pos hneg, List.cons_append]
    have hskip : skipSpace (45 :: (decimal n.natAbs ++ rest)) = 45 :: (decimal n.natAbs ++ rest) :=
      skipSpace_of_stop (show isSpace 45 = false by decide)
    refine scanInt_of_digits hskip rfl (decimal_ne_nil _) hdigits hr ?_ ⟨hlo, hhi⟩
    rw [digitsValue_decimal, if_pos rfl]
    omega
  · rw [printInt, if_neg hneg]
    have hskip : skipSpace (decimal n.natAbs ++ rest) = decimal n.natAbs ++ rest := by
      obtain ⟨c, cs, hd, hc⟩ := decimal_cons n.natAbs
      apply skipSpace_of_stop
      rw [hd]
      exact (isDigit_facts hc).1
    refine scanInt_of_digits hskip (scanSign_decimal _ rest) (decimal_ne_nil _) hdigits hr ?_ ⟨hlo, hhi⟩
    rw [digitsValue_decimal, if_neg (by decide)]
    omega

/-- The characters of a printed number are digits and the minus sign. -/
theorem range_of_mem_printInt {n : ℤ} {c : UInt8} (h : c ∈ printInt n) : 45 ≤ c.toNat ∧ c.toNat ≤ 57 := by
  have hdec : c ∈ decimal n.natAbs → 45 ≤ c.toNat ∧ c.toNat ≤ 57 := fun hc => by
    obtain ⟨hlo, hhi⟩ := isDigit_range (isDigit_of_mem_decimal hc)
    exact ⟨le_trans (by decide) hlo, hhi⟩
  unfold printInt at h
  split at h
  · rcases List.mem_cons.mp h with rfl | h
    · decide
    · exact hdec h
  · exact hdec h

/-- A printed number is free of white space, line ends and zero bytes. -/
theorem printInt_clean {n : ℤ} {c : UInt8} (h : c ∈ printInt n) :
    isSpace c = false ∧ c ≠ 0 ∧ c ≠ 10 := by
  have hrange := range_of_mem_printInt h
  exact clean_of_le (by omega)

theorem printInt_natCast (n : ℕ) : printInt n = decimal n := by
  rw [printInt, if_neg (by omega), Int.natAbs_natCast]

theorem printInt_ne_nil (n : ℤ) : printInt n ≠ [] := by
  rw [printInt]
  split
  · exact List.cons_ne_nil _ _
  · exact decimal_ne_nil _

theorem noNul_printInt (n : ℤ) : NoNul (printInt n) := fun _ hc => (printInt_clean hc).2.1

theorem length_decimal_le {n k : ℕ} (hk : 0 < k) (h : n < 10 ^ k) : (decimal n).length ≤ k := by
  rw [decimal, List.length_map, Nat.length_toDigits_le_iff (by decide) hk]
  exact h

theorem length_printInt_le {n : ℤ} (hlo : -2 ^ 31 ≤ n) (hhi : n < 2 ^ 31) :
    (printInt n).length ≤ 11 := by
  have h := length_decimal_le (n := n.natAbs) (k := 10) (by decide) (by omega)
  unfold printInt
  split
  · rw [List.length_cons]; omega
  · omega

/-! ### `sscanf` -/

/-- The conversions in use: `%s` into an array of `cap` bytes, and `%d`. -/
inductive Conv
  | word (cap : ℕ)
  | int
  deriving DecidableEq

/-- A converted value. -/
inductive Val
  | word (w : Bytes)
  | int (n : ℤ)
  deriving DecidableEq

/-- `sscanf`: the values converted before the first conversion that fails; `none` when a word does
not fit its array, which C leaves undefined. -/
def sscanf : List Conv → Bytes → Option (List Val)
  | [], _ => some []
  | .word cap :: fs, s =>
    match scanWord s with
    | none => some []
    | some (w, rest) => if w.length < cap then (sscanf fs rest).map (.word w :: ·) else none
  | .int :: fs, s =>
    match scanInt s with
    | none => some []
    | some (n, rest) => (sscanf fs rest).map (.int n :: ·)

/-- What a `char` array argument holds after the call: its old contents if the conversion of that
position was not reached. -/
def wordArg (vals : List Val) (i : ℕ) (old : Bytes) : Bytes :=
  match vals[i]? with
  | some (.word w) => w
  | _ => old

/-- What an `int` argument holds after the call. -/
def intArg (vals : List Val) (i : ℕ) (old : ℤ) : ℤ :=
  match vals[i]? with
  | some (.int n) => n
  | _ => old

theorem sscanf_word {cap : ℕ} {w : Bytes} (fs : List Conv) {rest : Bytes} (hne : w ≠ [])
    (hw : ∀ c ∈ w, isSpace c = false) (hcap : w.length < cap) (hr : StopsAt isWordByte rest) :
    sscanf (.word cap :: fs) (w ++ rest) = (sscanf fs rest).map (.word w :: ·) := by
  simp only [sscanf, scanWord_append hne hw hr, if_pos hcap]

theorem sscanf_token {n cap : ℕ} (t : Token n) (hn : n < cap) (fs : List Conv) {rest : Bytes}
    (hr : StopsAt isWordByte rest) :
    sscanf (.word cap :: fs) (t.bytes ++ rest) = (sscanf fs rest).map (.word t.bytes :: ·) :=
  sscanf_word fs t.ne_nil (fun c hc => (t.clean c hc).1) (lt_of_le_of_lt t.length_le hn) hr

theorem sscanf_printInt {n : ℤ} (hlo : -2 ^ 31 ≤ n) (hhi : n < 2 ^ 31) (fs : List Conv)
    {rest : Bytes} (hr : StopsAt isDigit rest) :
    sscanf (.int :: fs) (printInt n ++ rest) = (sscanf fs rest).map (.int n :: ·) := by
  simp only [sscanf, scanInt_printInt hlo hhi hr]

/-- Both conversions skip a blank in front of them. -/
@[simp] theorem sscanf_space (f : Conv) (fs : List Conv) (s : Bytes) :
    sscanf (f :: fs) (32 :: s) = sscanf (f :: fs) s := by
  cases f <;> simp [sscanf]

/-! ### Receiving into a zeroed buffer -/

/-- The C string in a zeroed buffer of `cap` bytes after `b` has been received into it (what does not
fit is discarded); `none` when no terminator is left in the buffer. -/
def bufferString (cap : ℕ) (b : Bytes) : Option Bytes :=
  let s := cString (b.take cap)
  if s.length < cap then some s else none

theorem bufferString_of_clean {cap : ℕ} {b : Bytes} (hlen : b.length < cap)
    (hb : NoNul b) : bufferString cap b = some b := by
  simp only [bufferString, List.take_of_length_le hlen.le, cString_eq_self hb, if_pos hlen]

end Pcom.Lib.Scan
