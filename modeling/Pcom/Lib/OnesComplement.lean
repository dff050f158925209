import Mathlib.Data.List.Basic
import Mathlib.Data.Nat.Notation
import Mathlib.Tactic.Ring

/-!
# The one's complement checksum

A message is summed up in 16-bit words, the carries are folded back, and a receiver accepts it when the
sum is all ones.  What counts is the sum modulo 65535, except that a message of zeros is not accepted:

* `verifies_iff` — **what a receiver checks**, in plain arithmetic;
* `verifies_rest` — a message whose checksum was taken over its first part is accepted exactly when the
  rest adds nothing;
* `onesSum_shift` — **the sum does not depend on the byte order**: moved by one byte, it is divided by 256;
* `FoldsTo` — the folded sum, as the one number of its kind that is congruent to the sum.
-/

namespace Pcom.Lib.OnesComplement

/-- The sum of the words of a message, high byte first; a last odd byte is padded with a zero. -/
def onesSum : List UInt8 → ℕ
  | [] => 0
  | [a] => 256 * a.toNat
  | a :: b :: rest => 256 * a.toNat + b.toNat + onesSum rest

/-- The sum of the words of a message, low byte first. -/
def nativeSum : List UInt8 → ℕ
  | [] => 0
  | [a] => a.toNat
  | a :: b :: rest => a.toNat + 256 * b.toNat + nativeSum rest

/-- Fold the carries once. -/
def foldOnce (n : ℕ) : ℕ := n / 65536 + n % 65536

/-- Fold the carries until the sum fits a word. -/
def foldSum (n : ℕ) : ℕ := if n < 65536 then n else foldSum (n / 65536 + n % 65536)
termination_by n
decreasing_by omega

/-- A receiver accepts the message: its sum is all ones. -/
def Verifies (msg : List UInt8) : Prop := foldSum (onesSum msg) = 65535

/-! ### Folding -/

theorem foldSum_eq_iff (n : ℕ) : foldSum n = 65535 ↔ n ≠ 0 ∧ n % 65535 = 0 := by
  induction n using foldSum.induct with
  | case1 n hlt =>
    rw [foldSum, if_pos hlt]
    omega
  | case2 n hlarge ih =>
    rw [foldSum, if_neg hlarge, ih]
    omega

theorem foldOnce_mod (n : ℕ) : foldOnce n % 65535 = n % 65535 := by
  rw [foldOnce]
  omega

theorem foldOnce_eq_zero_iff {n : ℕ} : foldOnce n = 0 ↔ n = 0 := by
  rw [foldOnce]
  omega

/-- Folding twice leaves a word if no more than 65536 words were added. -/
theorem foldOnce_foldOnce_lt {n : ℕ} (h : n < 2 ^ 32) : foldOnce (foldOnce n) < 65536 := by
  rw [foldOnce, foldOnce]
  omega

/-- **What a receiver checks.** -/
theorem verifies_iff (msg : List UInt8) :
    Verifies msg ↔ onesSum msg ≠ 0 ∧ onesSum msg % 65535 = 0 := foldSum_eq_iff _

/-! ### Sums of messages -/

/-- Behind a first part of even length the words are those of the second part. -/
theorem onesSum_append {xs : List UInt8} (heven : xs.length % 2 = 0) (ys : List UInt8) :
    onesSum (xs ++ ys) = onesSum xs + onesSum ys := by
  induction xs using onesSum.induct with
  | case1 => rw [List.nil_append, onesSum, Nat.zero_add]
  | case2 a => cases heven
  | case3 a b rest ih =>
    rw [List.length_cons, List.length_cons] at heven
    rw [List.cons_append, List.cons_append, onesSum, onesSum, ih (by omega)]
    omega

theorem onesSum_eq_zero_iff (msg : List UInt8) : onesSum msg = 0 ↔ ∀ b ∈ msg, b = 0 := by
  have hzero : ∀ b : UInt8, b.toNat = 0 ↔ b = 0 := fun b =>
    UInt8.toNat_inj (a := b) (b := 0)
  induction msg using onesSum.induct with
  | case1 => simp [onesSum]
  | case2 a =>
    rw [onesSum, List.forall_mem_singleton, ← hzero]
    omega
  | case3 a b rest ih =>
    have hrest : onesSum rest = 0 ↔ ∀ c ∈ rest, c = 0 := ih
    rw [onesSum, List.forall_mem_cons, List.forall_mem_cons, ← hrest, ← hzero, ← hzero]
    omega

/-- A first byte, apart from the others. -/
theorem onesSum_cons (b : UInt8) (msg : List UInt8) :
    onesSum (b :: msg) = 256 * b.toNat + onesSum (0 :: msg) := by
  cases msg with
  | nil => simp only [onesSum, UInt8.toNat_zero, Nat.mul_zero, Nat.add_zero]
  | cons c msg =>
    rw [onesSum, onesSum, UInt8.toNat_zero]
    omega

/-- **A message moved by one byte**: every byte changes its place in the word. -/
theorem onesSum_shift (msg : List UInt8) : 256 * onesSum (0 :: msg) % 65535 = onesSum msg % 65535 := by
  induction msg with
  | nil => rfl
  | cons b msg ih =>
    have hmoved : onesSum (0 :: b :: msg) = b.toNat + onesSum msg := by
      rw [onesSum, UInt8.toNat_zero]
      omega
    rw [hmoved, onesSum_cons b msg]
    omega

/-- With its bytes the other way round each word is that of the message moved by one byte. -/
theorem nativeSum_eq (msg : List UInt8) : nativeSum msg = onesSum (0 :: msg) := by
  induction msg using nativeSum.induct with
  | case1 => rfl
  | case2 a => simp only [nativeSum, onesSum, UInt8.toNat_zero, Nat.mul_zero, Nat.zero_add, Nat.add_zero]
  | case3 a b rest ih =>
    rw [nativeSum, onesSum, onesSum_cons, ih, UInt8.toNat_zero]
    omega

/-- The sum with a word in the place of a zero word. -/
theorem onesSum_fill {before : List UInt8} (heven : before.length % 2 = 0) (hi lo : UInt8)
    (after : List UInt8) : onesSum (before ++ hi :: lo :: after) =
      onesSum (before ++ 0 :: 0 :: after) + (256 * hi.toNat + lo.toNat) := by
  rw [onesSum_append heven, onesSum_append heven, onesSum, onesSum]
  show _ = onesSum before + (256 * 0 + 0 + onesSum after) + _
  omega

/-! ### The folded sum -/

/-- `f` is the number between 1 and `0xFFFF` that is congruent to the sum. -/
structure FoldsTo (n f : ℕ) : Prop where
  pos : 0 < f
  le : f ≤ 65535
  mod : f % 65535 = n % 65535

theorem FoldsTo.unique {n f f' : ℕ} (h : FoldsTo n f) (h' : FoldsTo n f') : f = f' := by
  obtain ⟨hpos, hle, hmod⟩ := h
  obtain ⟨hpos', hle', hmod'⟩ := h'
  omega

/-! ### Messages with a checksum -/

/-- The word `hi lo` is the complement of a non-zero one's complement sum of `covered`. -/
def Complements (hi lo : UInt8) (covered : List UInt8) : Prop :=
  ∃ sum, 0 < sum ∧ sum ≤ 65535 ∧ sum % 65535 = onesSum covered % 65535 ∧
    256 * hi.toNat + lo.toNat = 65535 - sum

/-- **A checksum over the first part** makes the whole message acceptable exactly when the rest adds up to
nothing modulo 65535, and the message is not all zero. -/
theorem verifies_rest {before after rest : List UInt8} {hi lo : UInt8} (heven : before.length % 2 = 0)
    (heven' : after.length % 2 = 0) (hcheck : Complements hi lo (before ++ 0 :: 0 :: after)) :
    Verifies (before ++ hi :: lo :: (after ++ rest)) ↔
      onesSum rest % 65535 = 0 ∧ onesSum (before ++ 0 :: 0 :: (after ++ rest)) ≠ 0 := by
  obtain ⟨sum, hpos, hle, hmod, hword⟩ := hcheck
  have hsplit : onesSum (before ++ 0 :: 0 :: (after ++ rest)) =
      onesSum (before ++ 0 :: 0 :: after) + onesSum rest := by
    have hlen : (before ++ 0 :: 0 :: after).length % 2 = 0 := by
      rw [List.length_append, List.length_cons, List.length_cons]
      omega
    rw [← onesSum_append hlen, List.append_assoc]
    rfl
  rw [verifies_iff, onesSum_fill heven, hsplit, hword]
  omega

/-- A checksum over the whole message. -/
theorem verifies_of_complements {before after : List UInt8} {hi lo : UInt8}
    (heven : before.length % 2 = 0) (heven' : after.length % 2 = 0)
    (hcheck : Complements hi lo (before ++ 0 :: 0 :: after))
    (hne : onesSum (before ++ 0 :: 0 :: after) ≠ 0) : Verifies (before ++ hi :: lo :: after) := by
  have h : onesSum [] % 65535 = 0 ∧ onesSum (before ++ 0 :: 0 :: (after ++ [])) ≠ 0 →
      Verifies (before ++ hi :: lo :: (after ++ [])) := (verifies_rest heven heven' hcheck).mpr
  rw [List.append_nil] at h
  exact h ⟨rfl, hne⟩

end Pcom.Lib.OnesComplement
