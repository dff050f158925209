import Mathlib.Algebra.Group.Nat.Defs
import Mathlib.Data.List.Basic
import Mathlib.Data.List.Count
import Mathlib.Data.Nat.Notation

/-!
# IPv4 words

A 32-bit word in network byte order, as a little-endian machine loads it, has its bytes swapped against
the number the address denotes.
-/

namespace Pcom.Lib.Ipv4

/-- The same four bytes in the other order: `htonl` and `ntohl` on a little-endian machine. -/
def swapBytes (w : BitVec 32) : BitVec 32 :=
  w.extractLsb' 0 8 ++ w.extractLsb' 8 8 ++ w.extractLsb' 16 8 ++ w.extractLsb' 24 8

theorem swapBytes_append (a b c d : BitVec 8) : swapBytes (a ++ b ++ c ++ d) = d ++ c ++ b ++ a := by
  ext i hi
  simp only [swapBytes]
  grind

theorem swapBytes_swapBytes (w : BitVec 32) : swapBytes (swapBytes w) = w := by
  show swapBytes (w.extractLsb' 0 8 ++ w.extractLsb' 8 8 ++ w.extractLsb' 16 8 ++ w.extractLsb' 24 8) = w
  rw [swapBytes_append, BitVec.extractLsb'_append_extractLsb'_eq_extractLsb' (by rfl),
    BitVec.extractLsb'_append_extractLsb'_eq_extractLsb' (by rfl),
    BitVec.extractLsb'_append_extractLsb'_eq_extractLsb' (by rfl), BitVec.extractLsb'_eq_self]

/-- Words put side by side, as a number. -/
theorem toNat_append_eq {m n : ℕ} (x : BitVec m) (y : BitVec n) :
    (x ++ y).toNat = x.toNat * 2 ^ n + y.toNat := by
  rw [BitVec.toNat_append, ← Nat.shiftLeft_add_eq_or_of_lt y.isLt, Nat.shiftLeft_eq]

/-- The contiguous mask of a length, as a number. -/
def hostMask (length : ℕ) : BitVec 32 := BitVec.allOnes 32 <<< (32 - length)

/-- The contiguous mask of a length, in network byte order. -/
def netmask (length : ℕ) : BitVec 32 := swapBytes (hostMask length)

/-- The number of one bits of a mask. -/
def maskLength (mask : BitVec 32) : ℕ := (List.range 32).countP fun i => mask.getLsbD i

theorem maskLength_netmask : ∀ length ≤ 32, maskLength (netmask length) = length := by decide

theorem netmask_lt_succ : ∀ length < 32, (netmask length).toNat < (netmask (length + 1)).toNat := by decide

/-- A longer mask is a larger word, although its bytes are swapped. -/
theorem netmask_strictMono {m n : ℕ} (hlt : m < n) (hn : n ≤ 32) :
    (netmask m).toNat < (netmask n).toNat := by
  induction n with
  | zero => omega
  | succ n ih =>
    have hstep := netmask_lt_succ n hn
    rcases Nat.lt_succ_iff_lt_or_eq.mp hlt with hm | rfl
    · exact Nat.lt_trans (ih hm (by omega)) hstep
    · exact hstep

end Pcom.Lib.Ipv4
