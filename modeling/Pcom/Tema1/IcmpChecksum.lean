import Pcom.Tema1.Verify

/-!
# The two checksum routines of `Tema1/skel.c`

`icmp_checksum` adds up words as they are loaded, low byte first, and folds the carries twice; `ip_checksum` adds
up blocks in network order and folds until nothing is left.  For an odd size the first loads its last word from
one byte beyond the buffer.

* `ipChecksum_native` — `ip_checksum` from the sum of the words as they are loaded;
* `checksums_agree_iff` — **the exact condition** for the two to agree, and for no byte beyond the size to matter: the
  size is even, and two foldings are enough;
* `foldsTwice_of_le` — they are enough up to 128 KiB.
-/

namespace Pcom.Tema1.IcmpChecksum

open Function Pcom.Lib.Memory Pcom.Lib.OnesComplement Pcom.Lib.Scan Pcom.Tema1.Skel Pcom.Tema1.Verify

/-! ### The two sums -/

/-- `ip_checksum` from the sum of the words as they are loaded. -/
theorem ipChecksum_native (vdata : ℕ) {data : Bytes} (hlen : data.length < 2 ^ 32) :
    ∃ f, FoldsTo (nativeSum data) f ∧ (ipChecksum vdata data).toNat = 65535 - f := by
  obtain ⟨f, hpos, hle, hmod, hword⟩ := ipChecksum_complements vdata hlen
  have hshift := onesSum_shift data
  have hnat := toNat_bytes (ipChecksum vdata data)
  have h0 := (byteOf (ipChecksum vdata data) 0).toNat_lt
  have h1 := (byteOf (ipChecksum vdata data) 1).toNat_lt
  rw [nativeSum_eq]
  refine ⟨65535 - (ipChecksum vdata data).toNat, ⟨by omega, by omega, ?_⟩, by omega⟩
  generalize onesSum (0 :: data) = moved at hshift
  omega

/-- An even number of bytes is summed up as they are. -/
theorem toNat_icmpSum_even {size : ℕ} (hsize : size < 2 ^ 32) (heven : size % 2 = 0) (buffer : Buf) :
    (icmpSum buffer 0 size 0).toNat = nativeSum (bytes buffer 0 size) := by
  have hzero : (0 : BitVec 64).toNat = 0 := rfl
  rw [toNat_icmpSum buffer 0 size (by rw [hzero]; omega), heven, hzero, Nat.zero_add, Nat.add_zero]

/-- An odd number of bytes is summed up with one more. -/
theorem toNat_icmpSum_odd {size : ℕ} (hsize : size < 2 ^ 32) (hodd : size % 2 = 1) (buffer : Buf) :
    (icmpSum buffer 0 size 0).toNat = nativeSum (bytes buffer 0 size) + 256 * (buffer size).toNat := by
  have hzero : (0 : BitVec 64).toNat = 0 := rfl
  have hlen : (0 :: bytes buffer 0 size).length % 2 = 0 := by
    rw [List.length_cons, length_bytes]
    omega
  have hmore : bytes buffer 0 (size + 1) = bytes buffer 0 size ++ [buffer size] := by
    rw [bytes_add, Nat.zero_add]
    rfl
  rw [toNat_icmpSum buffer 0 size (by rw [hzero]; omega), hodd, hzero, Nat.zero_add, nativeSum_eq, nativeSum_eq,
    hmore, ← List.cons_append, onesSum_append hlen, onesSum]

/-! ### Folding twice -/

/-- Two foldings are enough for the sum of the words. -/
def FoldsTwice (buffer : Buf) (size : ℕ) : Prop :=
  foldOnce (foldOnce (nativeSum (bytes buffer 0 size))) < 2 ^ 16

instance (buffer : Buf) (size : ℕ) : Decidable (FoldsTwice buffer size) := inferInstanceAs (Decidable (_ < _))

theorem nativeSum_le (msg : Bytes) : 2 * nativeSum msg ≤ 65535 * (msg.length + 1) := by
  induction msg using nativeSum.induct with
  | case1 => exact Nat.zero_le _
  | case2 a =>
    have ha := a.toNat_lt
    rw [nativeSum, List.length_singleton]
    omega
  | case3 a b rest ih =>
    have ha := a.toNat_lt
    have hb := b.toNat_lt
    rw [nativeSum, List.length_cons, List.length_cons]
    omega

/-- **Up to 128 KiB** two foldings are enough. -/
theorem foldsTwice_of_le (buffer : Buf) {size : ℕ} (hsize : size ≤ 131072) : FoldsTwice buffer size := by
  have hle := nativeSum_le (bytes buffer 0 size)
  rw [length_bytes] at hle
  exact foldOnce_foldOnce_lt (by omega)

/-- Two foldings are enough exactly when they leave the folded sum: otherwise a carry is lost. -/
theorem foldsTo_iff {n : ℕ} (hpos : 0 < n) (hlt : n < 2 ^ 48) :
    FoldsTo n (foldOnce (foldOnce n) % 65536) ↔ foldOnce (foldOnce n) < 2 ^ 16 := by
  have hmod := (foldOnce_mod (foldOnce n)).trans (foldOnce_mod n)
  have hzero : foldOnce (foldOnce n) = 0 ↔ n = 0 := foldOnce_eq_zero_iff.trans foldOnce_eq_zero_iff
  have hbound : foldOnce (foldOnce n) ≤ 131072 := by
    rw [foldOnce, foldOnce]
    omega
  generalize foldOnce (foldOnce n) = twice at hmod hzero hbound
  constructor
  · intro hfolds
    have hpos' := hfolds.pos
    have hsame := hfolds.mod
    omega
  · intro hsmall
    rw [Nat.mod_eq_of_lt (show twice < 65536 from hsmall)]
    exact ⟨by omega, by omega, hmod⟩

/-- Two sums that differ by 256 are told apart. -/
theorem foldOnce_add_ne (n : ℕ) :
    foldOnce (foldOnce (n + 256)) % 65536 ≠ foldOnce (foldOnce n) % 65536 := by
  have hfirst : foldOnce (n + 256) = foldOnce n + 256 ∨ foldOnce n = foldOnce (n + 256) + 65279 := by
    rw [foldOnce, foldOnce]
    omega
  have hsecond (k d : ℕ) (hd : 0 < d) (hd' : d < 65535) : foldOnce (k + d) % 65536 ≠ foldOnce k % 65536 := by
    have hlow (x : ℕ) : foldOnce x % 65536 = (x / 65536 + x) % 65536 := by
      rw [foldOnce, Nat.add_mod_mod]
    have hhigh : (k + d) / 65536 = k / 65536 ∨ (k + d) / 65536 = k / 65536 + 1 := by omega
    rw [hlow, hlow]
    omega
  rcases hfirst with hup | hdown
  · rw [hup]
    exact hsecond _ 256 (by decide) (by decide)
  · rw [hdown]
    exact (hsecond _ 65279 (by decide) (by decide)).symm

/-! ### The exact condition -/

/-- The two routines give the same two bytes, and no byte beyond the size matters. -/
structure Agrees (vdata : ℕ) (buffer : Buf) (size : ℕ) : Prop where
  same : icmpChecksum buffer size = ipChecksum vdata (bytes buffer 0 size)
  within : ∀ buffer' : Buf, (∀ k < size, buffer' k = buffer k) → icmpChecksum buffer' size = icmpChecksum buffer size

/-- For an odd size the byte behind the buffer matters, whatever the buffer. -/
theorem not_agrees_of_odd {buffer : Buf} {size : ℕ} (hsize : size < 2 ^ 32) (hodd : size % 2 = 1) (vdata : ℕ) :
    ¬ Agrees vdata buffer size := by
  intro h
  have hsum (x : UInt8) : (icmpSum (update buffer size x) 0 size 0).toNat =
      nativeSum (bytes buffer 0 size) + 256 * x.toNat := by
    have hsame : bytes (update buffer size x) 0 size = bytes buffer 0 size :=
      bytes_congr fun i _ hi => update_of_ne (by omega) ..
    rw [toNat_icmpSum_odd hsize hodd, hsame, update_self]
  have hcheck (x : UInt8) : icmpChecksum (update buffer size x) size = icmpChecksum buffer size :=
    h.within _ fun k hk => update_of_ne (by omega) ..
  have heq := congrArg BitVec.toNat ((hcheck 1).trans (hcheck 0).symm)
  have hne := foldOnce_add_ne (nativeSum (bytes buffer 0 size))
  simp only [toNat_icmpChecksum, hsum, UInt8.toNat_zero, UInt8.toNat_one, Nat.mul_one, Nat.mul_zero,
    Nat.add_zero] at heq
  omega

/-- For an even size no byte behind the buffer is read. -/
theorem icmpChecksum_congr {buffer buffer' : Buf} {size : ℕ} (hsize : size < 2 ^ 32) (heven : size % 2 = 0)
    (h : ∀ k < size, buffer' k = buffer k) : icmpChecksum buffer' size = icmpChecksum buffer size := by
  have hsame : bytes buffer' 0 size = bytes buffer 0 size := bytes_congr fun i _ hi => h i (by omega)
  refine BitVec.eq_of_toNat_eq ?_
  rw [toNat_icmpChecksum, toNat_icmpChecksum, toNat_icmpSum_even hsize heven, toNat_icmpSum_even hsize heven, hsame]

/-- **When the two routines agree.** -/
theorem checksums_agree_iff {buffer : Buf} {size : ℕ} (hsize : size < 2 ^ 32) (hne : ∃ k < size, buffer k ≠ 0)
    (vdata : ℕ) : Agrees vdata buffer size ↔ size % 2 = 0 ∧ FoldsTwice buffer size := by
  obtain heven | hodd := Nat.mod_two_eq_zero_or_one size
  · have hle := nativeSum_le (bytes buffer 0 size)
    have hpos : 0 < nativeSum (bytes buffer 0 size) := by
      rw [nativeSum_eq, Nat.pos_iff_ne_zero, ne_eq, onesSum_eq_zero_iff]
      intro hall
      obtain ⟨k, hk, hne⟩ := hne
      have hmem : buffer (0 + k) ∈ bytes buffer 0 size := List.mem_map_of_mem (List.mem_range.mpr hk)
      rw [Nat.zero_add] at hmem
      exact hne (hall _ (List.mem_cons_of_mem 0 hmem))
    rw [length_bytes] at hle
    obtain ⟨f, hf, hword⟩ := @ipChecksum_native vdata (bytes buffer 0 size) (by rwa [length_bytes])
    have hicmp := toNat_icmpChecksum buffer size
    rw [toNat_icmpSum_even hsize heven] at hicmp
    rw [and_iff_right heven, FoldsTwice, ← foldsTo_iff hpos (by omega)]
    constructor
    · intro h
      have heq := congrArg BitVec.toNat h.same
      have hfle := hf.le
      have hfold : foldOnce (foldOnce (nativeSum (bytes buffer 0 size))) % 65536 = f := by omega
      rwa [hfold]
    · intro hfold
      refine ⟨BitVec.eq_of_toNat_eq ?_, fun buffer' h => icmpChecksum_congr hsize heven h⟩
      rw [hicmp, hword, hf.unique hfold]
  · refine iff_of_false (not_agrees_of_odd hsize hodd vdata) ?_
    omega

/-- A header of an echo request. -/
theorem echoHeader_agrees : Agrees 2 (ofBytes [8, 0, 0, 0, 0x12, 0x34, 0, 1]) 8 :=
  (checksums_agree_iff (by decide) ⟨0, by decide, by decide⟩ 2).mpr ⟨rfl, foldsTwice_of_le _ (by decide)⟩

/-- **An odd size**: one byte, with another one behind it. -/
theorem odd_size_disagrees : ¬ ∀ (vdata size : ℕ) (buffer : Buf), size < 2 ^ 32 → (∃ k < size, buffer k ≠ 0) →
    Agrees vdata buffer size := by
  intro h
  have hsame := (h 0 1 (ofBytes [1, 1]) (by decide) ⟨0, by decide, by decide⟩).same
  revert hsame
  decide

end Pcom.Tema1.IcmpChecksum
