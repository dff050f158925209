import Pcom.Tema1.Router

/-!
# What `ip_checksum` tells apart

`ip_checksum` adds up words in one's complement: the carries are folded back, so that what counts is the sum
modulo 65535.  Two headers that differ in one byte of the last word have different checksums.

* `fold_mod` — folding the carries keeps the sum modulo 65535;
* `finish_block_inj` — **the last byte counts**.
-/

namespace Pcom.Tema1.Checksum

open Function Pcom.Lib.Ipv4 Pcom.Lib.Memory Pcom.Lib.Scan Pcom.Tema1.Skel Pcom.Tema1.Router

/-- What `ip_checksum` does with the accumulator once all blocks are added, for data at an even address. -/
def finish (acc : BitVec 64) : BitVec 16 :=
  htons ((~~~(foldCarries 3 ((acc &&& 0xffffffff#64) + (acc >>> 32)))).setWidth 16)

/-! ### The folded sum -/

theorem toNat_turn (a : BitVec 64) :
    ((a &&& 0xffff#64) + (a >>> 16)).toNat = a.toNat % 2 ^ 16 + a.toNat / 2 ^ 16 := by
  have hlt := a.isLt
  exact toNat_fold rfl a (by omega)

/-- A turn of the carry loop, and the deferred carries, keep the sum modulo 65535. -/
theorem foldCarries_mod (turns : ℕ) (acc : BitVec 64) :
    (foldCarries turns acc).toNat % 65535 = acc.toNat % 65535 := by
  induction turns generalizing acc with
  | zero => rfl
  | succ turns ih =>
    rw [foldCarries]
    split
    · rfl
    · rw [ih, toNat_turn]
      omega

theorem fold_mod (acc : BitVec 64) :
    (foldCarries 3 ((acc &&& 0xffffffff#64) + (acc >>> 32))).toNat % 65535 = acc.toNat % 65535 := by
  have hlt := acc.isLt
  rw [foldCarries_mod, toNat_fold (n := 32) rfl acc (by omega)]
  omega

theorem htons_htons (w : BitVec 16) : htons (htons w) = w := by
  ext i hi
  simp only [htons]
  grind

theorem htons_inj {w w' : BitVec 16} (h : htons w = htons w') : w = w' := by
  rw [← htons_htons w, h, htons_htons]

theorem byteOf_htons_zero (w : BitVec 16) : byteOf (htons w) 0 = byteOf w 1 := by
  refine UInt8.toBitVec_inj.mp ?_
  show (htons w).extractLsb' 0 8 = w.extractLsb' 8 8
  ext i hi
  simp only [htons]
  grind

theorem byteOf_htons_one (w : BitVec 16) : byteOf (htons w) 1 = byteOf w 0 := by
  refine UInt8.toBitVec_inj.mp ?_
  show (htons w).extractLsb' 8 8 = w.extractLsb' 0 8
  ext i hi
  simp only [htons]
  grind

theorem foldCarries_pos (turns : ℕ) {acc : BitVec 64} (h : 0 < acc.toNat) :
    0 < (foldCarries turns acc).toNat := by
  induction turns generalizing acc with
  | zero => exact h
  | succ turns ih =>
    rw [foldCarries]
    split
    · exact h
    · refine ih ?_
      rw [toNat_turn]
      omega

/-- The folded sum of a positive accumulator is positive. -/
theorem fold_pos {acc : BitVec 64} (hpos : 0 < acc.toNat) :
    0 < (foldCarries 3 ((acc &&& 0xffffffff#64) + (acc >>> 32))).toNat := by
  have hlt := acc.isLt
  refine foldCarries_pos 3 ?_
  rw [toNat_fold (n := 32) rfl acc (by omega)]
  omega

/-- **Equal checksums mean equal sums** modulo 65535. -/
theorem finish_inj {acc acc' : BitVec 64} (h : finish acc = finish acc') :
    acc.toNat % 65535 = acc'.toNat % 65535 := by
  have hnot := htons_inj h
  have hlt := foldCarries_lt acc
  have hlt' := foldCarries_lt acc'
  rw [← fold_mod acc, ← fold_mod acc']
  generalize foldCarries 3 ((acc &&& 0xffffffff#64) + (acc >>> 32)) = a at hnot hlt
  generalize foldCarries 3 ((acc' &&& 0xffffffff#64) + (acc' >>> 32)) = a' at hnot hlt'
  have hnat := congrArg BitVec.toNat hnot
  simp only [BitVec.toNat_setWidth, BitVec.toNat_not] at hnat
  omega

/-! ### Blocks -/

theorem toNat_block_lt (at_ : ℕ) (data : Bytes) : (block at_ data).toNat < 2 ^ 32 := by
  rw [block, BitVec.toNat_setWidth]
  exact lt_of_le_of_lt (Nat.mod_le _ _) (BitVec.isLt _)

/-- A last block of two bytes counts them as the upper half of a word. -/
theorem toNat_block_pair (x y : UInt8) :
    (block 0 [x, y]).toNat = x.toNat * 2 ^ 24 + y.toNat * 2 ^ 16 := by
  have hword : block 0 [x, y] =
      (x.toBitVec ++ y.toBitVec ++ (0 : UInt8).toBitVec ++ (0 : UInt8).toBitVec).setWidth 64 :=
    congrArg (BitVec.setWidth 64)
      (swapBytes_append (0 : UInt8).toBitVec (0 : UInt8).toBitVec y.toBitVec x.toBitVec)
  have hx := x.toNat_lt
  have hy := y.toNat_lt
  rw [hword, BitVec.toNat_setWidth, toNat_append_eq, toNat_append_eq, toNat_append_eq]
  show (((x.toNat * 2 ^ 8 + y.toNat) * 2 ^ 8 + 0) * 2 ^ 8 + 0) % 2 ^ 64 = _
  omega

/-- The sum with such a block does not overflow the accumulator. -/
theorem toNat_add_pair {acc : BitVec 64} (hacc : acc.toNat < 2 ^ 48) (x y : UInt8) :
    (acc + block 0 [x, y]).toNat = acc.toNat + x.toNat * 2 ^ 24 + y.toNat * 2 ^ 16 := by
  have hx := x.toNat_lt
  have hy := y.toNat_lt
  rw [BitVec.toNat_add, toNat_block_pair]
  omega

/-- A byte added at a fixed place is told from the sum modulo 65535. -/
theorem eq_of_add_mod {n y y' : ℕ} (hy : y < 256) (hy' : y' < 256)
    (h : (n + y * 2 ^ 16) % 65535 = (n + y' * 2 ^ 16) % 65535) : y = y' := by
  omega

/-- **The last byte counts**: two sums that differ in the second byte of a last block of two have different
checksums. -/
theorem finish_block_inj {acc : BitVec 64} (hacc : acc.toNat < 2 ^ 48) {x y y' : UInt8}
    (h : finish (acc + block 0 [x, y]) = finish (acc + block 0 [x, y'])) : y = y' := by
  have hmod := finish_inj h
  rw [toNat_add_pair hacc, toNat_add_pair hacc] at hmod
  exact UInt8.toNat_inj.mp (eq_of_add_mod y.toNat_lt y'.toNat_lt hmod)

/-- The two bytes of a complement as they are stored, upper byte first. -/
theorem bytes_htons_not {a : BitVec 64} (ha : a.toNat < 2 ^ 16) :
    256 * (byteOf (htons ((~~~a).setWidth 16)) 0).toNat + (byteOf (htons ((~~~a).setWidth 16)) 1).toNat =
      65535 - a.toNat := by
  have hnot : ((~~~a).setWidth 16).toNat = 65535 - a.toNat := by
    rw [BitVec.toNat_setWidth, BitVec.toNat_not]
    omega
  rw [byteOf_htons_zero, byteOf_htons_one, toNat_byteOf, toNat_byteOf, hnot]
  omega

/-- The two bytes of a finished checksum as they are stored: the complement of the sum, upper byte first. -/
theorem bytes_finish (acc : BitVec 64) :
    256 * (byteOf (finish acc) 0).toNat + (byteOf (finish acc) 1).toNat =
      65535 - (foldCarries 3 ((acc &&& 0xffffffff#64) + (acc >>> 32))).toNat :=
  bytes_htons_not (foldCarries_lt acc)

/-- The byte swap for data at an odd address. -/
def swapHalves (acc : BitVec 64) : BitVec 64 := ((acc &&& 0xff00#64) >>> 8) ||| ((acc &&& 0x00ff#64) <<< 8)

theorem toNat_swapHalves {acc : BitVec 64} (hlt : acc.toNat < 2 ^ 16) :
    (swapHalves acc).toNat = acc.toNat % 256 * 256 + acc.toNat / 256 := by
  have hlow : acc.toNat &&& 255 = acc.toNat % 256 := Nat.and_two_pow_sub_one_eq_mod acc.toNat 8
  have hhigh : (acc.toNat &&& 65280) >>> 8 = acc.toNat / 256 := by
    rw [Nat.shiftRight_and_distrib, Nat.shiftRight_eq_div_pow]
    show acc.toNat / 2 ^ 8 &&& 2 ^ 8 - 1 = _
    rw [Nat.and_two_pow_sub_one_eq_mod]
    omega
  have hfit : (acc.toNat % 256) <<< 8 < 2 ^ 64 := by
    rw [Nat.shiftLeft_eq]
    omega
  rw [swapHalves, BitVec.toNat_or, BitVec.toNat_ushiftRight, BitVec.toNat_and, BitVec.toNat_shiftLeft,
    BitVec.toNat_and]
  show (acc.toNat &&& 65280) >>> 8 ||| ((acc.toNat &&& 255) <<< 8) % 2 ^ 64 = _
  rw [hlow, hhigh, Nat.mod_eq_of_lt hfit, Nat.or_comm, ← Nat.shiftLeft_add_eq_or_of_lt (by omega),
    Nat.shiftLeft_eq]

/-- The byte of a checksum that is stored first is its upper one. -/
theorem byteOf_finish (acc : BitVec 64) : ∃ sum < 2 ^ 16, sum % 65535 = acc.toNat % 65535 ∧
    (byteOf (finish acc) 0).toNat = (65535 - sum) / 2 ^ 8 := by
  have hword := bytes_finish acc
  have hlow := (byteOf (finish acc) 1).toNat_lt
  exact ⟨_, foldCarries_lt acc, fold_mod acc, by omega⟩

/-- **The last byte but one shows in the upper byte**: counting it up changes the byte that is stored first. -/
theorem finish_block_byte {acc : BitVec 64} (hacc : acc.toNat < 2 ^ 48) (y : UInt8) :
    byteOf (finish (acc + block 0 [0, y])) 0 ≠ byteOf (finish (acc + block 0 [1, y])) 0 := by
  intro heq
  obtain ⟨a, ha, hmod, hbyte⟩ := byteOf_finish (acc + block 0 [0, y])
  obtain ⟨a', ha', hmod', hbyte'⟩ := byteOf_finish (acc + block 0 [1, y])
  rw [toNat_add_pair hacc, show (0 : UInt8).toNat = 0 from rfl] at hmod
  rw [toNat_add_pair hacc, show (1 : UInt8).toNat = 1 from rfl] at hmod'
  rw [heq, hbyte'] at hbyte
  omega

/-! ### The header checksum -/

/-- The blocks of an IPv4 header in front of the last. -/
def headerSum (b : Buf) : BitVec 64 :=
  0xffff + block 2 [b 14, b 15] + block 0 [b 16, b 17, b 18, b 19] + block 0 [b 20, b 21, b 22, b 23] +
    block 0 [b 24, b 25, b 26, b 27] + block 0 [b 28, b 29, b 30, b 31]

theorem headerChecksum_eq (b : Buf) : headerChecksum b = finish (headerSum b + block 0 [b 32, b 33]) :=
  rfl

theorem headerSum_lt (b : Buf) : (headerSum b).toNat < 2 ^ 48 := by
  have h₁ := toNat_block_lt 2 [b 14, b 15]
  have h₂ := toNat_block_lt 0 [b 16, b 17, b 18, b 19]
  have h₃ := toNat_block_lt 0 [b 20, b 21, b 22, b 23]
  have h₄ := toNat_block_lt 0 [b 24, b 25, b 26, b 27]
  have h₅ := toNat_block_lt 0 [b 28, b 29, b 30, b 31]
  have h₀ : (0xffff : BitVec 64).toNat = 65535 := rfl
  simp only [headerSum, BitVec.toNat_add, h₀]
  omega

/-- **Two headers that differ in their last byte only have different checksums.** -/
theorem headerChecksum_inj {b b' : Buf} (hsame : ∀ k, 14 ≤ k → k < 33 → b k = b' k)
    (h : headerChecksum b = headerChecksum b') : b 33 = b' 33 := by
  have hsum : headerSum b = headerSum b' := by
    simp only [headerSum, hsame 14 (by decide) (by decide), hsame 15 (by decide) (by decide),
      hsame 16 (by decide) (by decide), hsame 17 (by decide) (by decide),
      hsame 18 (by decide) (by decide), hsame 19 (by decide) (by decide),
      hsame 20 (by decide) (by decide), hsame 21 (by decide) (by decide),
      hsame 22 (by decide) (by decide), hsame 23 (by decide) (by decide),
      hsame 24 (by decide) (by decide), hsame 25 (by decide) (by decide),
      hsame 26 (by decide) (by decide), hsame 27 (by decide) (by decide),
      hsame 28 (by decide) (by decide), hsame 29 (by decide) (by decide),
      hsame 30 (by decide) (by decide), hsame 31 (by decide) (by decide)]
  rw [headerChecksum_eq, headerChecksum_eq, hsum, hsame 32 (by decide) (by decide)] at h
  exact finish_block_inj (headerSum_lt b') h

/-- Of the headers that differ in the last byte only, one passes the checksum test at most. -/
theorem last_eq_of_summed {b b' : Buf} (hsame : ∀ k < 33, b k = b' k)
    (h : headerChecksum (check.set b 0) = check.get b)
    (h' : headerChecksum (check.set b' 0) = check.get b') : b 33 = b' 33 := by
  have hcheck : check.get b = check.get b' :=
    ByteField.get_congr fun k hk => hsame k (lt_of_lt_of_le hk.2 (by decide))
  have heq := headerChecksum_inj (fun k _ hk => ByteField.set_congr fun _ => hsame k hk)
    (h.trans (hcheck.trans h'.symm))
  rwa [ByteField.set_of_not_covers (by decide), ByteField.set_of_not_covers (by decide)] at heq

/-- A header whose last byte is still free passes the checksum test with one value of it at most. -/
theorem not_summed_of_free {b : Buf} {frame : Bytes} (hlen : frame.length < 34)
    (h : headerChecksum (check.set (overwrite b frame) 0) = check.get (overwrite b frame)) :
    headerChecksum (check.set (overwrite (update b 33 (b 33 + 1)) frame) 0) ≠
      check.get (overwrite (update b 33 (b 33 + 1)) frame) := by
  intro h'
  have hlast (b : Buf) : overwrite b frame 33 = b 33 := overwrite_of_le (by omega)
  have heq := last_eq_of_summed (fun k hk => by rw [overwrite, overwrite, update_of_ne (by omega)]) h' h
  rw [hlast, hlast, update_self] at heq
  have hnat := congrArg UInt8.toNat heq
  have hlt := (b 33).toNat_lt
  rw [UInt8.toNat_add, show (1 : UInt8).toNat = 1 from rfl] at hnat
  omega

end Pcom.Tema1.Checksum
