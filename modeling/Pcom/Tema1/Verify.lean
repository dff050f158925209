import Mathlib.Data.List.GetD
import Pcom.Lib.OnesComplement
import Pcom.Tema1.Branches
import Pcom.Tema1.Checksum

/-!
# The checksums a receiver accepts

`ip_checksum` and `icmp_checksum` against the one's complement checksum of the messages they are taken over.

* `ipChecksum_complements` — `ip_checksum` of data at any address, of any length below 2³²;
* `verifies_summed` — an IPv4 header with the checksum the router puts in it is accepted;
* `verifies_icmpHdr` — so is an ICMP header built from nothing.
-/

namespace Pcom.Tema1.Verify

open Pcom.Lib.Ipv4 Pcom.Lib.Memory Pcom.Lib.OnesComplement Pcom.Lib.Scan Pcom.Tema1.Branches
  Pcom.Tema1.Checksum Pcom.Tema1.Skel Pcom.Tema1.Router

/-! ### `ip_checksum` -/

/-- A block of four bytes counts as two words. -/
theorem toNat_block (a b c d : UInt8) : (block 0 [a, b, c, d]).toNat =
    a.toNat * 2 ^ 24 + b.toNat * 2 ^ 16 + c.toNat * 2 ^ 8 + d.toNat := by
  have hword : block 0 [a, b, c, d] =
      (a.toBitVec ++ b.toBitVec ++ c.toBitVec ++ d.toBitVec).setWidth 64 :=
    congrArg (BitVec.setWidth 64) (swapBytes_append d.toBitVec c.toBitVec b.toBitVec a.toBitVec)
  have ha := a.toNat_lt
  have hb := b.toNat_lt
  have hc := c.toNat_lt
  have hd := d.toNat_lt
  rw [hword, BitVec.toNat_setWidth, toNat_append_eq, toNat_append_eq, toNat_append_eq]
  show (((a.toNat * 2 ^ 8 + b.toNat) * 2 ^ 8 + c.toNat) * 2 ^ 8 + d.toNat) % 2 ^ 64 = _
  omega

theorem toNat_add_block {acc : BitVec 64} (hacc : acc.toNat < 2 ^ 63) (a b c d : UInt8) :
    (acc + block 0 [a, b, c, d]).toNat =
      acc.toNat + (a.toNat * 2 ^ 24 + b.toNat * 2 ^ 16 + c.toNat * 2 ^ 8 + d.toNat) := by
  have hlt := toNat_block_lt 0 [a, b, c, d]
  rw [toNat_block] at hlt
  rw [BitVec.toNat_add, toNat_block]
  omega

/-- What `ip_checksum` does with the accumulator once all blocks are added. -/
def finishAt (offset : ℕ) (acc : BitVec 64) : BitVec 16 :=
  let acc := foldCarries 3 ((acc &&& 0xffffffff#64) + (acc >>> 32))
  htons ((~~~(if offset % 2 = 1 then swapHalves acc else acc)).setWidth 16)

/-- All blocks of the data, with the last one padded. -/
def addBlocks (data : Bytes) (acc : BitVec 64) : BitVec 64 :=
  if (fullBlocks data acc).2 = [] then (fullBlocks data acc).1
  else (fullBlocks data acc).1 + block 0 (fullBlocks data acc).2

/-- **The blocks add up to the words**, modulo 65535. -/
theorem addBlocks_sum (data : Bytes) {acc : BitVec 64}
    (hacc : acc.toNat + 2 ^ 32 * ((data.length + 3) / 4) < 2 ^ 63) :
    acc.toNat ≤ (addBlocks data acc).toNat ∧
      (addBlocks data acc).toNat % 65535 = (acc.toNat + onesSum data) % 65535 := by
  induction data, acc using fullBlocks.induct with
  | case1 b₀ b₁ b₂ b₃ data acc ih =>
    simp only [List.length_cons] at hacc
    have hadd := @toNat_add_block acc (by omega) b₀ b₁ b₂ b₃
    have hlt := toNat_block_lt 0 [b₀, b₁, b₂, b₃]
    rw [toNat_block] at hlt
    obtain ⟨hle, hmod⟩ := ih (by rw [hadd]; omega)
    have hsame : addBlocks (b₀ :: b₁ :: b₂ :: b₃ :: data) acc =
        addBlocks data (acc + block 0 [b₀, b₁, b₂, b₃]) := rfl
    rw [hsame]
    rw [hadd] at hle hmod
    refine ⟨by omega, hmod.trans ?_⟩
    rw [onesSum, onesSum]
    omega
  | case2 data acc hshort =>
    rcases data with _ | ⟨a, _ | ⟨b, _ | ⟨c, _ | ⟨d, data⟩⟩⟩⟩
    · exact ⟨Nat.le_refl _, rfl⟩
    · have hlast : addBlocks [a] acc = acc + block 0 [a, 0, 0, 0] := rfl
      rw [List.length_singleton] at hacc
      rw [hlast, toNat_add_block (by omega), onesSum, show (0 : UInt8).toNat = 0 from rfl]
      omega
    · have hlast : addBlocks [a, b] acc = acc + block 0 [a, b, 0, 0] := rfl
      rw [List.length_cons, List.length_singleton] at hacc
      rw [hlast, toNat_add_block (by omega), onesSum, onesSum, show (0 : UInt8).toNat = 0 from rfl]
      omega
    · have hlast : addBlocks [a, b, c] acc = acc + block 0 [a, b, c, 0] := rfl
      rw [List.length_cons, List.length_cons, List.length_singleton] at hacc
      rw [hlast, toNat_add_block (by omega), onesSum, onesSum, show (0 : UInt8).toNat = 0 from rfl]
      omega
    · exact (hshort a b c d data rfl).elim

/-- The first block, whatever it is. -/
theorem addBlocks_of_ne_nil {data : Bytes} (hne : data ≠ []) (acc : BitVec 64) :
    addBlocks data acc = addBlocks (data.drop 4) (acc + block 0 (data.take 4)) := by
  rcases data with _ | ⟨a, _ | ⟨b, _ | ⟨c, _ | ⟨d, data⟩⟩⟩⟩
  · exact absurd rfl hne
  · rfl
  · rfl
  · rfl
  · rfl

/-- A block that starts inside a word is a block with zeros in front. -/
theorem block_eq (offset : ℕ) (data : Bytes) : block offset data = block 0 (List.replicate offset 0 ++ data) := by
  have hbyte (i : ℕ) : (if i < offset then 0 else data.getD (i - offset) 0) =
      (List.replicate offset 0 ++ data).getD i 0 := by
    by_cases hi : i < offset
    · rw [if_pos hi, List.getD_append _ _ _ _ (by rwa [List.length_replicate]), List.getD_replicate _ hi]
    · rw [if_neg hi, List.getD_append_right _ _ _ _ (by rw [List.length_replicate]; omega),
        List.length_replicate]
  exact congrArg (fun b => (swapBytes ((le32 0).get b)).setWidth 64) (funext hbyte)

/-- **A partial block at the start** counts as if the data began with zeros at a multiple of 4. -/
theorem ipChecksum_eq (vdata : ℕ) (data : Bytes) : ipChecksum vdata data =
    finishAt (vdata % 4) (addBlocks (List.replicate (vdata % 4) 0 ++ data) 0xffff) := by
  by_cases hzero : vdata % 4 = 0
  · simp only [ipChecksum, hzero, if_true, List.drop_zero]
    rfl
  · have hfirst : addBlocks (List.replicate (vdata % 4) 0 ++ data) 0xffff =
        addBlocks (data.drop (4 - vdata % 4)) (0xffff + block (vdata % 4) (data.take (4 - vdata % 4))) := by
      have hne : List.replicate (vdata % 4) (0 : UInt8) ++ data ≠ [] := by
        intro hnil
        have hlen := congrArg List.length (List.append_eq_nil_iff.mp hnil).1
        rw [List.length_replicate] at hlen
        exact hzero hlen
      have hshort : (List.replicate (vdata % 4) (0 : UInt8)).length ≤ 4 := by
        rw [List.length_replicate]
        omega
      rw [addBlocks_of_ne_nil hne, block_eq (vdata % 4), List.take_append, List.drop_append,
        List.take_of_length_le hshort, List.drop_eq_nil_of_le hshort, List.length_replicate, List.nil_append]
    rw [hfirst, List.take_eq_take_min, List.drop_eq_drop_min]
    simp only [ipChecksum, hzero, if_false]
    rfl

/-- Data behind up to three zeros: moved by one byte if they are an odd number. -/
theorem onesSum_replicate {offset : ℕ} (hoff : offset < 4) (data : Bytes) :
    onesSum (List.replicate offset 0 ++ data) =
      if offset % 2 = 1 then onesSum (0 :: data) else onesSum data := by
  have hskip (msg : Bytes) : onesSum (0 :: 0 :: msg) = onesSum msg := by
    rw [onesSum, UInt8.toNat_zero]
    omega
  obtain rfl | rfl | rfl | rfl : offset = 0 ∨ offset = 1 ∨ offset = 2 ∨ offset = 3 := by omega
  · rfl
  · rfl
  · exact hskip data
  · exact hskip (0 :: data)

/-- The two bytes of a finished checksum, as they are stored, complement the sum. -/
theorem finishAt_complements {offset : ℕ} (hoff : offset < 4) {acc : BitVec 64} (hpos : 0 < acc.toNat)
    {data : Bytes} (hmod : acc.toNat % 65535 = onesSum (List.replicate offset 0 ++ data) % 65535) :
    Complements (byteOf (finishAt offset acc) 0) (byteOf (finishAt offset acc) 1) data := by
  have hlt := foldCarries_lt acc
  have hfold := (fold_mod acc).trans hmod
  have hpos := fold_pos hpos
  rw [onesSum_replicate hoff] at hfold
  rw [finishAt]
  generalize foldCarries 3 ((acc &&& 0xffffffff#64) + (acc >>> 32)) = a at hlt hfold hpos
  by_cases hodd : offset % 2 = 1
  · -- the swap multiplies by 256, which undoes the move by one byte
    have hshift := onesSum_shift data
    have hswap := toNat_swapHalves hlt
    rw [if_pos hodd] at hfold ⊢
    exact ⟨(swapHalves a).toNat, by omega, by omega, by omega, bytes_htons_not (by omega)⟩
  · rw [if_neg hodd] at hfold ⊢
    exact ⟨a.toNat, hpos, by omega, hfold, bytes_htons_not hlt⟩

/-- **`ip_checksum`** complements the sum of the data, at every address. -/
theorem ipChecksum_complements (vdata : ℕ) {data : Bytes} (hlen : data.length < 2 ^ 32) :
    Complements (byteOf (ipChecksum vdata data) 0) (byteOf (ipChecksum vdata data) 1) data := by
  have hoff : vdata % 4 < 4 := Nat.mod_lt vdata (by decide)
  have hstart : (0xffff : BitVec 64).toNat = 65535 := rfl
  obtain ⟨hle, hmod⟩ := @addBlocks_sum (List.replicate (vdata % 4) 0 ++ data) 0xffff
    (by rw [List.length_append, List.length_replicate, hstart]; omega)
  rw [ipChecksum_eq]
  refine finishAt_complements hoff (by omega) (hmod.trans ?_)
  rw [hstart]
  omega

/-- **The header of a packet is accepted** once its checksum has been computed over a zero field. -/
theorem verifies_summed {b : Buf} (h24 : b 24 = 0) (h25 : b 25 = 0) {k : ℕ} (hlo : 14 ≤ k) (hhi : k < 34)
    (hne : b k ≠ 0) : Verifies (bytes (check.set b (headerChecksum b)) 14 20) := by
  have hzeroed : bytes b 14 20 = bytes b 14 10 ++ 0 :: 0 :: bytes b 26 8 := by
    rw [show (20 : ℕ) = 10 + (2 + 8) from rfl, bytes_add, bytes_add]
    show _ ++ ([b 24, b 25] ++ _) = _
    rw [h24, h25]
    rfl
  have hset : bytes (check.set b (headerChecksum b)) 14 20 = bytes b 14 10 ++
      byteOf (headerChecksum b) 0 :: byteOf (headerChecksum b) 1 :: bytes b 26 8 :=
    bytes_set_le16 b 14 10 8 (headerChecksum b)
  have hsum := @ipChecksum_complements 18 (bytes b 14 20) (by rw [length_bytes]; decide)
  rw [hset]
  rw [hzeroed] at hsum
  refine verifies_of_complements (by rw [length_bytes]) (by rw [length_bytes]) ?_ ?_
  · rw [← hzeroed] at hsum ⊢
    exact hsum
  · rw [← hzeroed, ne_eq, onesSum_eq_zero_iff]
    intro hall
    obtain ⟨i, rfl⟩ := Nat.exists_eq_add_of_le hlo
    exact hne (hall _ (List.mem_map_of_mem (List.mem_range.mpr (by omega))))

/-! ### Headers built from nothing -/

/-- The header of an ICMP message in front of its checksum. -/
def icmpIpHdrStart : Bytes :=
  [0x45, 0] ++ word (htons 28) ++ word (htons 1) ++ word (0 : BitVec 16) ++ [64, IPPROTO_ICMP]

/-- The header of an ICMP message the router originates is accepted. -/
theorem verifies_icmpIpHdr (daddr saddr : BitVec 32) : Verifies (icmpIpHdr daddr saddr) := by
  have hstart : icmpIpHdrStart.length = 10 := rfl
  have hend : (word saddr ++ word daddr).length = 8 := by
    rw [List.length_append, length_word, length_word]
  have hsum := @ipChecksum_complements 0 (icmpIpHdrStart ++ 0 :: 0 :: (word saddr ++ word daddr))
    (by rw [List.length_append, List.length_cons, List.length_cons, hstart, hend]; decide)
  have hhdr : icmpIpHdr daddr saddr = icmpIpHdrStart ++
      byteOf (ipChecksum 0 (icmpIpHdrStart ++ 0 :: 0 :: (word saddr ++ word daddr))) 0 ::
        byteOf (ipChecksum 0 (icmpIpHdrStart ++ 0 :: 0 :: (word saddr ++ word daddr))) 1 ::
          (word saddr ++ word daddr) := rfl
  rw [hhdr]
  refine verifies_of_complements (by rw [hstart]) (by rw [hend]) hsum ?_
  rw [ne_eq, onesSum_eq_zero_iff]
  intro hall
  exact absurd (hall 0x45 List.mem_cons_self) (by decide)

/-- The folding of `icmp_checksum`, twice and no more. -/
theorem toNat_icmpChecksum (b : Buf) (size : ℕ) : (icmpChecksum b size).toNat =
    65535 - foldOnce (foldOnce (icmpSum b 0 size 0).toNat) % 65536 := by
  rw [icmpChecksum]
  generalize icmpSum b 0 size 0 = sum
  have hlt := sum.isLt
  have hturn : ((sum >>> 16) + (sum &&& 0xffff#64)).toNat = foldOnce sum.toNat := by
    rw [BitVec.add_comm, toNat_turn, foldOnce]
    omega
  have hsmall : foldOnce sum.toNat < 2 ^ 49 := by
    rw [foldOnce]
    omega
  show ((~~~((sum >>> 16) + (sum &&& 0xffff#64) + ((sum >>> 16) + (sum &&& 0xffff#64)) >>> 16)).setWidth 16 :
    BitVec 16).toNat = _
  generalize (sum >>> 16) + (sum &&& 0xffff#64) = c at hturn
  have hcarry : (c + (c >>> 16)).toNat = c.toNat + c.toNat / 2 ^ 16 := by
    rw [BitVec.toNat_add, BitVec.toNat_ushiftRight, Nat.shiftRight_eq_div_pow]
    omega
  rw [BitVec.toNat_setWidth, BitVec.toNat_not, hcarry, ← hturn, foldOnce]
  omega

/-- A word that is loaded, as a number. -/
theorem toNat_load (off : ℕ) (b : Buf) :
    (((le16 off).get b).setWidth 64 : BitVec 64).toNat = (b off).toNat + 256 * (b (off + 1)).toNat := by
  have hlow := (b off).toNat_lt
  have hhigh := (b (off + 1)).toNat_lt
  rw [BitVec.toNat_setWidth]
  show ((b (off + 1)).toBitVec ++ (b off).toBitVec).toNat % 2 ^ 64 = _
  rw [toNat_append_eq]
  show ((b (off + 1)).toNat * 2 ^ 8 + (b off).toNat) % 2 ^ 64 = _
  omega

theorem toNat_bytes (w : BitVec 16) : (byteOf w 0).toNat + 256 * (byteOf w 1).toNat = w.toNat := by
  have hlt := w.isLt
  rw [toNat_byteOf, toNat_byteOf]
  omega

/-- The sum `icmp_checksum` takes, as a number: for an odd size the last word ends beyond the size. -/
theorem toNat_icmpSum (b : Buf) (off size : ℕ) {acc : BitVec 64} (hacc : acc.toNat + 2 ^ 16 * size < 2 ^ 64) :
    (icmpSum b off size acc).toNat = acc.toNat + nativeSum (bytes b off (size + size % 2)) := by
  have hword (k : ℕ) : (b k).toNat + 256 * (b (k + 1)).toNat < 2 ^ 16 := by
    have hlow := (b k).toNat_lt
    have hhigh := (b (k + 1)).toNat_lt
    omega
  induction off, size, acc using icmpSum.induct with
  | buffer => exact b
  | case1 off acc => rfl
  | case2 off acc =>
    have hlast := hword off
    rw [icmpSum, BitVec.toNat_add, toNat_load, Nat.mod_eq_of_lt (by omega)]
    show _ = acc.toNat + ((b off).toNat + 256 * (b (off + 1)).toNat + 0)
    omega
  | case3 off size acc ih =>
    have hfirst := hword off
    have hadd : (acc + ((le16 off).get b).setWidth 64).toNat =
        acc.toNat + ((b off).toNat + 256 * (b (off + 1)).toNat) := by
      rw [BitVec.toNat_add, toNat_load, Nat.mod_eq_of_lt (by omega)]
    have hsplit : bytes b off (size + 2 + (size + 2) % 2) =
        b off :: b (off + 1) :: bytes b (off + 2) (size + size % 2) := by
      rw [show size + 2 + (size + 2) % 2 = 2 + (size + size % 2) by omega, bytes_add]
      rfl
    rw [icmpSum, ih (by rw [hadd]; omega), hadd, hsplit, nativeSum]
    omega

/-- **An ICMP header built from nothing is accepted**, whatever is put in it. -/
theorem verifies_icmpHdr (type code : UInt8) (id sequence : BitVec 16) :
    Verifies (icmpHdr type code id sequence) := by
  let b : Buf := ofBytes ([type, code] ++ word (0 : BitVec 16) ++ word id ++ word sequence)
  have htype := type.toNat_lt
  have hcode := code.toNat_lt
  have hi0 := (byteOf id 0).toNat_lt
  have hi1 := (byteOf id 1).toNat_lt
  have hs0 := (byteOf sequence 0).toNat_lt
  have hs1 := (byteOf sequence 1).toNat_lt
  have hsum : (icmpSum b 0 8 0).toNat = 0 + (type.toNat + 256 * code.toNat + (0 + 256 * 0 +
      ((byteOf id 0).toNat + 256 * (byteOf id 1).toNat +
        ((byteOf sequence 0).toNat + 256 * (byteOf sequence 1).toNat + 0)))) :=
    toNat_icmpSum b 0 8 (show 0 + 2 ^ 16 * 8 < 2 ^ 64 by decide)
  have hword : (byteOf (icmpChecksum b 8) 0).toNat + 256 * (byteOf (icmpChecksum b 8) 1).toNat =
      65535 - foldOnce (foldOnce (icmpSum b 0 8 0).toNat) % 65536 :=
    (toNat_bytes _).trans (toNat_icmpChecksum b 8)
  have hmsg : onesSum (icmpHdr type code id sequence) = 256 * type.toNat + code.toNat +
      (256 * (byteOf (icmpChecksum b 8) 0).toNat + (byteOf (icmpChecksum b 8) 1).toNat +
        (256 * (byteOf id 0).toNat + (byteOf id 1).toNat +
          (256 * (byteOf sequence 0).toNat + (byteOf sequence 1).toNat + 0))) := rfl
  rw [verifies_iff, hmsg]
  generalize (byteOf (icmpChecksum b 8) 0).toNat = c0 at hword ⊢
  generalize (byteOf (icmpChecksum b 8) 1).toNat = c1 at hword ⊢
  generalize (icmpSum b 0 8 0).toNat = sum at hsum hword
  have hfold := foldOnce_foldOnce_lt (show sum < 2 ^ 32 by omega)
  have hmod := (foldOnce_mod (foldOnce sum)).trans (foldOnce_mod sum)
  have hzero : foldOnce (foldOnce sum) = 0 ↔ sum = 0 := foldOnce_eq_zero_iff.trans foldOnce_eq_zero_iff
  rw [Nat.mod_eq_of_lt hfold] at hword
  generalize foldOnce (foldOnce sum) = f at hword hfold hmod hzero
  -- 256 times the sum of the loaded words is the sum of the words of the message, modulo 65535
  have hdvd : (sum + (65535 - f)) % 65535 = 0 := by omega
  obtain ⟨q, hq⟩ := Nat.dvd_of_mod_eq_zero hdvd
  constructor
  · omega
  · omega

end Pcom.Tema1.Verify
