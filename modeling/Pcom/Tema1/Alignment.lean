import Pcom.Tema1.Verify

/-!
# `ip_checksum` at every address

The routine adds a partial block up to the next multiple of 4, then complete blocks of four bytes, then what is
left.  The carries of all these additions are folded back in the end, and for data at an odd address the two
bytes of the sum are swapped.  The routine stands word for word in `pc pirvu/skel.c` too, and in `Lab05/utils.c`
as `checksum`.

* `ipChecksum_summands` — the accumulator is the sum of the blocks (`summands`);
* `exact_summands` — none of the additions overflows;
* `ipChecksum_internet` — **`ip_checksum` is the Internet checksum**, wherever the data is stored.
-/

namespace Pcom.Tema1.Alignment

open Pcom.Lib.Memory Pcom.Lib.OnesComplement Pcom.Lib.Scan Pcom.Tema1.Checksum Pcom.Tema1.Skel Pcom.Tema1.Verify

/-! ### The blocks -/

/-- The complete 32-bit blocks of the data, and the partial block at its end. -/
def blocks : Bytes → List (BitVec 64)
  | b₀ :: b₁ :: b₂ :: b₃ :: data => block 0 [b₀, b₁, b₂, b₃] :: blocks data
  | [] => []
  | data => [block 0 data]

/-- What is added to the accumulator, in this order. -/
def summands (vdata : ℕ) (data : Bytes) : List (BitVec 64) :=
  let offset := vdata % 4
  let count := min (4 - offset) data.length
  if offset = 0 then blocks data else block offset (data.take count) :: blocks (data.drop count)

/-- The accumulator once these blocks are added. -/
def accumulate (xs : List (BitVec 64)) : BitVec 64 := xs.foldl (· + ·) 0xffff

theorem foldl_blocks (data : Bytes) (acc : BitVec 64) :
    (blocks data).foldl (· + ·) acc = addBlocks data acc := by
  induction data, acc using fullBlocks.induct with
  | case1 b₀ b₁ b₂ b₃ data acc ih => exact ih
  | case2 data acc hshort =>
    rcases data with _ | ⟨a, _ | ⟨b, _ | ⟨c, _ | ⟨d, data⟩⟩⟩⟩
    · rfl
    · rfl
    · rfl
    · rfl
    · exact (hshort a b c d data rfl).elim

theorem ipChecksum_summands (vdata : ℕ) (data : Bytes) :
    ipChecksum vdata data = finishAt (vdata % 4) (accumulate (summands vdata data)) := by
  by_cases hzero : vdata % 4 = 0
  · rw [ipChecksum_eq, accumulate, summands, if_pos hzero, foldl_blocks, hzero]
    rfl
  · rw [accumulate, summands, if_neg hzero, List.foldl_cons, foldl_blocks]
    simp only [ipChecksum, hzero, if_false]
    rfl

/-! ### No overflow -/

/-- None of the additions to the accumulator overflows. -/
def Exact (xs : List (BitVec 64)) : Prop :=
  ∀ before x after, xs = before ++ x :: after → (accumulate before).toNat + x.toNat < 2 ^ 64

theorem lt_of_mem_blocks {data : Bytes} {x : BitVec 64} (hx : x ∈ blocks data) : x.toNat < 2 ^ 32 := by
  induction data using blocks.induct with
  | case1 b₀ b₁ b₂ b₃ data ih =>
    rcases List.mem_cons.mp hx with rfl | hx
    · exact toNat_block_lt 0 _
    · exact ih hx
  | case2 => cases hx
  | case3 data hshort hne =>
    rw [blocks] at hx
    · rw [List.mem_singleton.mp hx]
      exact toNat_block_lt 0 data
    · exact hshort
    · exact hne

theorem length_blocks_le (data : Bytes) : 4 * (blocks data).length ≤ data.length + 3 := by
  induction data using blocks.induct with
  | case1 b₀ b₁ b₂ b₃ data ih =>
    rw [blocks]
    simp only [List.length_cons]
    omega
  | case2 => exact Nat.zero_le 3
  | case3 data hshort hne =>
    have hpos : 0 < data.length := List.length_pos_iff.mpr hne
    rw [blocks]
    · rw [List.length_singleton]
      omega
    · exact hshort
    · exact hne

theorem lt_of_mem_summands {vdata : ℕ} {data : Bytes} {x : BitVec 64} (hx : x ∈ summands vdata data) :
    x.toNat < 2 ^ 32 := by
  rw [summands] at hx
  split at hx
  · exact lt_of_mem_blocks hx
  · rcases List.mem_cons.mp hx with rfl | hx
    · exact toNat_block_lt _ _
    · exact lt_of_mem_blocks hx

theorem length_summands_le (vdata : ℕ) (data : Bytes) : 4 * (summands vdata data).length ≤ data.length + 7 := by
  have hall := length_blocks_le data
  have hrest := length_blocks_le (data.drop (min (4 - vdata % 4) data.length))
  rw [List.length_drop] at hrest
  rw [summands]
  split
  · omega
  · rw [List.length_cons]
    omega

/-- A sum of small blocks stays below what it can count. -/
theorem accumulate_le {xs : List (BitVec 64)} (hsmall : ∀ x ∈ xs, x.toNat < 2 ^ 32) :
    (accumulate xs).toNat ≤ 65535 + 2 ^ 32 * xs.length := by
  induction xs using List.reverseRecOn with
  | nil => exact Nat.le_refl _
  | append_singleton xs x ih =>
    have hsum : accumulate (xs ++ [x]) = accumulate xs + x := by
      rw [accumulate, List.foldl_append]
      rfl
    have hprev := ih fun y hy => hsmall y (List.mem_append_left [x] hy)
    have hlast := hsmall x (List.mem_append_right xs List.mem_cons_self)
    have hmod := Nat.mod_le ((accumulate xs).toNat + x.toNat) (2 ^ 64)
    rw [hsum, BitVec.toNat_add, List.length_append, List.length_singleton]
    omega

/-- **No overflow**: a block for every four bytes is too few for 64 bits. -/
theorem exact_summands (vdata : ℕ) {data : Bytes} (hlen : data.length < 2 ^ 32) :
    Exact (summands vdata data) := by
  intro before x after hcut
  have hsmall (y : BitVec 64) (hy : y ∈ summands vdata data) := lt_of_mem_summands hy
  have hcount := length_summands_le vdata data
  rw [hcut] at hsmall hcount
  have hx := hsmall x (List.mem_append_right before List.mem_cons_self)
  have hsum := accumulate_le fun y hy => hsmall y (List.mem_append_left (x :: after) hy)
  rw [List.length_append, List.length_cons] at hcount
  omega

/-! ### The checksum -/

/-- The two bytes of a word as they are stored, read big-endian. -/
def networkWord (w : BitVec 16) : ℕ := 256 * (byteOf w 0).toNat + (byteOf w 1).toNat

theorem networkWord_inj {w w' : BitVec 16} (h : networkWord w = networkWord w') : w = w' := by
  have hw := toNat_bytes w
  have hw' := toNat_bytes w'
  have h0 := (byteOf w 0).toNat_lt
  have h1 := (byteOf w 1).toNat_lt
  have h0' := (byteOf w' 0).toNat_lt
  have h1' := (byteOf w' 1).toNat_lt
  rw [networkWord, networkWord] at h
  exact BitVec.eq_of_toNat_eq (by omega)

/-- The carry loop has come to its end. -/
def Carried (acc : BitVec 64) : Prop := foldCarries 3 ((acc &&& 0xffffffff#64) + (acc >>> 32)) >>> 16 = 0

theorem carried (acc : BitVec 64) : Carried acc := by
  have hlt := foldCarries_lt acc
  refine BitVec.eq_of_toNat_eq ?_
  rw [BitVec.toNat_ushiftRight, Nat.shiftRight_eq_div_pow, Nat.div_eq_of_lt hlt]
  rfl

/-- How the checksum of the data at an address comes about, for a folded sum `f`. -/
structure Computed (vdata : ℕ) (data : Bytes) (f : ℕ) : Prop where
  sum : ipChecksum vdata data = finishAt (vdata % 4) (accumulate (summands vdata data))
  exact_ : Exact (summands vdata data)
  carried : Carried (accumulate (summands vdata data))
  value : networkWord (ipChecksum vdata data) = 0xFFFF - f

/-- The value of the checksum is the complement of the folded sum. -/
theorem networkWord_ipChecksum (vdata : ℕ) {data : Bytes} (hlen : data.length < 2 ^ 32) :
    ∃ f, FoldsTo (onesSum data) f ∧ networkWord (ipChecksum vdata data) = 0xFFFF - f := by
  obtain ⟨f, hpos, hle, hmod, hword⟩ := ipChecksum_complements vdata hlen
  exact ⟨f, ⟨hpos, hle, hmod⟩, hword⟩

/-- **`ip_checksum` is the Internet checksum** of the data, at every address. -/
theorem ipChecksum_internet {data : Bytes} (hlen : data.length < 2 ^ 32) :
    (∃! f, FoldsTo (onesSum data) f) ∧
      (∀ f, FoldsTo (onesSum data) f → ∀ vdata, Computed vdata data f) ∧
        ∀ vdata vdata', ipChecksum vdata data = ipChecksum vdata' data := by
  have hvalue (vdata f : ℕ) (hf : FoldsTo (onesSum data) f) :
      networkWord (ipChecksum vdata data) = 0xFFFF - f := by
    obtain ⟨f', hf', hword⟩ := networkWord_ipChecksum vdata hlen
    rw [hword, hf.unique hf']
  obtain ⟨f, hf, -⟩ := networkWord_ipChecksum 0 hlen
  refine ⟨⟨f, hf, fun f' hf' => hf'.unique hf⟩, fun f hf vdata => ?_, fun vdata vdata' => ?_⟩
  · exact ⟨ipChecksum_summands vdata data, exact_summands vdata hlen, carried _, hvalue vdata f hf⟩
  · exact networkWord_inj ((hvalue vdata f hf).trans (hvalue vdata' f hf).symm)

/-- Three bytes at an odd address. -/
theorem threeBytes_internet : Computed 3 [0x45, 0x01, 0x20] 0x6501 :=
  (ipChecksum_internet (by decide)).2.1 0x6501 ⟨by decide, by decide, by decide⟩ 3

end Pcom.Tema1.Alignment
