import Pcom.Tema1.Echo

/-!
# The IPv4 headers the router accepts

`main` zeroes the checksum field, computes the checksum over `sizeof(struct iphdr)` bytes and compares it with
the one received.

* `summed_iff` — **what the comparison tests**: the first 20 bytes add up to all ones, and the checksum is not
  the representation `0xFFFF` of zero;
* `passes_iff` — hence a frame gets past the test exactly when its first 20 header bytes are valid, whatever
  the length of its header;
* `options_and_all_ones_dropped` — a valid header with options is dropped, and so is one whose checksum is
  written `0xFFFF`.
-/

namespace Pcom.Tema1.Acceptance

open Pcom.Lib.Memory Pcom.Lib.OnesComplement Pcom.Lib.Scan Pcom.Tema1.Branches Pcom.Tema1.Echo
  Pcom.Tema1.Route Pcom.Tema1.Router Pcom.Tema1.Skel Pcom.Tema1.Verify

/-! ### Frames -/

/-- `ihl`: the length of the header in 32-bit words. -/
def ihl (frame : Bytes) : ℕ := (ofBytes frame 14).toNat % 16

/-- The frame is an IPv4 frame long enough for its header. -/
structure Ipv4Frame (i : Input) : Prop where
  type : etherType.get (ofBytes i.frame) = htons ETHERTYPE_IP
  minimal : 5 ≤ ihl i.frame
  whole : 14 + 4 * ihl i.frame ≤ i.frame.length

/-- The frame gets past the checksum test: it is the one test that drops a frame without sending anything. -/
def Passes (cfg : Config) (s : State) (i : Input) : Prop :=
  ∃ s' out, step cfg s i = some (s', out) ∧ out ≠ []

/-! ### The comparison -/

theorem bytes_header (b : Buf) : bytes b 14 20 = bytes b 14 10 ++ b 24 :: b 25 :: bytes b 26 8 := by
  rw [show (20 : ℕ) = 10 + (2 + 8) from rfl, bytes_add, bytes_add]
  rfl

theorem bytes_header_zeroed (b : Buf) :
    bytes (check.set b 0) 14 20 = bytes b 14 10 ++ 0 :: 0 :: bytes b 26 8 :=
  bytes_set_le16 b 14 10 8 0

/-- The word of two bytes, high byte first. -/
theorem check_eq_iff (b : Buf) (w : BitVec 16) : w = check.get b ↔
    256 * (byteOf w 0).toNat + (byteOf w 1).toNat = 256 * (b 24).toNat + (b 25).toNat := by
  constructor
  · rintro rfl
    rw [check, byteOf_le16 24 b (by decide), byteOf_le16 24 b (by decide)]
  · intro h
    have h24 := (b 24).toNat_lt
    have h25 := (b 25).toNat_lt
    have h0 := (byteOf w 0).toNat_lt
    have h1 := (byteOf w 1).toNat_lt
    have hhigh : b 24 = byteOf w 0 := UInt8.toNat_inj.mp (by omega)
    have hlow : b 25 = byteOf w 1 := UInt8.toNat_inj.mp (by omega)
    exact (le16_get_eq hhigh hlow).symm

/-- **What the comparison tests.** -/
theorem summed_iff {b : Buf} (hne : b 14 ≠ 0) :
    Summed b ↔ Verifies (bytes b 14 20) ∧ check.get b ≠ 0xffff := by
  have hsum := @ipChecksum_complements 18 (bytes (check.set b 0) 14 20) (by rw [length_bytes]; decide)
  obtain ⟨sum, hpos, hle, hmod, hword⟩ := hsum
  have heven : (bytes b 14 10).length % 2 = 0 := by rw [length_bytes]
  have hnonzero : onesSum (bytes b 14 20) ≠ 0 := by
    rw [ne_eq, onesSum_eq_zero_iff]
    intro hall
    exact hne (hall _ (List.mem_map_of_mem (f := fun i => b (14 + i)) (List.mem_range.mpr (by decide : 0 < 20))))
  have hones : (0xffff : BitVec 16) = check.get b ↔ 65535 = 256 * (b 24).toNat + (b 25).toNat :=
    check_eq_iff b 0xffff
  rw [Summed, headerChecksum, check_eq_iff, hword, ne_comm, ne_eq, hones, verifies_iff, and_iff_right hnonzero,
    bytes_header, onesSum_fill heven, ← bytes_header_zeroed]
  have h24 := (b 24).toNat_lt
  have h25 := (b 25).toNat_lt
  omega

/-! ### The frames that pass -/

/-- Behind the checksum test every branch sends something. -/
theorem passes_iff_summed (cfg : Config) {s : State} {i : Input}
    (htype : etherType.get (getPacket s i).m.payload = htons ETHERTYPE_IP) :
    Passes cfg s i ↔ Summed (getPacket s i).m.payload := by
  have hnot : ¬ etherType.get (getPacket s i).m.payload = htons ETHERTYPE_ARP := by
    rw [htype]
    decide
  have hstep : step cfg s i = onIpv4 cfg (getPacket s i) := by
    simp only [step, if_neg hnot, if_pos htype]
  rw [Passes, hstep, onIpv4_eq]
  by_cases hsum : Summed (getPacket s i).m.payload
  · rw [if_neg (not_not.mpr hsum), iff_true_right hsum]
    split
    · exact ⟨_, _, rfl, by simp⟩
    split
    · exact ⟨_, _, rfl, by simp⟩
    split
    · exact ⟨_, _, rfl, by simp⟩
    split
    · rw [enqueue_eq]
      exact ⟨_, _, rfl, by simp⟩
    · exact ⟨_, _, rfl, by simp⟩
  · rw [if_pos hsum, iff_false_right hsum]
    rintro ⟨s', out, hout, hne⟩
    obtain ⟨-, rfl⟩ := Prod.mk.inj (Option.some.inj hout)
    exact hne rfl

theorem Ipv4Frame.first_ne_zero {i : Input} (h : Ipv4Frame i) : ofBytes i.frame 14 ≠ 0 := by
  intro h0
  have hmin := h.minimal
  rw [ihl, h0] at hmin
  exact absurd hmin (by decide)

/-- A frame passes by its own bytes. -/
theorem Ipv4Frame.passes_iff_summed {i : Input} (h : Ipv4Frame i) (cfg : Config) (s : State) :
    Passes cfg s i ↔ Summed (ofBytes i.frame) := by
  have hlen : 34 ≤ i.frame.length := by
    have hmin := h.minimal
    have hwhole := h.whole
    omega
  have hread := read_of_length hlen (by decide) s
  have hsame : ∀ k, 14 ≤ k → k < 34 → (getPacket s i).m.payload k = ofBytes i.frame k :=
    fun k _ hk => hread k hk
  have htype : etherType.get (getPacket s i).m.payload = htons ETHERTYPE_IP :=
    (ByteField.get_congr fun k hk => hread k (lt_of_lt_of_le hk.2 (by decide))).trans h.type
  rw [Acceptance.passes_iff_summed cfg htype, Summed, headerChecksum_congr hsame, check_congr hsame, Summed]

/-- **The frames that pass**, for every length of the header. -/
theorem passes_iff {i : Input} (h : Ipv4Frame i) (hrep : check.get (ofBytes i.frame) ≠ 0xffff)
    (cfg : Config) (s : State) : Passes cfg s i ↔ Verifies (bytes (ofBytes i.frame) 14 20) := by
  rw [h.passes_iff_summed, summed_iff h.first_ne_zero, and_iff_left hrep]

/-- The echo request with TTL 64 passes. -/
theorem echoRequest_passes : Passes echoConfig sampleInit (echoRequest 64) :=
  (passes_iff ⟨by decide +kernel, by decide +kernel, by decide +kernel⟩ (by decide +kernel)
    echoConfig sampleInit).mpr ((verifies_iff _).mpr (by decide +kernel))

/-! ### Valid headers that are dropped -/

/-- An echo request whose identification makes the other words of its header add up to a multiple of 65535. -/
def allOnesRequest : Input where
  interface := 1
  frame := buildEthhdr (Vector.replicate 6 0x30) (Vector.replicate 6 0xa1) (htons ETHERTYPE_IP) ++
    ([0x45, 0] ++ word (htons 28) ++ word (htons 0x52df) ++ word (0 : BitVec 16) ++ [64, IPPROTO_ICMP] ++
      word (0xffff : BitVec 16) ++ word (0x0100001e : BitVec 32) ++ word (0x0200000a : BitVec 32))
  stack := none

theorem optionsRequest_ipv4 : Ipv4Frame optionsRequest :=
  ⟨by decide +kernel, by decide +kernel, by decide +kernel⟩

theorem allOnesRequest_ipv4 : Ipv4Frame allOnesRequest :=
  ⟨by decide +kernel, by decide +kernel, by decide +kernel⟩

/-- The header is valid, and the frame is dropped. -/
structure Refused (i : Input) : Prop where
  ipv4 : Ipv4Frame i
  valid : Verifies (bytes (ofBytes i.frame) 14 (4 * ihl i.frame))
  dropped : ¬ Passes echoConfig sampleInit i

/-- **Valid headers that are dropped**: one with options, and one whose checksum is written `0xFFFF`. -/
theorem options_and_all_ones_dropped : Refused optionsRequest ∧ Refused allOnesRequest := by
  constructor
  · refine ⟨optionsRequest_ipv4, (verifies_iff _).mpr (by decide +kernel), ?_⟩
    rw [optionsRequest_ipv4.passes_iff_summed]
    decide +kernel
  · refine ⟨allOnesRequest_ipv4, (verifies_iff _).mpr (by decide +kernel), ?_⟩
    rw [allOnesRequest_ipv4.passes_iff_summed]
    decide +kernel

end Pcom.Tema1.Acceptance
