import Pcom.Tema1.Acceptance
import Pcom.Tema1.Alignment

/-!
# Two tests of a header checksum

The routers of `Tema1` and `pc pirvu` set the checksum field to zero, compute the checksum and compare it with the
one received; the router of `Lab04` computes it over the header as it is and expects zero.  The IPv4 header stands
behind the Ethernet header of a packet whose address is arbitrary.

* `recomputed_iff`, `zeroSum_iff` — what each of them tests, in plain arithmetic;
* `tests_agree_iff` — **the exact condition** for the two to agree: the field is not `0xFFFF`, or the rest of the
  header does not add up to nothing.
-/

namespace Pcom.Lab04.HeaderTest

open Pcom.Lib.Memory Pcom.Lib.OnesComplement Pcom.Tema1.Acceptance Pcom.Tema1.Alignment Pcom.Tema1.Skel

/-- `newSum == currSum`, for a header at the address `ipHdr`. -/
def Recomputed (ipHdr : ℕ) (payload : Buf) : Prop :=
  let currSum := check.get payload
  let payload := check.set payload 0
  let newSum := ipChecksum ipHdr (bytes payload 14 20)
  newSum = currSum

/-- `ip_checksum(ip_hdr, sizeof(struct iphdr)) == 0`. -/
def ZeroSum (ipHdr : ℕ) (payload : Buf) : Prop := ipChecksum ipHdr (bytes payload 14 20) = 0

/-- The other words of the header. -/
def restSum (payload : Buf) : ℕ := onesSum (bytes (check.set payload 0) 14 20)

/-- The checksum field, as it is sent. -/
def field (payload : Buf) : ℕ := 256 * (payload 24).toNat + (payload 25).toNat

theorem onesSum_header (payload : Buf) : onesSum (bytes payload 14 20) = restSum payload + field payload := by
  have heven : (bytes payload 14 10).length % 2 = 0 := by rw [length_bytes]
  rw [restSum, bytes_header_zeroed, bytes_header, onesSum_fill heven]
  rfl

/-- **What the first test tests**: the header adds up to nothing, and the field is not all ones. -/
theorem recomputed_iff (ipHdr : ℕ) (payload : Buf) :
    Recomputed ipHdr payload ↔ (restSum payload + field payload) % 65535 = 0 ∧ field payload ≠ 65535 := by
  have hlen : (bytes (check.set payload 0) 14 20).length < 2 ^ 32 := by
    rw [length_bytes]
    decide
  obtain ⟨f, ⟨hpos, hle, hmod⟩, hword⟩ := networkWord_ipChecksum ipHdr hlen
  have hsame : Recomputed ipHdr payload ↔ 65535 - f = field payload := by
    rw [← hword]
    exact check_eq_iff payload _
  have h24 := (payload 24).toNat_lt
  have h25 := (payload 25).toNat_lt
  rw [hsame, restSum, field]
  generalize onesSum (bytes (check.set payload 0) 14 20) = sum at hmod
  omega

/-- **What the second test tests**: the header adds up to nothing. -/
theorem zeroSum_iff (ipHdr : ℕ) (payload : Buf) :
    ZeroSum ipHdr payload ↔ (restSum payload + field payload) % 65535 = 0 := by
  have hlen : (bytes payload 14 20).length < 2 ^ 32 := by
    rw [length_bytes]
    decide
  obtain ⟨f, ⟨hpos, hle, hmod⟩, hword⟩ := networkWord_ipChecksum ipHdr hlen
  have hzero : networkWord (ipChecksum ipHdr (bytes payload 14 20)) = networkWord 0 ↔ ZeroSum ipHdr payload :=
    ⟨networkWord_inj, fun h => congrArg networkWord h⟩
  rw [← hzero, hword, ← onesSum_header, ← hmod]
  show 65535 - f = 0 ↔ _
  omega

/-- **When the two tests agree.** -/
theorem tests_agree_iff (ipHdr : ℕ) (payload : Buf) :
    (Recomputed ipHdr payload ↔ ZeroSum ipHdr payload) ↔
      ¬ (check.get payload = 0xffff ∧ onesSum (bytes (check.set payload 0) 14 20) % 65535 = 0) := by
  have hones : check.get payload = 0xffff ↔ field payload = 65535 :=
    eq_comm.trans ((check_eq_iff payload 0xffff).trans eq_comm)
  have hlt : field payload < 65536 := by
    have h24 := (payload 24).toNat_lt
    have h25 := (payload 25).toNat_lt
    rw [field]
    omega
  rw [recomputed_iff, zeroSum_iff, hones, ← restSum]
  omega

/-- **A header whose checksum is written `0xFFFF`** is refused by the first test and accepted by the second. -/
theorem all_ones_disagree :
    ¬ ∀ (ipHdr : ℕ) (payload : Buf), Recomputed ipHdr payload ↔ ZeroSum ipHdr payload := by
  intro h
  have hzero : ZeroSum 18 (ofBytes allOnesRequest.frame) := (zeroSum_iff 18 _).mpr (by decide +kernel)
  exact ((recomputed_iff 18 _).mp ((h 18 _).mpr hzero)).2 (by decide +kernel)

end Pcom.Lab04.HeaderTest
