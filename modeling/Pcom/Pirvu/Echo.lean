import Pcom.Pirvu.Frames
import Pcom.Tema1.Verify

/-!
# The echo reply of the trie router

`sendICMPReply` rewrites the request in place: it swaps the IPv4 addresses but not the Ethernet addresses, and
takes the ICMP checksum over the header of eight bytes, while the message goes on with the data.

* `handle_passed` — a request that passes all tests is answered with one frame;
* `get_reply`, `bytes_reply` — everything else is kept;
* `header_verifies`, `message_verifies_iff` — the IPv4 header is always accepted, the ICMP message exactly when
  the data adds nothing;
* `validReply_iff` — **the exact condition** for the reply to be a valid answer.
-/

namespace Pcom.Pirvu.Echo

open Function Pcom.Lib.Memory Pcom.Lib.OnesComplement Pcom.Lib.Scan Pcom.Pirvu.Frames Pcom.Pirvu.RTable
  Pcom.Pirvu.Router
open Pcom.Tema1.Skel (Mac Packet htons etherDhost etherShost etherType ttl protocol check saddr daddr icmpType
  ETHERTYPE_IP ipChecksum word buildEthhdr)
open Pcom.Tema1.Router (headerChecksum)
open Pcom.Tema1.Verify (ipChecksum_complements verifies_summed)

/-! ### Requests and valid replies -/

/-- `tot_len`, as a number. -/
def totalLen (m : Packet) : ℕ := (htons (totLen.get m.payload)).toNat

/-- The packet passes the tests in front of `sendICMPReply`, and its message has a complete ICMP header. -/
structure Passed (cfg : Config) (m : Packet) : Prop where
  type : etherType.get m.payload = htons ETHERTYPE_IP
  kept : Kept m.payload
  alive : ttl.get m.payload ≠ 1
  routed : (findBestEntry cfg.rtable (daddr.get m.payload)).pfx ≠ 0
  own : ownEcho cfg m = true
  header : 28 ≤ totalLen m

/-- The reply goes back with both pairs of addresses swapped, carries what the request carries, and both its
checksums are accepted. -/
structure ValidReply (m reply : Packet) : Prop where
  len : reply.len = m.len
  dhost : etherDhost.get reply.payload = etherShost.get m.payload
  shost : etherShost.get reply.payload = etherDhost.get m.payload
  source : saddr.get reply.payload = daddr.get m.payload
  target : daddr.get reply.payload = saddr.get m.payload
  header : Verifies (bytes reply.payload 14 20)
  type : icmpType.get reply.payload = 0
  carried : bytes reply.payload 38 (totalLen m - 24) = bytes m.payload 38 (totalLen m - 24)
  message : Verifies (bytes reply.payload 34 (totalLen m - 20))

/-- The two Ethernet addresses are the same, the words of the data add up to nothing modulo 65535, and the
message does not consist of zeros behind its checksum. -/
structure Lucky (m : Packet) : Prop where
  sameHost : etherShost.get m.payload = etherDhost.get m.payload
  data : onesSum (bytes m.payload 42 (totalLen m - 28)) % 65535 = 0
  nonzero : ∃ b ∈ bytes m.payload 38 (totalLen m - 24), b ≠ 0

/-! ### The reply, field by field -/

/-- The reply to a packet whose checksum field has been zeroed. -/
theorem payload_reply (m : Packet) :
    (sendICMPReply (unchecked m)).payload = icmpSummed (echoUnsummed (check.set m.payload 0)) :=
  rfl

/-- What the rewriting does not write is kept. -/
theorem get_reply {α : Type} {f : ByteField α} (m : Packet) (h₁ : f.Apart icmpCheck) (h₂ : f.Apart check)
    (h₃ : f.Apart ttl) (h₄ : f.Apart saddr) (h₅ : f.Apart daddr) (h₆ : f.Apart icmpCode) (h₇ : f.Apart icmpType) :
    f.get (sendICMPReply (unchecked m)).payload = f.get m.payload := by
  rw [payload_reply, icmpSummed, ByteField.get_set_of_apart h₁, echoUnsummed, ByteField.get_set_of_apart h₁,
    headerSummed, ByteField.get_set_of_apart h₂, echoBody, ByteField.get_set_of_apart h₂,
    ByteField.get_set_of_apart h₃, ByteField.get_set_of_apart h₄, ByteField.get_set_of_apart h₅]
  exact get_cleared h₆ h₇ h₂

theorem saddr_reply (m : Packet) : saddr.get (sendICMPReply (unchecked m)).payload = daddr.get m.payload := by
  rw [payload_reply, icmpSummed, ByteField.get_set_of_apart (by decide), echoUnsummed,
    ByteField.get_set_of_apart (by decide), headerSummed, ByteField.get_set_of_apart (by decide), echoBody,
    ByteField.get_set_of_apart (by decide), ByteField.get_set_of_apart (by decide), ByteField.get_set]
  exact get_cleared (by decide) (by decide) (by decide)

theorem daddr_reply (m : Packet) : daddr.get (sendICMPReply (unchecked m)).payload = saddr.get m.payload := by
  rw [payload_reply, icmpSummed, ByteField.get_set_of_apart (by decide), echoUnsummed,
    ByteField.get_set_of_apart (by decide), headerSummed, ByteField.get_set_of_apart (by decide), echoBody,
    ByteField.get_set_of_apart (by decide), ByteField.get_set_of_apart (by decide),
    ByteField.get_set_of_apart (by decide), ByteField.get_set]
  exact get_cleared (by decide) (by decide) (by decide)

theorem unchecked_byte (m : Packet) {k : ℕ} (hk : 38 ≤ k) : check.set m.payload 0 k = m.payload k :=
  ByteField.set_of_not_covers fun hc => absurd hc.2 (Nat.not_lt.mpr (le_trans (by decide) hk))

theorem bytes_unsummed (m : Packet) (n : ℕ) :
    bytes (echoUnsummed (check.set m.payload 0)) 38 n = bytes m.payload 38 n :=
  bytes_congr fun _ hk _ => (echoUnsummed_byte _ hk).trans (unchecked_byte m hk)

theorem bytes_reply (m : Packet) (n : ℕ) :
    bytes (sendICMPReply (unchecked m)).payload 38 n = bytes m.payload 38 n := by
  rw [← bytes_unsummed m n, payload_reply]
  refine bytes_congr fun k hk _ => ByteField.set_of_not_covers fun hc => ?_
  exact absurd hc.2 (Nat.not_lt.mpr hk)

/-- Type and code of the reply are zero. -/
theorem bytes_type_code (b : Buf) : bytes (echoUnsummed b) 34 2 = [0, 0] := by
  show [echoUnsummed b 34, echoUnsummed b 35] = [0, 0]
  rw [echoUnsummed_zero b (by decide) (by decide), echoUnsummed_zero b (by decide) (by decide)]

theorem icmpType_reply (m : Packet) : icmpType.get (sendICMPReply (unchecked m)).payload = 0 := by
  rw [payload_reply, icmpSummed, ByteField.get_set_of_apart (by decide)]
  exact (List.cons.inj (bytes_type_code (check.set m.payload 0))).1

/-! ### The checksums -/

/-- **The IPv4 header of the reply is accepted.** -/
theorem header_verifies (m : Packet) : Verifies (bytes (sendICMPReply (unchecked m)).payload 14 20) := by
  have hheader : bytes (sendICMPReply (unchecked m)).payload 14 20 =
      bytes (headerSummed (echoBody (check.set m.payload 0))) 14 20 := by
    rw [payload_reply]
    refine bytes_congr fun k _ hk => ?_
    have hnot : ¬ icmpCheck.Covers k := fun hc => absurd hc.1 (Nat.not_le.mpr (lt_of_lt_of_le hk (by decide)))
    rw [icmpSummed, ByteField.set_of_not_covers hnot, echoUnsummed, ByteField.set_of_not_covers hnot]
  rw [hheader]
  refine verifies_summed (k := 22) ?_ ?_ (by decide) (by decide) ?_
  · exact ByteField.set_of_covers (f := check) (i := 0) (by decide)
  · exact ByteField.set_of_covers (f := check) (i := 1) (by decide)
  · have httl : echoBody (check.set m.payload 0) 22 = 64 := by
      rw [echoBody, ByteField.set_of_not_covers (by decide)]
      exact ByteField.set_of_covers (f := ttl) (i := 0) (by decide)
    rw [httl]
    decide

/-- The message of the reply: type and code, the checksum, the rest of the header, the data. -/
theorem bytes_message (m : Packet) (n : ℕ) : bytes (sendICMPReply (unchecked m)).payload 34 (8 + n) =
    [0, 0] ++ byteOf (icmpHeaderChecksum (echoUnsummed (check.set m.payload 0))) 0 ::
      byteOf (icmpHeaderChecksum (echoUnsummed (check.set m.payload 0))) 1 ::
        (bytes m.payload 38 4 ++ bytes m.payload 42 n) := by
  have hset := bytes_set_le16 (echoUnsummed (check.set m.payload 0)) 34 2 (4 + n)
    (icmpHeaderChecksum (echoUnsummed (check.set m.payload 0)))
  rw [bytes_type_code, bytes_unsummed, bytes_add m.payload 38 4 n] at hset
  rw [show 8 + n = 2 + (2 + (4 + n)) by omega]
  exact hset

/-- The checksum is taken over the header. -/
theorem complements_reply (m : Packet) :
    Complements (byteOf (icmpHeaderChecksum (echoUnsummed (check.set m.payload 0))) 0)
      (byteOf (icmpHeaderChecksum (echoUnsummed (check.set m.payload 0))) 1)
      ([0, 0] ++ 0 :: 0 :: bytes m.payload 38 4) := by
  have hcheck : bytes (echoUnsummed (check.set m.payload 0)) 36 2 = [0, 0] := by
    show [echoUnsummed _ 36, echoUnsummed _ 37] = [0, 0]
    rw [echoUnsummed_zero _ (by decide) (by decide), echoUnsummed_zero _ (by decide) (by decide)]
  have hheader : bytes (echoUnsummed (check.set m.payload 0)) 34 8 =
      [0, 0] ++ 0 :: 0 :: bytes m.payload 38 4 := by
    rw [show (8 : ℕ) = 2 + (2 + 4) from rfl, bytes_add, bytes_add, bytes_type_code, hcheck, bytes_unsummed]
    rfl
  rw [← hheader]
  exact @ipChecksum_complements 38 _ (by rw [length_bytes]; decide)

/-- **The ICMP message is accepted exactly when the data adds nothing** and there is something in it. -/
theorem message_verifies_iff {m : Packet} (hlen : 28 ≤ totalLen m) :
    Verifies (bytes (sendICMPReply (unchecked m)).payload 34 (totalLen m - 20)) ↔
      onesSum (bytes m.payload 42 (totalLen m - 28)) % 65535 = 0 ∧
        ∃ b ∈ bytes m.payload 38 (totalLen m - 24), b ≠ 0 := by
  have hsplit : bytes m.payload 38 (totalLen m - 24) =
      bytes m.payload 38 4 ++ bytes m.payload 42 (totalLen m - 28) := by
    rw [show totalLen m - 24 = 4 + (totalLen m - 28) by omega, bytes_add]
  have hzero : onesSum ([0, 0] ++ 0 :: 0 :: bytes m.payload 38 (totalLen m - 24)) ≠ 0 ↔
      ∃ b ∈ bytes m.payload 38 (totalLen m - 24), b ≠ 0 := by
    rw [ne_eq, onesSum_eq_zero_iff]
    simp
  rw [show totalLen m - 20 = 8 + (totalLen m - 28) by omega, bytes_message, ← hzero, hsplit]
  exact verifies_rest rfl (by rw [length_bytes]) (complements_reply m)

/-! ### The exact condition -/

/-- **A request that passes all tests is answered with one frame**, on the interface it came from. -/
theorem handle_passed {cfg : Config} {s : State} (h : Passed cfg s.m) (fresh : Buf) :
    (handle cfg s fresh).2 = [⟨.icmp, s.m.interface, sendICMPReply (unchecked s.m)⟩] := by
  have harp : ¬ etherType.get s.m.payload = htons Tema1.Skel.ETHERTYPE_ARP := by
    rw [h.type]
    decide
  have hanswer := (onIpv4_sent cfg s fresh).1 h.kept
  rw [ipv4Answer, if_neg h.alive, if_neg h.routed, if_pos h.own] at hanswer
  rw [handle, if_neg harp, if_pos h.type]
  exact hanswer

theorem validReply_of_passed {m : Packet} (hlen : 28 ≤ totalLen m) :
    ValidReply m (sendICMPReply (unchecked m)) ↔ Lucky m := by
  have hdhost : etherDhost.get (sendICMPReply (unchecked m)).payload = etherDhost.get m.payload :=
    get_reply m (by decide) (by decide) (by decide) (by decide) (by decide) (by decide) (by decide)
  have hshost : etherShost.get (sendICMPReply (unchecked m)).payload = etherShost.get m.payload :=
    get_reply m (by decide) (by decide) (by decide) (by decide) (by decide) (by decide) (by decide)
  constructor
  · intro h
    obtain ⟨hdata, hnonzero⟩ := (message_verifies_iff hlen).mp h.message
    exact ⟨h.dhost.symm.trans hdhost, hdata, hnonzero⟩
  · intro h
    exact {
      len := rfl
      dhost := hdhost.trans h.sameHost.symm
      shost := hshost.trans h.sameHost
      source := saddr_reply m
      target := daddr_reply m
      header := header_verifies m
      type := icmpType_reply m
      carried := bytes_reply m _
      message := (message_verifies_iff hlen).mpr ⟨h.data, h.nonzero⟩ }

/-- **The exact condition for a valid echo reply.**  In every state and for every request the loop passes to
`sendICMPReply`, the one frame sent is a valid answer when, and only when, the request comes from the very
Ethernet address it is for, its data adds up to nothing modulo 65535, and it is not all zero. -/
theorem validReply_iff {cfg : Config} {s : State} {i : Input} (h : Passed cfg (getPacket s i).m) :
    (∃ s' o, step cfg s i = some (s', [o]) ∧ o.interface = i.interface ∧
        ValidReply (getPacket s i).m o.packet) ↔ Lucky (getPacket s i).m := by
  rw [← validReply_of_passed h.header]
  have hsent := handle_passed h i.fresh
  constructor
  · rintro ⟨s', o, hstep, -, hvalid⟩
    have hout : (handle cfg (getPacket s i) i.fresh).2 = [o] := congrArg Prod.snd (Option.some.inj hstep)
    obtain rfl := (List.cons.inj (hout.symm.trans hsent)).1
    exact hvalid
  · intro hvalid
    exact ⟨(handle cfg (getPacket s i) i.fresh).1, _, by rw [step, ← hsent], rfl, hvalid⟩

/-! ### Two requests -/

/-- An echo request to `10.0.0.1` with identifier 7, sequence number 1 and some data. -/
def echoRequest (shost : Mac) (data : Bytes) : Input where
  interface := 1
  frame :=
    let header (sum : BitVec 16) : Bytes := [0x45, 0] ++ word (htons (BitVec.ofNat 16 (28 + data.length))) ++
      word (htons 1) ++ word (0 : BitVec 16) ++ [64, 1] ++ word sum ++ word (0x0900000a : BitVec 32) ++
        word (0x0100000a : BitVec 32)
    let message (sum : BitVec 16) : Bytes := [8, 0] ++ word sum ++ word (htons 7) ++ word (htons 1) ++ data
    buildEthhdr shost (Vector.replicate 6 0xa1) (htons ETHERTYPE_IP) ++
      (header (ipChecksum 18 (header 0)) ++ message (ipChecksum 38 (message 0)))
  fresh := fun _ => 0

/-- Before the first frame. -/
def start : State := init ⟨0, fun _ => 0, 0⟩

/-- **A ping with four bytes of data** from an ordinary host is not validly answered. -/
theorem ping_not_answered :
    Passed sampleConfig (getPacket start (echoRequest (Vector.replicate 6 0x30) (ascii "abcd"))).m ∧
      ¬ ∃ s' o, step sampleConfig start (echoRequest (Vector.replicate 6 0x30) (ascii "abcd")) =
          some (s', [o]) ∧ o.interface = 1 ∧
        ValidReply (getPacket start (echoRequest (Vector.replicate 6 0x30) (ascii "abcd"))).m o.packet := by
  have hpassed : Passed sampleConfig
      (getPacket start (echoRequest (Vector.replicate 6 0x30) (ascii "abcd"))).m :=
    ⟨by decide +kernel, ⟨by decide +kernel, by decide +kernel⟩, by decide +kernel, by decide +kernel,
      by decide +kernel, by decide +kernel⟩
  refine ⟨hpassed, ?_⟩
  rintro ⟨s', o, hstep, -, hvalid⟩
  have hout : (handle sampleConfig _ _).2 = [o] := congrArg Prod.snd (Option.some.inj hstep)
  obtain rfl := (List.cons.inj (hout.symm.trans (handle_passed hpassed _))).1
  have hlucky := (validReply_of_passed hpassed.header).mp hvalid
  exact absurd hlucky.data (by decide +kernel)

/-- Two letters and their complement. -/
def balancedData : Bytes := ascii "ab" ++ [0x9e, 0x9d]

/-- A ping with such data that seems to come from the router itself. -/
theorem ping_answered : ∃ s' o,
    step sampleConfig start (echoRequest (Vector.replicate 6 0xa1) balancedData) = some (s', [o]) ∧ o.interface = 1 ∧
      ValidReply (getPacket start (echoRequest (Vector.replicate 6 0xa1) balancedData)).m o.packet := by
  refine (validReply_iff ?_).mpr ?_
  · exact ⟨by decide +kernel, ⟨by decide +kernel, by decide +kernel⟩, by decide +kernel, by decide +kernel,
      by decide +kernel, by decide +kernel⟩
  · exact ⟨by decide +kernel, by decide +kernel, by decide +kernel⟩

end Pcom.Pirvu.Echo
