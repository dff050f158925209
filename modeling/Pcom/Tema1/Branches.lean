import Pcom.Tema1.Router

/-!
# The branches of the loop body in closed form

The branches of the loop body read the header from a buffer they have already changed, and reach their own addresses
through text.  Here they are restated in the fields of the received header.

* `onIpv4_eq` — the IPv4 branch, as one cascade of tests;
* `onArpRequest_eq`, `enqueue_eq` — the ARP frames that answer a request, or ask for a next hop;
* `op_sendArp`, `tpa_sendArp` — what such a frame says on the link.
-/

namespace Pcom.Tema1.Branches

open Function Pcom.Lib.Ipv4 Pcom.Lib.Memory Pcom.Lib.Scan Pcom.Tema1.Route Pcom.Tema1.Router
  Pcom.Tema1.Skel

/-! ### ARP requests -/

/-- The header an ARP request is answered with. -/
def answerHeader (cfg : Config) (m : Packet) : Buf :=
  etherType.set (etherShost.set (etherDhost.set m.payload (etherShost.get m.payload))
    (cfg.interfaceMac m.interface)) (htons ETHERTYPE_ARP)

/-- **A request is answered**, to the address in its sender field. -/
theorem onArpRequest_eq (cfg : Config) (s : State) : onArpRequest cfg s =
    some ({ s with m.payload := answerHeader cfg s.m },
      [sendArp (spa.get s.m.payload) (cfg.interfaceIp s.m.interface) (answerHeader cfg s.m) s.m.interface
        (htons ARPOP_REPLY)]) := by
  have hspa : spa.get (answerHeader cfg s.m) = spa.get s.m.payload := by
    rw [answerHeader, ByteField.get_set_of_apart (by decide), ByteField.get_set_of_apart (by decide),
      ByteField.get_set_of_apart (by decide)]
  rw [← hspa, ← swapBytes_swapBytes (cfg.interfaceIp s.m.interface)]
  simp only [onArpRequest, getInterfaceIp, ipToInt_inetNtoa, Option.bind_eq_bind, Option.bind_some]
  rw [swapBytes_swapBytes]
  rfl

/-! ### IPv4 -/

/-- The header passes the checksum test. -/
def Summed (payload : Buf) : Prop := headerChecksum (check.set payload 0) = check.get payload

instance (payload : Buf) : Decidable (Summed payload) := inferInstanceAs (Decidable (_ = _))

theorem ownEcho_eq (cfg : Config) (m : Packet) : ownEcho cfg m = some (decide (protocol.get m.payload = 1 ∧
    icmpType.get m.payload = ICMP_ECHO ∧ cfg.interfaceIp m.interface = daddr.get m.payload)) := by
  rw [ownEcho, getInterfaceIp, inetAton_inetNtoa]
  by_cases h : protocol.get m.payload = 1 <;> simp [h]

/-- The header an ARP request is sent with. -/
def requestHeader (cfg : Config) (payload : Buf) (route : RouteTableEntry) : Buf :=
  etherType.set (etherDhost.set (etherShost.set payload (cfg.interfaceMac route.interface))
    (Vector.replicate 6 0xff)) 1544

theorem enqueue_eq (cfg : Config) (s : State) (route : RouteTableEntry) : enqueue cfg s route =
    some ({ s with
      m.payload := requestHeader cfg s.m.payload route
      q := s.q ++ [.heap s.brk]
      mem := update s.mem (.heap s.brk) s.m
      brk := s.brk + 1 },
      [sendArp route.nextHop (cfg.interfaceIp route.interface) (requestHeader cfg s.m.payload route)
        route.interface (htons ARPOP_REQUEST)]) := by
  simp only [enqueue, getInterfaceIp, inetAton_inetNtoa, Option.bind_eq_bind, Option.bind_some]
  rfl

/-- The state once the checksum field has been zeroed. -/
def zeroed (s : State) : State := { s with m.payload := check.set s.m.payload 0 }

/-- The ICMP message a packet is answered with. -/
def icmpAnswer (m : Packet) (type : UInt8) (id : BitVec 32) : Sent :=
  sendIcmp (saddr.get m.payload) (daddr.get m.payload) (etherDhost.get m.payload)
    (etherShost.get m.payload) type 0 m.interface id 0

/-- **The IPv4 branch**, in the fields of the received header. -/
theorem onIpv4_eq (cfg : Config) (s : State) : onIpv4 cfg s =
    if ¬ Summed s.m.payload then some (zeroed s, [])
    else if ttl.get s.m.payload ≤ 1 then some (zeroed s, [icmpAnswer s.m ICMP_TIME_EXCEEDED 0])
    else
      match getBestRoute cfg.rtable (daddr.get s.m.payload) with
      | none => some (zeroed s, [icmpAnswer s.m ICMP_DEST_UNREACH 0])
      | some route =>
        if protocol.get s.m.payload = 1 ∧ icmpType.get s.m.payload = ICMP_ECHO ∧
            cfg.interfaceIp s.m.interface = daddr.get s.m.payload then
          some (zeroed s, [icmpAnswer s.m 0 ((htons (cfg.pid.setWidth 16)).setWidth 32)])
        else
          match getArpEntry s.arpTable (daddr.get s.m.payload) with
          | none => enqueue cfg (zeroed s) route
          | some arpX => some (forward (zeroed s) route arpX) := by
  simp only [onIpv4, ByteField.get_set_of_apart (f := ttl) (g := check) (by decide),
    ByteField.get_set_of_apart (f := daddr) (g := check) (by decide),
    ByteField.get_set_of_apart (f := saddr) (g := check) (by decide),
    ByteField.get_set_of_apart (f := etherDhost) (g := check) (by decide),
    ByteField.get_set_of_apart (f := etherShost) (g := check) (by decide), ownEcho_check]
  by_cases hsum : Summed s.m.payload
  swap
  · exact (if_pos hsum).trans (if_pos hsum).symm
  have hsum' : headerChecksum (check.set s.m.payload 0) = check.get s.m.payload := hsum
  rw [if_neg (not_not.mpr hsum'), if_neg (not_not.mpr hsum)]
  by_cases httl : ttl.get s.m.payload ≤ 1
  · rw [if_pos httl, if_pos httl]
    rfl
  rw [if_neg httl, if_neg httl]
  cases getBestRoute cfg.rtable (daddr.get s.m.payload) with
  | none => rfl
  | some route =>
    dsimp only
    rw [ownEcho_eq]
    by_cases hecho : protocol.get s.m.payload = 1 ∧ icmpType.get s.m.payload = ICMP_ECHO ∧
        cfg.interfaceIp s.m.interface = daddr.get s.m.payload
    · rw [decide_eq_true hecho, if_pos hecho]
      rfl
    · rw [decide_eq_false hecho, if_neg hecho]
      rfl

/-! ### Fields of frames built from nothing -/

theorem length_word {w : ℕ} (x : BitVec w) : (word x).length = w / 8 := by
  simp [word]

theorem length_buildEthhdr (sha dha : Mac) (t : BitVec 16) : (buildEthhdr sha dha t).length = 14 := by
  simp [buildEthhdr, length_word]

theorem raw_get_ofBytes {off n : ℕ} {before : Bytes} (h : before.length = off) (v : Vector UInt8 n)
    (after : Bytes) : (raw off n).get (ofBytes (before ++ (v.toList ++ after))) = v := by
  ext i hi
  have hlen : i < v.toList.length := by rwa [Vector.length_toList]
  rw [raw_get_getElem _ hi, ofBytes_append h, ofBytes, List.getD_eq_getElem?_getD,
    List.getElem?_append_left hlen]
  simp [hi]

theorem le16_get_ofBytes {off : ℕ} {before : Bytes} (h : before.length = off) (w : BitVec 16) (after : Bytes) :
    (le16 off).get (ofBytes (before ++ (word w ++ after))) = w :=
  le16_get_eq (ofBytes_append h 0) (ofBytes_append h 1)

theorem le32_get_ofBytes {off : ℕ} {before : Bytes} (h : before.length = off) (w : BitVec 32) (after : Bytes) :
    (le32 off).get (ofBytes (before ++ (word w ++ after))) = w := by
  refine le32_get_eq fun k hk => (ofBytes_append h k).trans ?_
  obtain rfl | rfl | rfl | rfl : k = 0 ∨ k = 1 ∨ k = 2 ∨ k = 3 := by omega
  all_goals rfl

theorem u8_get_ofBytes {off : ℕ} {before : Bytes} (h : before.length = off) (a : UInt8) (after : Bytes) :
    (u8 off).get (ofBytes (before ++ a :: after)) = a :=
  ofBytes_append h 0

/-! ### ARP frames on the link -/

/-- The target protocol address of an ARP frame. -/
def tpa : ByteField (BitVec 32) := le32 38

/-- The operation of an ARP frame is the one it was built with. -/
theorem op_sendArp (daddr saddr : BitVec 32) (ethHdr : Buf) (interface : ℤ) (arpOp : BitVec 16) :
    op.get (sendArp daddr saddr ethHdr interface arpOp).packet.payload = arpOp := by
  have hpayload : (sendArp daddr saddr ethHdr interface arpOp).packet.payload =
      ofBytes ((bytes ethHdr 0 14 ++ (word (htons ARPHRD_ETHER) ++ (word (htons 2048) ++ [6, 4]))) ++
        (word arpOp ++ ((etherShost.get ethHdr).toList ++ (word saddr ++ ((etherDhost.get ethHdr).toList ++
          word daddr))))) := by
    simp only [sendArp, localPacket, List.append_assoc]
  rw [hpayload]
  exact le16_get_ofBytes (by simp [bytes, length_word]) arpOp _

/-- The address an ARP frame is for is the one it was built with. -/
theorem tpa_sendArp (daddr saddr : BitVec 32) (ethHdr : Buf) (interface : ℤ) (arpOp : BitVec 16) :
    tpa.get (sendArp daddr saddr ethHdr interface arpOp).packet.payload = daddr := by
  have hpayload : (sendArp daddr saddr ethHdr interface arpOp).packet.payload =
      ofBytes ((bytes ethHdr 0 14 ++ (word (htons ARPHRD_ETHER) ++ (word (htons 2048) ++ ([6, 4] ++
        (word arpOp ++ ((etherShost.get ethHdr).toList ++ (word saddr ++ (etherDhost.get ethHdr).toList)))))))
          ++ (word daddr ++ [])) := by
    simp only [sendArp, localPacket, List.append_assoc, List.append_nil]
  rw [hpayload]
  exact le32_get_ofBytes (by simp [bytes, length_word]) daddr []

end Pcom.Tema1.Branches
