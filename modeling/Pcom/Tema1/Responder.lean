import Pcom.Tema1.Echo

/-!
# The ARP responder of the router

The branch for a request answers without a look at the target address, and takes the address to answer to from
the Ethernet header, which it overwrites while it reads it.

* `step_arpRequest` — **the one frame sent** for a request, in any state;
* `responds_iff` — **the exact condition** for the answer to be right: the request is for the address of the
  interface it came from, and its Ethernet source is its sender's hardware address;
* `foreign_request_answered` — a request for another host's address gets a reply.
-/

namespace Pcom.Tema1.Responder

open Pcom.Lib.Ipv4 Pcom.Lib.Memory Pcom.Lib.Scan Pcom.Tema1.Branches Pcom.Tema1.Echo Pcom.Tema1.Router
  Pcom.Tema1.Skel

/-! ### Requests and replies -/

/-- The target hardware address of an ARP frame. -/
def tha : ByteField Mac := raw 32 6

/-- The frame is an ARP request. -/
structure ArpRequest (i : Input) : Prop where
  whole : 42 ≤ i.frame.length
  type : etherType.get (ofBytes i.frame) = htons ETHERTYPE_ARP
  op : op.get (ofBytes i.frame) = htons ARPOP_REQUEST

/-- The reply a request asks for: from the interface, for the address asked for, to who asks. -/
structure ReplyTo (cfg : Config) (i : Input) (o : Sent) : Prop where
  interface : o.interface = i.interface
  len : o.packet.len = 42
  dhost : etherDhost.get o.packet.payload = sha.get (ofBytes i.frame)
  type : etherType.get o.packet.payload = htons ETHERTYPE_ARP
  op : op.get o.packet.payload = htons ARPOP_REPLY
  sha : sha.get o.packet.payload = cfg.interfaceMac i.interface
  spa : spa.get o.packet.payload = tpa.get (ofBytes i.frame)
  tha : tha.get o.packet.payload = Skel.sha.get (ofBytes i.frame)
  tpa : tpa.get o.packet.payload = Skel.spa.get (ofBytes i.frame)

/-- What the responder has to do with a request. -/
structure Responds (cfg : Config) (s : State) (i : Input) (s' : State) (out : List Sent) : Prop where
  own : tpa.get (ofBytes i.frame) = cfg.interfaceIp i.interface → ∃ o, out = [o] ∧ ReplyTo cfg i o
  foreign : tpa.get (ofBytes i.frame) ≠ cfg.interfaceIp i.interface → out = []
  arpTable : s'.arpTable = s.arpTable
  q : s'.q = s.q
  mem : s'.mem = (getPacket s i).mem

/-! ### Fields of an ARP frame -/

section
variable (daddr saddr : BitVec 32) (ethHdr : Buf) (interface : ℤ) (arpOp : BitVec 16)

theorem len_sendArp : (sendArp daddr saddr ethHdr interface arpOp).packet.len = 42 := by
  simp [sendArp, localPacket, length_bytes, length_word]

/-- The Ethernet header goes out as it was given. -/
theorem ether_sendArp {α : Type} {f : ByteField α} (hf : f.off + f.size ≤ 14) :
    f.get (sendArp daddr saddr ethHdr interface arpOp).packet.payload = f.get ethHdr := by
  refine ByteField.get_congr fun k hk => ?_
  have hlt : k < (bytes ethHdr 0 14).length := by
    have := hk.2
    rw [length_bytes]
    omega
  simp only [sendArp, localPacket, ofBytes, List.getD_eq_getElem?_getD]
  rw [List.getElem?_append_left hlt, List.getElem?_eq_getElem hlt]
  simp [bytes]

/-- The ARP header, opened behind the operation. -/
theorem payload_sendArp : ∃ before : Bytes, before.length = 22 ∧
    (sendArp daddr saddr ethHdr interface arpOp).packet.payload =
      ofBytes (before ++ ((etherShost.get ethHdr).toList ++ (word saddr ++
        ((etherDhost.get ethHdr).toList ++ word daddr)))) := by
  refine ⟨bytes ethHdr 0 14 ++ (word (htons ARPHRD_ETHER) ++ (word (htons 2048) ++ ([6, 4] ++ word arpOp))),
    by simp [length_bytes, length_word], ?_⟩
  simp only [sendArp, localPacket, List.append_assoc]

theorem sha_sendArp :
    sha.get (sendArp daddr saddr ethHdr interface arpOp).packet.payload = etherShost.get ethHdr := by
  obtain ⟨before, hbefore, hpayload⟩ := payload_sendArp daddr saddr ethHdr interface arpOp
  rw [hpayload]
  exact raw_get_ofBytes hbefore _ _

theorem spa_sendArp : spa.get (sendArp daddr saddr ethHdr interface arpOp).packet.payload = saddr := by
  obtain ⟨before, hbefore, hpayload⟩ := payload_sendArp daddr saddr ethHdr interface arpOp
  rw [hpayload, ← List.append_assoc]
  exact le32_get_ofBytes (by simp [hbefore]) _ _

theorem tha_sendArp :
    tha.get (sendArp daddr saddr ethHdr interface arpOp).packet.payload = etherDhost.get ethHdr := by
  obtain ⟨before, hbefore, hpayload⟩ := payload_sendArp daddr saddr ethHdr interface arpOp
  rw [hpayload, ← List.append_assoc, ← List.append_assoc]
  exact raw_get_ofBytes (by simp [hbefore, length_word]) _ _

end

/-! ### The Ethernet header of the reply -/

theorem etherDhost_answerHeader (cfg : Config) (m : Packet) :
    etherDhost.get (answerHeader cfg m) = etherShost.get m.payload := by
  rw [answerHeader, ByteField.get_set_of_apart (by decide), ByteField.get_set_of_apart (by decide),
    ByteField.get_set]

theorem etherShost_answerHeader (cfg : Config) (m : Packet) :
    etherShost.get (answerHeader cfg m) = cfg.interfaceMac m.interface := by
  rw [answerHeader, ByteField.get_set_of_apart (by decide), ByteField.get_set]

theorem etherType_answerHeader (cfg : Config) (m : Packet) :
    etherType.get (answerHeader cfg m) = htons ETHERTYPE_ARP := by
  rw [answerHeader, ByteField.get_set]

/-! ### The answer -/

/-- **The one frame sent** for a request; nothing but the buffer changes. -/
theorem step_arpRequest {cfg : Config} {i : Input} (h : ArpRequest i) (s : State) : step cfg s i =
    some ({ getPacket s i with m.payload := answerHeader cfg (getPacket s i).m },
      [sendArp (spa.get (ofBytes i.frame)) (cfg.interfaceIp i.interface)
        (answerHeader cfg (getPacket s i).m) i.interface (htons ARPOP_REPLY)]) := by
  have htype : etherType.get (getPacket s i).m.payload = htons ETHERTYPE_ARP :=
    (get_of_whole h.whole s (by decide)).trans h.type
  have hop : op.get (getPacket s i).m.payload = htons ARPOP_REQUEST :=
    (get_of_whole h.whole s (by decide)).trans h.op
  have hspa : spa.get (getPacket s i).m.payload = spa.get (ofBytes i.frame) :=
    get_of_whole h.whole s (by decide)
  simp only [step, if_pos htype, if_pos hop, onArpRequest_eq, hspa]
  rfl

/-- The frame sent is the reply asked for exactly under the condition. -/
theorem replyTo_iff {cfg : Config} {i : Input} (h : ArpRequest i) (s : State) :
    ReplyTo cfg i (sendArp (spa.get (ofBytes i.frame)) (cfg.interfaceIp i.interface)
        (answerHeader cfg (getPacket s i).m) i.interface (htons ARPOP_REPLY)) ↔
      tpa.get (ofBytes i.frame) = cfg.interfaceIp i.interface ∧
        etherShost.get (ofBytes i.frame) = sha.get (ofBytes i.frame) := by
  have hdhost : etherDhost.get (answerHeader cfg (getPacket s i).m) = etherShost.get (ofBytes i.frame) :=
    (etherDhost_answerHeader cfg _).trans (get_of_whole h.whole s (by decide))
  constructor
  · intro hr
    have hspa := hr.spa
    have htha := hr.tha
    rw [spa_sendArp] at hspa
    rw [tha_sendArp, hdhost] at htha
    exact ⟨hspa.symm, htha⟩
  · rintro ⟨htpa, hshost⟩
    exact {
      interface := rfl
      len := len_sendArp ..
      dhost := by rw [ether_sendArp _ _ _ _ _ (by decide), hdhost, hshost]
      type := by rw [ether_sendArp _ _ _ _ _ (by decide), etherType_answerHeader]
      op := op_sendArp ..
      sha := by
        rw [sha_sendArp, etherShost_answerHeader]
        rfl
      spa := by rw [spa_sendArp, htpa]
      tha := by rw [tha_sendArp, hdhost, hshost]
      tpa := tpa_sendArp .. }

/-- **The exact condition for the answer to be right.** -/
theorem responds_iff {cfg : Config} {i : Input} (h : ArpRequest i) (s : State) :
    (∃ s' out, step cfg s i = some (s', out) ∧ Responds cfg s i s' out) ↔
      tpa.get (ofBytes i.frame) = cfg.interfaceIp i.interface ∧
        etherShost.get (ofBytes i.frame) = sha.get (ofBytes i.frame) := by
  rw [step_arpRequest h]
  constructor
  · rintro ⟨s', out, hstep, hr⟩
    obtain ⟨rfl, rfl⟩ := Prod.mk.inj (Option.some.inj hstep)
    by_cases htpa : tpa.get (ofBytes i.frame) = cfg.interfaceIp i.interface
    · obtain ⟨o, ho, hreply⟩ := hr.own htpa
      obtain rfl := List.singleton_inj.mp ho
      exact (replyTo_iff h s).mp hreply
    · cases hr.foreign htpa
  · intro hc
    exact ⟨_, _, rfl, {
      own := fun _ => ⟨_, rfl, (replyTo_iff h s).mpr hc⟩
      foreign := fun hne => absurd hc.1 hne
      arpTable := rfl
      q := rfl
      mem := rfl }⟩

/-! ### Two requests -/

/-- `10.0.0.9` asks for an address; its hardware address is `30:30:30:30:30:30`. -/
def arpRequest (wanted : BitVec 32) : Input where
  interface := 1
  frame := buildEthhdr (Vector.replicate 6 0x30) (Vector.replicate 6 0xff) (htons ETHERTYPE_ARP) ++
    (word (htons ARPHRD_ETHER) ++ word (htons 2048) ++ [6, 4] ++ word (htons ARPOP_REQUEST) ++
      (Vector.replicate 6 (0x30 : UInt8)).toList ++ word (0x0900000a : BitVec 32) ++
        (Vector.replicate 6 (0 : UInt8)).toList ++ word wanted)
  stack := none

/-- The router's own address and a neighbour's. -/
theorem arpRequest_received {wanted : BitVec 32} (h : wanted = 0x0200000a ∨ wanted = 0x0300000a) :
    ArpRequest (arpRequest wanted) := by
  rcases h with rfl | rfl
  · exact ⟨by decide, by decide +kernel, by decide +kernel⟩
  · exact ⟨by decide, by decide +kernel, by decide +kernel⟩

theorem own_request_replied : ∃ s' out, step echoConfig sampleInit (arpRequest 0x0200000a) = some (s', out) ∧
    Responds echoConfig sampleInit (arpRequest 0x0200000a) s' out :=
  (responds_iff (arpRequest_received (Or.inl rfl)) sampleInit).mpr (by decide +kernel)

/-- **A request for the neighbour's address is answered**, where nothing should be sent. -/
theorem foreign_request_answered : ∃ cfg s i, ArpRequest i ∧
    tpa.get (ofBytes i.frame) ≠ cfg.interfaceIp i.interface ∧
      ¬ ∃ s' out, step cfg s i = some (s', out) ∧ Responds cfg s i s' out := by
  have hreceived : ArpRequest (arpRequest 0x0300000a) := arpRequest_received (Or.inr rfl)
  have hforeign : tpa.get (ofBytes (arpRequest 0x0300000a).frame) ≠
      echoConfig.interfaceIp (arpRequest 0x0300000a).interface := by decide +kernel
  refine ⟨echoConfig, sampleInit, arpRequest 0x0300000a, hreceived, hforeign, ?_⟩
  rintro ⟨s', out, hstep, hr⟩
  rw [step_arpRequest hreceived] at hstep
  obtain ⟨-, rfl⟩ := Prod.mk.inj (Option.some.inj hstep)
  cases hr.foreign hforeign

end Pcom.Tema1.Responder
