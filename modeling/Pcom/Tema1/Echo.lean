import Pcom.Tema1.Verify

/-!
# The echo service of the router

An echo request to the router itself goes through the tests of the packets to be forwarded first: the TTL
and the route of the router's own address are looked at before the address is recognised.

* `step_echoRequest` — **the outcome of the five tests**, in any state and for any routing table;
* `echo_answered` — one frame goes back to the requester, with checksums it accepts, and nothing is queued
  or forwarded; it is an echo reply once the TTL and the route have been passed.
-/

namespace Pcom.Tema1.Echo

open Function Pcom.Lib.Memory Pcom.Lib.OnesComplement Pcom.Lib.Scan Pcom.Tema1.Branches Pcom.Tema1.Route
  Pcom.Tema1.Router Pcom.Tema1.Skel Pcom.Tema1.Verify

/-! ### Requests and answers -/

/-- The frame is an echo request to the address of the interface it comes from, with a correct header. -/
structure EchoRequest (cfg : Config) (i : Input) : Prop where
  whole : 42 ≤ i.frame.length
  type : etherType.get (ofBytes i.frame) = htons ETHERTYPE_IP
  summed : Summed (ofBytes i.frame)
  protocol : protocol.get (ofBytes i.frame) = IPPROTO_ICMP
  icmpType : icmpType.get (ofBytes i.frame) = ICMP_ECHO
  own : daddr.get (ofBytes i.frame) = cfg.interfaceIp i.interface

/-- The bytes of the ICMP message of a frame the router originates. -/
def icmpMessage (p : Packet) : Bytes := bytes p.payload 34 (p.len - 34)

/-- The frame goes back to the requester with addresses swapped, as an ICMP message of the type, and both
its checksums are accepted. -/
structure Answers (i : Input) (type : UInt8) (o : Sent) : Prop where
  origin : o.origin = .icmp
  interface : o.interface = i.interface
  dhost : etherDhost.get o.packet.payload = etherShost.get (ofBytes i.frame)
  shost : etherShost.get o.packet.payload = etherDhost.get (ofBytes i.frame)
  ipv4 : etherType.get o.packet.payload = htons ETHERTYPE_IP
  icmp : protocol.get o.packet.payload = IPPROTO_ICMP
  source : saddr.get o.packet.payload = daddr.get (ofBytes i.frame)
  target : daddr.get o.packet.payload = saddr.get (ofBytes i.frame)
  header : Verifies (bytes o.packet.payload 14 20)
  type : icmpType.get o.packet.payload = type
  message : Verifies (icmpMessage o.packet)

/-- `tot_len`. -/
def totLen : ByteField (BitVec 16) := le16 16

/-- Identifier, sequence number and data of an echo request: the rest of the ICMP message. -/
def carriedBy (i : Input) : Bytes :=
  bytes (ofBytes i.frame) 38 ((htons (totLen.get (ofBytes i.frame))).toNat - 24)

/-- An echo reply that carries what the request carries. -/
structure Echoes (i : Input) (o : Sent) : Prop extends Answers i 0 o where
  carried : (icmpMessage o.packet).drop 4 = carriedBy i

/-- The type of the answer: the TTL and the route come first. -/
def answerType (cfg : Config) (i : Input) : UInt8 :=
  if ttl.get (ofBytes i.frame) ≤ 1 then ICMP_TIME_EXCEEDED
  else if getBestRoute cfg.rtable (daddr.get (ofBytes i.frame)) = none then ICMP_DEST_UNREACH
  else 0

/-! ### Fields of a message built from nothing -/

/-- A middle piece is found at its place. -/
theorem bytes_ofBytes_middle {off : ℕ} {before : Bytes} (h : before.length = off) (piece after : Bytes) :
    bytes (ofBytes (before ++ (piece ++ after))) off piece.length = piece := by
  refine List.ext_getElem (length_bytes ..) fun k hk hk' => ?_
  have hbyte : ofBytes (before ++ (piece ++ after)) (off + k) = piece[k] := by
    rw [ofBytes_append h]
    simp [ofBytes, List.getElem?_append_left hk', hk']
  simpa [bytes] using hbyte

section
variable (src dst : BitVec 32) (sha dha : Mac) (type code : UInt8) (interface : ℤ) (id seq : BitVec 32)

/-- The bytes of such a message. -/
theorem payload_sendIcmp : (sendIcmp dst src sha dha type code interface id seq).packet.payload =
    ofBytes (buildEthhdr sha dha (htons ETHERTYPE_IP) ++ (icmpIpHdr dst src ++
      icmpHdr type code (id.setWidth 16) (seq.setWidth 16))) := by
  rw [← List.append_assoc]
  rfl

theorem length_icmpIpHdr : (icmpIpHdr dst src).length = 20 := by
  simp [icmpIpHdr, length_word]

theorem length_icmpHdr (w w' : BitVec 16) : (icmpHdr type code w w').length = 8 := by
  simp [icmpHdr, length_word]

theorem etherDhost_sendIcmp :
    etherDhost.get (sendIcmp dst src sha dha type code interface id seq).packet.payload = dha := by
  rw [payload_sendIcmp, buildEthhdr, List.append_assoc, List.append_assoc]
  exact @raw_get_ofBytes 0 6 [] rfl dha _

theorem etherShost_sendIcmp :
    etherShost.get (sendIcmp dst src sha dha type code interface id seq).packet.payload = sha := by
  rw [payload_sendIcmp, buildEthhdr, List.append_assoc, List.append_assoc]
  exact raw_get_ofBytes (by simp) sha _

theorem etherType_sendIcmp :
    etherType.get (sendIcmp dst src sha dha type code interface id seq).packet.payload =
      htons ETHERTYPE_IP := by
  rw [payload_sendIcmp, buildEthhdr, List.append_assoc]
  exact le16_get_ofBytes (by simp) _ _

/-- The message with its IPv4 header opened behind the checksum. -/
theorem payload_sendIcmp_addresses : ∃ before : Bytes, before.length = 26 ∧
    (sendIcmp dst src sha dha type code interface id seq).packet.payload =
      ofBytes (before ++ (word src ++ (word dst ++ icmpHdr type code (id.setWidth 16) (seq.setWidth 16)))) := by
  refine ⟨buildEthhdr sha dha (htons ETHERTYPE_IP) ++ (icmpIpHdr dst src).take 12, ?_, ?_⟩
  · rw [List.length_append, length_buildEthhdr, List.length_take, length_icmpIpHdr]
    rfl
  · have hsplit : icmpIpHdr dst src = (icmpIpHdr dst src).take 12 ++ (word src ++ word dst) :=
      (List.take_append_drop 12 _).symm
    rw [payload_sendIcmp]
    conv_lhs => rw [hsplit]
    simp only [List.append_assoc]

theorem saddr_sendIcmp :
    saddr.get (sendIcmp dst src sha dha type code interface id seq).packet.payload = src := by
  obtain ⟨before, hlen, heq⟩ := payload_sendIcmp_addresses src dst sha dha type code interface id seq
  rw [heq]
  exact le32_get_ofBytes hlen src _

theorem daddr_sendIcmp :
    daddr.get (sendIcmp dst src sha dha type code interface id seq).packet.payload = dst := by
  obtain ⟨before, hlen, heq⟩ := payload_sendIcmp_addresses src dst sha dha type code interface id seq
  rw [heq, ← List.append_assoc]
  exact le32_get_ofBytes (by rw [List.length_append, hlen, length_word]) dst _

theorem protocol_sendIcmp :
    protocol.get (sendIcmp dst src sha dha type code interface id seq).packet.payload = IPPROTO_ICMP := by
  have hsplit : icmpIpHdr dst src = (icmpIpHdr dst src).take 9 ++ IPPROTO_ICMP :: (icmpIpHdr dst src).drop 10 :=
    (List.take_append_drop 9 _).symm
  rw [payload_sendIcmp, hsplit]
  simp only [List.append_assoc, List.cons_append]
  rw [← List.append_assoc]
  refine u8_get_ofBytes ?_ _ _
  rw [List.length_append, length_buildEthhdr, List.length_take, length_icmpIpHdr]
  rfl

theorem header_sendIcmp :
    bytes (sendIcmp dst src sha dha type code interface id seq).packet.payload 14 20 = icmpIpHdr dst src := by
  have hpiece := bytes_ofBytes_middle (length_buildEthhdr sha dha (htons ETHERTYPE_IP)) (icmpIpHdr dst src)
    (icmpHdr type code (id.setWidth 16) (seq.setWidth 16))
  rwa [length_icmpIpHdr, ← payload_sendIcmp] at hpiece

theorem icmpMessage_sendIcmp :
    icmpMessage (sendIcmp dst src sha dha type code interface id seq).packet =
      icmpHdr type code (id.setWidth 16) (seq.setWidth 16) := by
  have hlen : (sendIcmp dst src sha dha type code interface id seq).packet.len = 42 := by
    simp only [sendIcmp, localPacket, List.length_append, length_buildEthhdr, length_icmpIpHdr, length_icmpHdr]
  have hbefore : (buildEthhdr sha dha (htons ETHERTYPE_IP) ++ icmpIpHdr dst src).length = 34 := by
    rw [List.length_append, length_buildEthhdr, length_icmpIpHdr]
  have hpiece := bytes_ofBytes_middle hbefore (icmpHdr type code (id.setWidth 16) (seq.setWidth 16)) []
  rw [List.append_nil, List.append_assoc, ← payload_sendIcmp src dst sha dha type code interface id seq,
    length_icmpHdr] at hpiece
  rw [icmpMessage, hlen]
  exact hpiece

theorem icmpType_sendIcmp :
    icmpType.get (sendIcmp dst src sha dha type code interface id seq).packet.payload = type := by
  rw [payload_sendIcmp, ← List.append_assoc]
  refine u8_get_ofBytes ?_ type ((icmpHdr type code (id.setWidth 16) (seq.setWidth 16)).drop 1)
  rw [List.length_append, length_buildEthhdr, length_icmpIpHdr]

end

/-! ### The outcome -/

/-- What is read is the frame, as far as it goes. -/
theorem read_of_length {i : Input} {n : ℕ} (hlen : n ≤ i.frame.length) (hmax : n ≤ MAX_LEN) (s : State) :
    ∀ k < n, (getPacket s i).m.payload k = ofBytes i.frame k := by
  intro k hk
  have hlong : k < (i.frame.take MAX_LEN).length := by
    rw [List.length_take]
    omega
  have hframe : ofBytes (i.frame.take MAX_LEN) k = ofBytes i.frame k := by
    have hk' : k < MAX_LEN := lt_of_lt_of_le hk hmax
    simp [ofBytes, hk']
  exact (overwrite_eq_ofBytes hlong).trans hframe

/-- The headers of a whole frame are read from its own bytes. -/
theorem read_of_whole {i : Input} (hwhole : 42 ≤ i.frame.length) (s : State) :
    ∀ k < 42, (getPacket s i).m.payload k = ofBytes i.frame k :=
  read_of_length hwhole (by decide) s

theorem get_of_whole {i : Input} (hwhole : 42 ≤ i.frame.length) (s : State) {α : Type} {f : ByteField α}
    (hf : f.off + f.size ≤ 42) : f.get (getPacket s i).m.payload = f.get (ofBytes i.frame) :=
  ByteField.get_congr fun k hk => read_of_whole hwhole s k (lt_of_lt_of_le hk.2 hf)

theorem summed_of_whole {i : Input} (hwhole : 42 ≤ i.frame.length) (s : State) :
    Summed (getPacket s i).m.payload ↔ Summed (ofBytes i.frame) := by
  have hsame : ∀ k, 14 ≤ k → k < 34 → (getPacket s i).m.payload k = ofBytes i.frame k :=
    fun k _ hk => read_of_whole hwhole s k (by omega)
  rw [Summed, headerChecksum_congr hsame, check_congr hsame, Summed]

theorem EchoRequest.get {cfg : Config} {i : Input} (h : EchoRequest cfg i) (s : State) {α : Type}
    {f : ByteField α} (hf : f.off + f.size ≤ 42) :
    f.get (getPacket s i).m.payload = f.get (ofBytes i.frame) :=
  get_of_whole h.whole s hf

/-- **The outcome of the five tests**: one ICMP message, and nothing but the buffer changes. -/
theorem step_echoRequest {cfg : Config} {i : Input} (h : EchoRequest cfg i) (s : State) : ∃ id,
    step cfg s i = some (zeroed (getPacket s i), [icmpAnswer (getPacket s i).m (answerType cfg i) id]) := by
  have htype : etherType.get (getPacket s i).m.payload = htons ETHERTYPE_IP :=
    (h.get s (by decide)).trans h.type
  have hsummed : Summed (getPacket s i).m.payload := (summed_of_whole h.whole s).mpr h.summed
  have hecho : protocol.get (getPacket s i).m.payload = 1 ∧
      icmpType.get (getPacket s i).m.payload = ICMP_ECHO ∧
        cfg.interfaceIp (getPacket s i).m.interface = daddr.get (getPacket s i).m.payload :=
    ⟨(h.get s (by decide)).trans h.protocol, (h.get s (by decide)).trans h.icmpType,
      h.own.symm.trans (h.get s (by decide)).symm⟩
  simp only [step, if_neg (show ¬ etherType.get (getPacket s i).m.payload = htons ETHERTYPE_ARP by
    rw [htype]; decide), if_pos htype, onIpv4_eq, if_neg (not_not.mpr hsummed), answerType,
    ← h.get s (f := ttl) (by decide), ← h.get s (f := daddr) (by decide)]
  by_cases httl : ttl.get (getPacket s i).m.payload ≤ 1
  · rw [if_pos httl, if_pos httl]
    exact ⟨_, rfl⟩
  rw [if_neg httl, if_neg httl]
  cases hroute : getBestRoute cfg.rtable (daddr.get (getPacket s i).m.payload) with
  | none =>
    rw [if_pos rfl]
    exact ⟨_, rfl⟩
  | some route =>
    rw [if_neg (by simp)]
    dsimp only
    rw [if_pos hecho]
    exact ⟨_, rfl⟩

theorem answers_icmpAnswer {cfg : Config} {i : Input} (h : EchoRequest cfg i) (s : State) (type : UInt8)
    (id : BitVec 32) : Answers i type (icmpAnswer (getPacket s i).m type id) where
  origin := rfl
  interface := rfl
  dhost := (etherDhost_sendIcmp ..).trans (h.get s (by decide))
  shost := (etherShost_sendIcmp ..).trans (h.get s (by decide))
  ipv4 := etherType_sendIcmp ..
  icmp := protocol_sendIcmp ..
  source := (saddr_sendIcmp ..).trans (h.get s (by decide))
  target := (daddr_sendIcmp ..).trans (h.get s (by decide))
  header := by
    rw [icmpAnswer, header_sendIcmp]
    exact verifies_icmpIpHdr ..
  type := icmpType_sendIcmp ..
  message := by
    rw [icmpAnswer, icmpMessage_sendIcmp]
    exact verifies_icmpHdr ..

/-- The router has the address `10.0.0.2`, which is routed. -/
def echoConfig : Config := { sampleConfig with interfaceIp := fun _ => 0x0200000a }

/-- An echo request from `30.0.0.1` with identifier 7, sequence number 1 and the data `abcd`. -/
def echoRequest (ttl : UInt8) : Input where
  interface := 1
  frame :=
    let header (sum : BitVec 16) : Bytes := [0x45, 0] ++ word (htons 32) ++ word (htons 1) ++
      word (0 : BitVec 16) ++ [ttl, IPPROTO_ICMP] ++ word sum ++ word (0x0100001e : BitVec 32) ++
        word (0x0200000a : BitVec 32)
    let message (sum : BitVec 16) : Bytes := [ICMP_ECHO, 0] ++ word sum ++ word (htons 7) ++ word (htons 1) ++
      ascii "abcd"
    buildEthhdr (Vector.replicate 6 0x30) (Vector.replicate 6 0xa1) (htons ETHERTYPE_IP) ++
      (header (ipChecksum 18 (header 0)) ++ message (ipChecksum 38 (message 0)))
  stack := none

theorem echoRequest_received (ttl : UInt8) (h : ttl = 1 ∨ ttl = 64) :
    EchoRequest echoConfig (echoRequest ttl) := by
  rcases h with rfl | rfl
  · exact ⟨by decide, by decide +kernel, by decide +kernel, by decide +kernel, by decide +kernel,
      by decide +kernel⟩
  · exact ⟨by decide, by decide +kernel, by decide +kernel, by decide +kernel, by decide +kernel,
      by decide +kernel⟩

theorem answerType_echoRequest : answerType echoConfig (echoRequest 1) = ICMP_TIME_EXCEEDED ∧
    answerType echoConfig (echoRequest 64) = 0 := by
  decide +kernel

/-- **Not every request is echoed**: with TTL 1 the answer is a time-exceeded message, and with TTL 64 the
reply does not carry the eight bytes behind the checksum of the request. -/
theorem request_not_echoed (s : State) (ttl : UInt8) (httl : ttl = 1 ∨ ttl = 64) :
    ¬ ∃ s' o, step echoConfig s (echoRequest ttl) = some (s', [o]) ∧ Echoes (echoRequest ttl) o := by
  intro ⟨s', o, hstep, hechoes⟩
  obtain ⟨id, hanswer⟩ := step_echoRequest (echoRequest_received ttl httl) s
  obtain ⟨-, hout⟩ := Prod.mk.inj (Option.some.inj (hstep.symm.trans hanswer))
  obtain rfl := (List.cons.inj hout).1
  obtain ⟨htimeout, hreply⟩ := answerType_echoRequest
  rcases httl with rfl | rfl
  · have htype := hechoes.type
    rw [icmpAnswer, icmpType_sendIcmp, htimeout] at htype
    exact absurd htype (by decide)
  · have hcarried := congrArg List.length hechoes.carried
    have hwanted : (carriedBy (echoRequest 64)).length = 8 := by decide +kernel
    rw [hwanted, icmpAnswer, icmpMessage_sendIcmp, List.length_drop, length_icmpHdr] at hcarried
    exact absurd hcarried (by decide)

/-- The same request with four bytes of options: a header of 24 bytes, with its checksum. -/
def optionsRequest : Input where
  interface := 1
  frame :=
    let header (sum : BitVec 16) : Bytes := [0x46, 0] ++ word (htons 36) ++ word (htons 1) ++
      word (0 : BitVec 16) ++ [64, IPPROTO_ICMP] ++ word sum ++ word (0x0100001e : BitVec 32) ++
        word (0x0200000a : BitVec 32) ++ [1, 1, 1, 0]
    let message (sum : BitVec 16) : Bytes := [ICMP_ECHO, 0] ++ word sum ++ word (htons 7) ++ word (htons 1) ++
      ascii "abcd"
    buildEthhdr (Vector.replicate 6 0x30) (Vector.replicate 6 0xa1) (htons ETHERTYPE_IP) ++
      (header (ipChecksum 18 (header 0)) ++ message (ipChecksum 42 (message 0)))
  stack := none

/-- The header checksum is taken over 20 bytes, so that a header with options is dropped. -/
theorem options_dropped (s : State) :
    step echoConfig s optionsRequest = some (zeroed (getPacket s optionsRequest), []) := by
  have hwhole : 42 ≤ optionsRequest.frame.length := by decide
  have htype : etherType.get (getPacket s optionsRequest).m.payload = htons ETHERTYPE_IP :=
    (get_of_whole hwhole s (by decide)).trans (by decide +kernel)
  have hnot : ¬ Summed (getPacket s optionsRequest).m.payload :=
    mt (summed_of_whole hwhole s).mp (by decide +kernel)
  simp only [step, if_neg (show ¬ etherType.get (getPacket s optionsRequest).m.payload = htons ETHERTYPE_ARP by
    rw [htype]; decide), if_pos htype, onIpv4_eq, if_pos hnot]

end Pcom.Tema1.Echo
