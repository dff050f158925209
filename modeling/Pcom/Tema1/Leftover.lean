import Pcom.Tema1.Branches
import Pcom.Tema1.Checksum
import Pcom.Tema1.Ttl

/-!
# What an earlier frame leaves in the buffer

`get_packet` overwrites as many bytes of the reused buffer as were received, and no branch compares that number
with the headers it reads: behind a short frame they are those of an earlier one.

* `Settled` — the bytes received settle every byte the reaction depends on;
* `independent_iff` — **the exact condition** under which the reaction to a frame is a matter of that frame;
* `short_request_answered_twice` — one short ARP request, answered to whoever asked before.
-/

namespace Pcom.Tema1.Leftover

open Function Pcom.Lib.Ipv4 Pcom.Lib.Memory Pcom.Lib.Scan Pcom.Lib.StepSystem Pcom.Lib.Sweep
  Pcom.Tema1.Branches Pcom.Tema1.Checksum Pcom.Tema1.Route Pcom.Tema1.Router Pcom.Tema1.Pending Pcom.Tema1.Skel
  Pcom.Tema1.Ttl

/-! ### The reaction to a frame -/

/-- What is sent, the ARP table and the queue, each packet as far as its length. -/
structure Reaction where
  sent : List (ℤ × Bytes)
  arpTable : List ArpEntry
  queue : List Bytes
  deriving DecidableEq

def reaction (r : State × List Sent) : Reaction where
  sent := r.2.map fun o => (o.interface, o.packet.frame)
  arpTable := r.1.arpTable
  queue := (contents r.1).map Packet.frame

/-- The reaction is the same, whatever was left in the buffer. -/
def Independent (cfg : Config) (s : State) (i : Input) : Prop :=
  ∀ b b' : Buf, (step cfg { s with m.payload := b } i).map reaction =
    (step cfg { s with m.payload := b' } i).map reaction

/-! ### The condition -/

/-- The bytes of the operation that were received are those of a request. -/
def MayRequest (frame : Bytes) : Prop :=
  (20 < frame.length → ofBytes frame 20 = 0) ∧ (21 < frame.length → ofBytes frame 21 = 1)

/-- A reply can be taken: there is room in the table, and every queued packet has a route. -/
def Usable (cfg : Config) (s : State) : Prop :=
  s.arpTable.length < ARP_TABLE_SIZE ∧ ∀ p ∈ contents s, Routed cfg p

/-- The received bytes settle the reaction. -/
def Settled (cfg : Config) (s : State) (i : Input) : Prop :=
  let frame := received i
  let payload := ofBytes frame
  if frame.length < 14 then frame.length = 13 ∧ payload 12 ≠ 8
  else if etherType.get payload = htons ETHERTYPE_ARP then
    32 ≤ frame.length ∨ ¬ MayRequest frame ∧ ¬ Usable cfg (getPacket s i)
  else if etherType.get payload = htons ETHERTYPE_IP then
    if frame.length < 34 then ∀ b, ¬ Summed (overwrite b frame)
    else frame.length = 34 → Accepted payload → (getBestRoute cfg.rtable (daddr.get payload)).isSome →
      protocol.get payload = 1 → cfg.interfaceIp i.interface ≠ daddr.get payload
  else True

/-! ### Frames that are built from fields -/

theorem sendArp_congr {b b' : Buf} (h : ∀ k < 14, b k = b' k) (daddr saddr : BitVec 32) (interface : ℤ)
    (arpOp : BitVec 16) : sendArp daddr saddr b interface arpOp = sendArp daddr saddr b' interface arpOp := by
  have hget (f : ByteField Mac) (hf : f.off + f.size ≤ 14) : f.get b = f.get b' :=
    ByteField.get_congr fun k hk => h k (lt_of_lt_of_le hk.2 hf)
  rw [sendArp, sendArp, hget etherShost (by decide), hget etherDhost (by decide),
    bytes_congr fun k _ hk => h k (by omega)]

theorem frame_localPacket (frame : Bytes) : (localPacket frame).frame = frame :=
  bytes_ofBytes frame

/-- The address an ARP frame is for is its last field. -/
theorem sendArp_inj {daddr daddr' saddr : BitVec 32} {b b' : Buf} {interface : ℤ} {arpOp : BitVec 16}
    (h : (sendArp daddr saddr b interface arpOp).packet.frame =
      (sendArp daddr' saddr b' interface arpOp).packet.frame) : word daddr = word daddr' := by
  simp only [sendArp, frame_localPacket, ← List.append_assoc] at h
  exact List.append_inj_right' h rfl

theorem word_inj {x y : BitVec 32} (h : word x = word y) (k : ℕ) (hk : k < 4) : byteOf x k = byteOf y k := by
  rw [word, word, List.map_inj_left] at h
  exact h k (List.mem_range.mpr hk)

/-! ### The branches of the loop body -/

variable {cfg : Config} {s : State} {i : Input} {b : Buf}

theorem step_of_request (harp : etherType.get (overwrite b (received i)) = htons ETHERTYPE_ARP)
    (hop : op.get (overwrite b (received i)) = htons ARPOP_REQUEST) :
    step cfg { s with m.payload := b } i = onArpRequest cfg (getPacket { s with m.payload := b } i) :=
  (if_pos harp).trans (if_pos hop)

theorem step_of_ipv4 (hip : etherType.get (overwrite b (received i)) = htons ETHERTYPE_IP) :
    step cfg { s with m.payload := b } i = onIpv4 cfg (getPacket { s with m.payload := b } i) := by
  have hne : ¬ etherType.get (overwrite b (received i)) = htons ETHERTYPE_ARP := by
    rw [hip]
    decide
  exact (if_neg hne).trans (if_pos hip)

theorem step_of_other (cfg : Config) (s : State) (harp : etherType.get (overwrite b (received i)) ≠ htons ETHERTYPE_ARP)
    (hip : etherType.get (overwrite b (received i)) ≠ htons ETHERTYPE_IP) :
    step cfg { s with m.payload := b } i = some (getPacket { s with m.payload := b } i, []) :=
  (if_neg harp).trans (if_neg hip)

theorem answerHeader_congr {m : Packet} (h : ∀ k < 14, b k = m.payload k) :
    ∀ k < 14, answerHeader cfg { m with payload := b } k = answerHeader cfg m k := by
  have hshost : etherShost.get b = etherShost.get m.payload :=
    ByteField.get_congr fun k hk => h k (lt_of_lt_of_le hk.2 (by decide))
  intro k hk
  simp only [answerHeader, hshost]
  exact ByteField.set_congr fun _ => ByteField.set_congr fun _ => ByteField.set_congr fun _ => h k hk

/-- **A request is answered**, to the address in its sender field. -/
theorem onArpRequest_reaction (cfg : Config) (s : State) : (onArpRequest cfg s).map reaction =
    some ⟨[(s.m.interface, (sendArp (spa.get s.m.payload) (cfg.interfaceIp s.m.interface)
      (answerHeader cfg s.m) s.m.interface (htons ARPOP_REPLY)).packet.frame)],
      s.arpTable, (contents s).map Packet.frame⟩ := by
  rw [onArpRequest_eq]
  rfl

theorem reaction_enqueue (cfg : Config) (s : State) (route : RouteTableEntry) :
    (enqueue cfg s route).map reaction = some ⟨[(route.interface, (sendArp route.nextHop
      (cfg.interfaceIp route.interface) (requestHeader cfg s.m.payload route) route.interface
        (htons ARPOP_REQUEST)).packet.frame)], s.arpTable,
      (s.q ++ [Ref.heap s.brk]).map (update (Packet.frame ∘ s.mem) (Ref.heap s.brk) s.m.frame)⟩ := by
  rw [enqueue_eq, Option.map_some, ← comp_update, ← List.map_map]
  rfl

theorem reaction_forward (s : State) (route : RouteTableEntry) (arpX : ArpEntry) :
    reaction (forward s route arpX) =
      ⟨[(route.interface, bytes (etherDhost.set (decrementTtl s.m.payload) arpX.mac) 0 s.m.len)], s.arpTable,
        (contents s).map Packet.frame⟩ :=
  rfl

/-! ### The received bytes suffice -/

/-- A request is answered in the same way to any buffer that agrees on its sender. -/
theorem onArpRequest_congr (hsame : ∀ k < 32, b k = s.m.payload k) :
    (onArpRequest cfg { s with m.payload := b }).map reaction = (onArpRequest cfg s).map reaction := by
  have hspa : spa.get b = spa.get s.m.payload :=
    ByteField.get_congr fun k hk => hsame k (lt_of_lt_of_le hk.2 (by decide))
  rw [onArpRequest_reaction, onArpRequest_reaction, hspa,
    sendArp_congr (answerHeader_congr fun k hk => hsame k (by omega))]
  rfl

theorem onArpReply_congr (hsame : ∀ k < 32, b k = s.m.payload k) :
    (onArpReply cfg { s with m.payload := b }).map reaction = (onArpReply cfg s).map reaction := by
  have hspa : spa.get b = spa.get s.m.payload :=
    ByteField.get_congr fun k hk => hsame k (lt_of_lt_of_le hk.2 (by decide))
  have hsha : sha.get b = sha.get s.m.payload :=
    ByteField.get_congr fun k hk => hsame k (lt_of_lt_of_le hk.2 (by decide))
  simp only [onArpReply, hspa, hsha]
  split
  · rw [Option.map_map, Option.map_map]
    rfl
  · rfl

/-- **A buffer that agrees with another on a complete header** leads to the same reaction, unless the type of an
ICMP message addressed to the router is behind the frame. -/
theorem onIpv4_congr (hlen : 34 ≤ s.m.len) (hsame : ∀ k < s.m.len, b k = s.m.payload k)
    (hicmp : Accepted s.m.payload → (getBestRoute cfg.rtable (daddr.get s.m.payload)).isSome →
      protocol.get s.m.payload = 1 → cfg.interfaceIp s.m.interface = daddr.get s.m.payload →
        icmpType.get b = icmpType.get s.m.payload) :
    (onIpv4 cfg { s with m.payload := b }).map reaction = (onIpv4 cfg s).map reaction := by
  have hget {α : Type} (f : ByteField α) (hf : f.off + f.size ≤ 34) : f.get b = f.get s.m.payload :=
    ByteField.get_congr fun k hk => hsame k (lt_of_lt_of_le hk.2 (le_trans hf hlen))
  have hhdr : ∀ k, 14 ≤ k → k < 34 → b k = s.m.payload k := fun k _ hk => hsame k (by omega)
  have hzero : ∀ k < s.m.len, check.set b 0 k = check.set s.m.payload 0 k := fun k hk =>
    ByteField.set_congr fun _ => hsame k hk
  have hsummed : Summed b ↔ Summed s.m.payload := by
    rw [Summed, Summed, headerChecksum_congr hhdr, hget check (by decide)]
  have hanswer (type : UInt8) (id : BitVec 32) :
      icmpAnswer { s.m with payload := b } type id = icmpAnswer s.m type id := by
    simp only [icmpAnswer, hget saddr (by decide), hget daddr (by decide), hget etherDhost (by decide),
      hget etherShost (by decide)]
  simp only [onIpv4_eq, hsummed, hanswer, hget ttl (by decide), hget daddr (by decide),
    hget protocol (by decide)]
  by_cases hsum : Summed s.m.payload
  swap
  · rw [if_pos hsum, if_pos hsum]
    rfl
  rw [if_neg (not_not.mpr hsum), if_neg (not_not.mpr hsum)]
  by_cases httl : ttl.get s.m.payload ≤ 1
  · rw [if_pos httl, if_pos httl]
    rfl
  rw [if_neg httl, if_neg httl]
  cases hroute : getBestRoute cfg.rtable (daddr.get s.m.payload) with
  | none => rfl
  | some route =>
    have hecho : (protocol.get s.m.payload = 1 ∧ icmpType.get b = ICMP_ECHO ∧
        cfg.interfaceIp s.m.interface = daddr.get s.m.payload) ↔ (protocol.get s.m.payload = 1 ∧
          icmpType.get s.m.payload = ICMP_ECHO ∧ cfg.interfaceIp s.m.interface = daddr.get s.m.payload) := by
      refine and_congr_right fun hproto => and_congr_left fun hown => ?_
      rw [hicmp ⟨hsum, UInt8.not_le.mp httl⟩ (by rw [hroute]; rfl) hproto hown]
    simp only [hecho]
    split
    · rfl
    cases getArpEntry s.arpTable (daddr.get s.m.payload) with
    | none =>
      have hhead : ∀ k < 14, requestHeader cfg (check.set b 0) route k =
          requestHeader cfg (check.set s.m.payload 0) route k := fun k hk =>
        ByteField.set_congr fun _ => ByteField.set_congr fun _ => ByteField.set_congr fun _ =>
          hzero k (by omega)
      have hframe : bytes (check.set b 0) 0 s.m.len = bytes (check.set s.m.payload 0) 0 s.m.len :=
        bytes_congr fun k _ hk => hzero k (by omega)
      simp only [reaction_enqueue, zeroed, sendArp_congr hhead, Packet.frame, hframe]
    | some arpX =>
      have hframe : bytes (etherDhost.set (decrementTtl (check.set b 0)) arpX.mac) 0 s.m.len =
          bytes (etherDhost.set (decrementTtl (check.set s.m.payload 0)) arpX.mac) 0 s.m.len :=
        bytes_congr fun k _ hk => ByteField.set_congr fun _ =>
          decrementTtl_congr hlen hzero k (by omega)
      simp only [Option.map_some, reaction_forward, zeroed, hframe]
      rfl

/-! ### Bytes behind the frame -/

/-- An ARP request whose sender address ends in a given byte. -/
def staleRequest (x : UInt8) : Buf := fun k =>
  if k = 12 then 8 else if k = 13 then 6 else if k = 21 then 1 else if k = 31 then x else 0

variable {frame : Bytes}

theorem etherType_eq_arp (h₁ : b 12 = 8) (h₂ : b 13 = 6) : etherType.get b = htons ETHERTYPE_ARP :=
  le16_get_eq h₁ h₂

theorem etherType_byte {w : BitVec 16} (h : etherType.get b = w) : b 12 = byteOf w 0 := by
  rw [← h]
  exact (byteOf_le16 (k := 0) 12 b (by decide)).symm

theorem mayRequest_of_op (h : op.get (overwrite b frame) = htons ARPOP_REQUEST) : MayRequest frame := by
  have hbyte (k : ℕ) (hk : k < 2) (hlt : 20 + k < frame.length) :
      ofBytes frame (20 + k) = byteOf (htons ARPOP_REQUEST) k := by
    rw [← h, ← overwrite_eq_ofBytes hlt]
    exact (byteOf_le16 20 _ hk).symm
  exact ⟨hbyte 0 (by decide), hbyte 1 (by decide)⟩

/-- A frame that is too short to hold an operation other than the request becomes one. -/
theorem op_staleRequest (h : MayRequest frame) (x : UInt8) :
    op.get (overwrite (staleRequest x) frame) = htons ARPOP_REQUEST := by
  have hbyte (k : ℕ) (hreceived : k < frame.length → ofBytes frame k = staleRequest x k) :
      overwrite (staleRequest x) frame k = staleRequest x k := by
    by_cases hk : k < frame.length
    · rw [overwrite_eq_ofBytes hk, hreceived hk]
    · exact overwrite_of_le (not_lt.mp hk)
  exact le16_get_eq (hbyte 20 h.1) (hbyte 21 h.2)

/-- The end of the sender address is behind a frame of less than 32 bytes. -/
theorem spa_staleRequest (hlen : frame.length < 32) (x : UInt8) :
    byteOf (spa.get (overwrite (staleRequest x) frame)) 3 = x := by
  refine (byteOf_le32 28 _ (by decide)).trans ?_
  exact overwrite_of_le (by omega)

theorem reaction_of_request (cfg : Config) (s : State)
    (harp : etherType.get (overwrite b (received i)) = htons ETHERTYPE_ARP)
    (hop : op.get (overwrite b (received i)) = htons ARPOP_REQUEST) : ∃ header queue,
      (step cfg { s with m.payload := b } i).map reaction = some ⟨[(i.interface,
        (sendArp (spa.get (overwrite b (received i))) (cfg.interfaceIp i.interface) header i.interface
          (htons ARPOP_REPLY)).packet.frame)], s.arpTable, queue⟩ := by
  rw [step_of_request harp hop, onArpRequest_reaction]
  exact ⟨answerHeader cfg (getPacket { s with m.payload := b } i).m, _, rfl⟩

/-- Too short for a type, and possibly ARP or IPv4: a request may be read, or nothing. -/
theorem not_independent_of_type (hlen : (received i).length < 14)
    (h8 : 12 < (received i).length → ofBytes (received i) 12 = 8) : ¬ Independent cfg s i := by
  intro hind
  have hbyte (b : Buf) (h : b 12 = 8) : overwrite b (received i) 12 = 8 := by
    by_cases hk : 12 < (received i).length
    · rw [overwrite_eq_ofBytes hk, h8 hk]
    · rw [overwrite_of_le (not_lt.mp hk), h]
  have htype (b : Buf) : overwrite b (received i) 13 = b 13 := overwrite_of_le (by omega)
  obtain ⟨header, queue, hrequest⟩ := reaction_of_request cfg s
    (etherType_eq_arp (hbyte (staleRequest 0) rfl) (htype _)) (op_staleRequest
      ⟨fun h => absurd h (by omega), fun h => absurd h (by omega)⟩ 0)
  have hneither {w : BitVec 16} (hw : byteOf w 1 ≠ 0xff) :
      etherType.get (overwrite (fun _ => 0xff) (received i)) ≠ w := by
    rintro rfl
    exact hw ((byteOf_le16 12 _ (by decide)).trans (htype fun _ => 0xff))
  have hnothing := step_of_other cfg s (hneither (by decide)) (hneither (by decide))
  have heq := hind (staleRequest 0) fun _ => 0xff
  rw [hrequest, hnothing, Option.map_some, Option.some.injEq] at heq
  have hsent := congrArg (fun r => r.sent.length) heq
  exact absurd hsent (by simp [reaction])

/-- A request whose sender address is not complete is answered to whoever asked before. -/
theorem not_independent_of_request (hlen : (received i).length < 32)
    (harp : ∀ b, etherType.get (overwrite b (received i)) = htons ETHERTYPE_ARP)
    (hmay : MayRequest (received i)) : ¬ Independent cfg s i := by
  intro hind
  obtain ⟨header, queue, h⟩ := reaction_of_request cfg s (harp _) (op_staleRequest hmay 0)
  obtain ⟨header', queue', h'⟩ := reaction_of_request cfg s (harp _)
    (op_staleRequest hmay 1)
  have heq := hind (staleRequest 0) (staleRequest 1)
  simp only [h, h', Option.some.injEq, Reaction.mk.injEq, List.cons.injEq, Prod.mk.injEq, true_and,
    and_true] at heq
  have hspa := word_inj (sendArp_inj heq.1) 3 (by decide)
  rw [spa_staleRequest hlen, spa_staleRequest hlen] at hspa
  exact absurd hspa (by decide)

/-- A reply whose sender address is not complete is noted for an address of before. -/
theorem not_independent_of_reply (hlen : (received i).length < 32)
    (harp : ∀ b, etherType.get (overwrite b (received i)) = htons ETHERTYPE_ARP)
    (hmay : ¬ MayRequest (received i)) (huse : Usable cfg (getPacket s i)) : ¬ Independent cfg s i := by
  intro hind
  have hreply (x : UInt8) : ∃ mac, ((step cfg { s with m.payload := staleRequest x } i).map reaction).map
      Reaction.arpTable = some (s.arpTable ++ [⟨spa.get (overwrite (staleRequest x) (received i)), mac⟩]) := by
    have ha : announced (getPacket { s with m.payload := staleRequest x } i) = some
        ⟨spa.get (overwrite (staleRequest x) (received i)), sha.get (overwrite (staleRequest x) (received i))⟩ :=
      announced_eq_some.mpr ⟨harp _, fun hop => hmay (mayRequest_of_op hop), rfl⟩
    rw [(step_of_reply ha).mpr ⟨huse.1, fun r hr => huse.2 _ (List.mem_map_of_mem hr), rfl⟩]
    exact ⟨_, rfl⟩
  obtain ⟨mac, h⟩ := hreply 0
  obtain ⟨mac', h'⟩ := hreply 1
  have heq := congrArg (Option.map Reaction.arpTable) (hind (staleRequest 0) (staleRequest 1))
  rw [h, h', Option.some.injEq, List.append_cancel_left_eq, List.cons.injEq, ArpEntry.mk.injEq] at heq
  have hspa := congrArg (byteOf · 3) heq.1.1
  rw [spa_staleRequest hlen, spa_staleRequest hlen] at hspa
  exact absurd hspa (by decide)

theorem sent_of_not_summed (cfg : Config) {s : State} (h : ¬ Summed s.m.payload) :
    onIpv4 cfg s = some (zeroed s, []) := by
  rw [onIpv4_eq, if_pos h]

/-- **A header that passes the checksum test has a consequence**: exactly one frame is sent. -/
theorem sent_of_summed (cfg : Config) {s : State} (h : Summed s.m.payload) : ∃ s' o, onIpv4 cfg s = some (s', [o]) := by
  rw [onIpv4_eq, if_neg (not_not.mpr h)]
  split
  · exact ⟨_, _, rfl⟩
  split
  · exact ⟨_, _, rfl⟩
  split
  · exact ⟨_, _, rfl⟩
  split
  · rw [enqueue_eq]
    exact ⟨_, _, rfl⟩
  · exact ⟨_, _, rfl⟩

/-- A header that stale bytes complete is dropped with others. -/
theorem not_independent_of_summed (hlen : (received i).length < 34)
    (hip : ∀ b, etherType.get (overwrite b (received i)) = htons ETHERTYPE_IP)
    (hsum : Summed (overwrite b (received i))) : ¬ Independent cfg s i := by
  intro hind
  have hbad : ¬ Summed (overwrite (update b 33 (b 33 + 1)) (received i)) := not_summed_of_free hlen hsum
  obtain ⟨s', o, h⟩ := sent_of_summed cfg (s := getPacket { s with m.payload := b } i) hsum
  have h' := sent_of_not_summed cfg
    (s := getPacket { s with m.payload := update b 33 (b 33 + 1) } i) hbad
  have heq := hind b (update b 33 (b 33 + 1))
  rw [step_of_ipv4 (hip _), step_of_ipv4 (hip _), h, h', Option.map_some, Option.map_some,
    Option.some.injEq] at heq
  have hsent := congrArg (fun r => r.sent.length) heq
  exact absurd hsent (by simp [reaction])

/-- An echo request to the router is answered in a frame of 42 bytes, and nothing waits. -/
theorem reaction_of_echo {s : State} (hacc : Accepted s.m.payload)
    (hroute : (getBestRoute cfg.rtable (daddr.get s.m.payload)).isSome)
    (hecho : protocol.get s.m.payload = 1 ∧ icmpType.get s.m.payload = ICMP_ECHO ∧
      cfg.interfaceIp s.m.interface = daddr.get s.m.payload) :
    ∃ interface frame, (onIpv4 cfg s).map reaction =
      some ⟨[(interface, frame)], s.arpTable, (contents s).map Packet.frame⟩ ∧ frame.length = 42 := by
  obtain ⟨route, hroute⟩ := Option.isSome_iff_exists.mp hroute
  have hsum : Summed s.m.payload := hacc.checksum
  rw [onIpv4_eq, if_neg (not_not.mpr hsum), if_neg (UInt8.not_le.mpr hacc.ttl), hroute]
  dsimp only
  rw [if_pos hecho]
  refine ⟨_, _, rfl, ?_⟩
  simp [icmpAnswer, sendIcmp, frame_localPacket, buildEthhdr, icmpIpHdr, icmpHdr, length_word]

/-- Any other packet joins the queue or is sent on in a frame of its length. -/
theorem reaction_of_not_echo {s : State} (hacc : Accepted s.m.payload)
    (hroute : (getBestRoute cfg.rtable (daddr.get s.m.payload)).isSome)
    (hecho : ¬ (protocol.get s.m.payload = 1 ∧ icmpType.get s.m.payload = ICMP_ECHO ∧
      cfg.interfaceIp s.m.interface = daddr.get s.m.payload)) :
    ∃ interface frame queue, (onIpv4 cfg s).map reaction = some ⟨[(interface, frame)], s.arpTable, queue⟩ ∧
      (queue.length = s.q.length + 1 ∨ frame.length = s.m.len) := by
  obtain ⟨route, hroute⟩ := Option.isSome_iff_exists.mp hroute
  have hsum : Summed s.m.payload := hacc.checksum
  rw [onIpv4_eq, if_neg (not_not.mpr hsum), if_neg (UInt8.not_le.mpr hacc.ttl), hroute]
  dsimp only
  rw [if_neg hecho]
  cases getArpEntry s.arpTable (daddr.get s.m.payload) with
  | none =>
    dsimp only
    rw [reaction_enqueue]
    exact ⟨_, _, _, rfl, Or.inl (by simp [zeroed])⟩
  | some arpX =>
    dsimp only
    rw [Option.map_some, reaction_forward]
    exact ⟨_, _, _, rfl, Or.inr (by simp [bytes, zeroed])⟩

/-- The type of an ICMP message to the router is behind a frame of 34 bytes: it is answered or forwarded. -/
theorem not_independent_of_icmp (hlen : (received i).length = 34)
    (hip : ∀ b, etherType.get (overwrite b (received i)) = htons ETHERTYPE_IP)
    (hacc : Accepted (ofBytes (received i)))
    (hroute : (getBestRoute cfg.rtable (daddr.get (ofBytes (received i)))).isSome)
    (hproto : protocol.get (ofBytes (received i)) = 1)
    (hown : cfg.interfaceIp i.interface = daddr.get (ofBytes (received i))) : ¬ Independent cfg s i := by
  intro hind
  have hget {α : Type} (f : ByteField α) (hf : f.off + f.size ≤ 34) (b : Buf) :
      f.get (overwrite b (received i)) = f.get (ofBytes (received i)) :=
    ByteField.get_overwrite (le_trans hf (ge_of_eq hlen))
  have hsum (b : Buf) : Summed (overwrite b (received i)) := by
    have hhdr : ∀ k, 14 ≤ k → k < 34 → overwrite b (received i) k = ofBytes (received i) k :=
      fun k _ hk => overwrite_eq_ofBytes (by omega)
    rw [Summed, headerChecksum_congr hhdr, hget check (by decide)]
    exact hacc.checksum
  have htype (x : UInt8) : icmpType.get (overwrite (fun _ => x) (received i)) = x :=
    overwrite_of_le (b := fun _ => x) (le_of_eq hlen)
  have hok (x : UInt8) : Accepted (overwrite (fun _ => x) (received i)) :=
    ⟨hsum _, lt_of_lt_of_eq hacc.ttl (hget ttl (by decide) _).symm⟩
  have hroute' (x : UInt8) :
      (getBestRoute cfg.rtable (daddr.get (overwrite (fun _ => x) (received i)))).isSome := by
    rw [hget daddr (by decide)]
    exact hroute
  obtain ⟨_, _, hecho, hlong⟩ := reaction_of_echo
    (s := getPacket { s with m.payload := fun _ => ICMP_ECHO } i) (hok _) (hroute' _)
    ⟨(hget protocol (by decide) _).trans hproto, htype _, hown.trans (hget daddr (by decide) _).symm⟩
  obtain ⟨_, _, _, hother, hshort⟩ := reaction_of_not_echo
    (s := getPacket { s with m.payload := fun _ => 0 } i) (hok _) (hroute' _)
    (fun h => absurd ((htype 0).symm.trans h.2.1) (by decide))
  have heq := hind (fun _ => ICMP_ECHO) fun _ => 0
  rw [step_of_ipv4 (hip _), step_of_ipv4 (hip _), hecho, hother, Option.some.injEq] at heq
  have hqueue := congrArg (fun r => r.queue.length) heq
  have hframe := congrArg (fun r => r.sent.map fun p => p.2.length) heq
  simp only [List.length_map, contents, List.map_cons, List.map_nil, List.cons.injEq, and_true, hlong]
    at hqueue hframe
  rcases hshort with hshort | hshort
  · rw [hshort] at hqueue
    exact absurd hqueue (Nat.ne_of_lt (Nat.lt_succ_self _))
  · rw [hshort] at hframe
    exact absurd (hframe.trans hlen) (by decide)

/-! ### The exact condition -/

theorem independent_of_other (h : ∀ b, etherType.get (overwrite b (received i)) ≠ htons ETHERTYPE_ARP ∧
    etherType.get (overwrite b (received i)) ≠ htons ETHERTYPE_IP) : Independent cfg s i := by
  intro b b'
  rw [step_of_other cfg s (h b).1 (h b).2, step_of_other cfg s (h b').1 (h b').2]
  rfl

theorem independent_of_arp (harp : ∀ b, etherType.get (overwrite b (received i)) = htons ETHERTYPE_ARP)
    (hlen : 32 ≤ (received i).length) : Independent cfg s i := by
  intro b b'
  have hsame : ∀ k < 32, overwrite b (received i) k = overwrite b' (received i) k := fun k hk =>
    overwrite_same b b' _ k (by omega)
  have hop : op.get (overwrite b (received i)) = op.get (overwrite b' (received i)) :=
    ByteField.get_congr fun k hk => hsame k (lt_of_lt_of_le hk.2 (by decide))
  have hread (b : Buf) : (getPacket { s with m.payload := b } i).m.payload = overwrite b (received i) := rfl
  simp only [step, hread, harp, if_true, hop]
  split
  · exact onArpRequest_congr (s := getPacket { s with m.payload := b' } i) hsame
  · exact onArpReply_congr (s := getPacket { s with m.payload := b' } i) hsame

/-- A reply that cannot be taken is not. -/
theorem independent_of_unusable (harp : ∀ b, etherType.get (overwrite b (received i)) = htons ETHERTYPE_ARP)
    (hmay : ¬ MayRequest (received i)) (huse : ¬ Usable cfg (getPacket s i)) : Independent cfg s i := by
  have hnone (b : Buf) : step cfg { s with m.payload := b } i = none := by
    have ha : announced (getPacket { s with m.payload := b } i) = some
        ⟨spa.get (overwrite b (received i)), sha.get (overwrite b (received i))⟩ :=
      announced_eq_some.mpr ⟨harp _, fun hop => hmay (mayRequest_of_op hop), rfl⟩
    refine Option.eq_none_iff_forall_ne_some.mpr fun res hres => huse ?_
    obtain ⟨hroom, hrouted, -⟩ := (step_of_reply ha).mp hres
    refine ⟨hroom, fun p hp => ?_⟩
    obtain ⟨r, hr, rfl⟩ := List.mem_map.mp hp
    exact hrouted r hr
  intro b b'
  rw [hnone, hnone]

theorem independent_of_not_summed (hip : ∀ b, etherType.get (overwrite b (received i)) = htons ETHERTYPE_IP)
    (hsum : ∀ b, ¬ Summed (overwrite b (received i))) : Independent cfg s i := by
  have hdropped (b : Buf) := sent_of_not_summed cfg (s := getPacket { s with m.payload := b } i) (hsum b)
  intro b b'
  rw [step_of_ipv4 (hip b), step_of_ipv4 (hip b'), hdropped, hdropped]
  rfl

theorem independent_of_header (hip : ∀ b, etherType.get (overwrite b (received i)) = htons ETHERTYPE_IP)
    (hlen : 34 ≤ (received i).length)
    (hicmp : (received i).length = 34 → Accepted (ofBytes (received i)) →
      (getBestRoute cfg.rtable (daddr.get (ofBytes (received i)))).isSome →
        protocol.get (ofBytes (received i)) = 1 →
          cfg.interfaceIp i.interface ≠ daddr.get (ofBytes (received i))) : Independent cfg s i := by
  intro b b'
  rw [step_of_ipv4 (hip b), step_of_ipv4 (hip b')]
  refine onIpv4_congr (s := getPacket { s with m.payload := b' } i) hlen
    (fun k hk => overwrite_same b b' _ k hk) fun hacc hroute hproto hown => ?_
  have hread : (getPacket { s with m.payload := b' } i).m.payload = overwrite b' (received i) := rfl
  rcases eq_or_lt_of_le hlen with heq | hlt
  · have hget {α : Type} (f : ByteField α) (hf : f.off + f.size ≤ 34) :
        f.get (overwrite b' (received i)) = f.get (ofBytes (received i)) :=
      ByteField.get_overwrite (le_trans hf hlen)
    rw [hread] at hacc hroute hproto hown
    rw [hget daddr (by decide)] at hroute hown
    rw [hget protocol (by decide)] at hproto
    refine absurd hown (hicmp heq.symm (accepted_congr (fun k _ hk => ?_) hacc) hroute hproto)
    exact overwrite_eq_ofBytes (by omega)
  · exact ByteField.get_congr fun k hk => overwrite_same b b' _ k (lt_of_lt_of_le hk.2 hlt)

/-- **The reaction to a frame is a matter of that frame exactly when** the bytes received settle it. -/
theorem independent_iff (cfg : Config) (s : State) (i : Input) :
    Independent cfg s i ↔ Settled cfg s i := by
  have htype (h : 14 ≤ (received i).length) (b : Buf) :
      etherType.get (overwrite b (received i)) = etherType.get (ofBytes (received i)) :=
    ByteField.get_overwrite h
  simp only [Settled]
  split_ifs with hshort harp hip hlen
  · constructor
    · intro hind
      by_contra hno
      refine not_independent_of_type hshort (fun h => ?_) hind
      by_contra h8
      exact hno ⟨by omega, h8⟩
    · intro ⟨h13, h8⟩
      have hneither {w : BitVec 16} (hw : byteOf w 0 = 8) (b : Buf) :
          etherType.get (overwrite b (received i)) ≠ w := fun h =>
        h8 ((overwrite_eq_ofBytes (by omega)).symm.trans ((etherType_byte h).trans hw))
      exact independent_of_other fun b => ⟨hneither (by decide) b, hneither (by decide) b⟩
  · have harp' (b : Buf) := (htype (not_lt.mp hshort) b).trans harp
    constructor
    · intro hind
      by_contra hno
      obtain ⟨hlen, hno⟩ := not_or.mp hno
      by_cases hmay : MayRequest (received i)
      · exact not_independent_of_request (not_le.mp hlen) harp' hmay hind
      · exact not_independent_of_reply (not_le.mp hlen) harp' hmay (not_not.mp fun huse => hno ⟨hmay, huse⟩) hind
    · rintro (hlen | ⟨hmay, huse⟩)
      · exact independent_of_arp harp' hlen
      · exact independent_of_unusable harp' hmay huse
  · have hip' (b : Buf) := (htype (not_lt.mp hshort) b).trans hip
    exact ⟨fun hind b hsum => not_independent_of_summed hlen hip' hsum hind, independent_of_not_summed hip'⟩
  · have hip' (b : Buf) := (htype (not_lt.mp hshort) b).trans hip
    refine ⟨fun hind h34 hacc hroute hproto hown => ?_, independent_of_header hip' (not_lt.mp hlen)⟩
    exact not_independent_of_icmp h34 hip' hacc hroute hproto hown hind
  · refine ⟨fun _ => trivial, fun _ => independent_of_other fun b => ?_⟩
    rw [htype (not_lt.mp hshort)]
    exact ⟨harp, hip⟩

/-- A frame of neither protocol, which is ignored; its last byte is where an ARP header has the end of its sender
address. -/
def ignored (x : UInt8) : Input :=
  ⟨0, buildEthhdr (Vector.replicate 6 0xa0) (Vector.replicate 6 0x30) 0 ++ List.replicate 17 0 ++ [x], none⟩

/-- An ARP request that ends in front of its sender address. -/
def shortRequest : Input :=
  ⟨0, buildEthhdr (Vector.replicate 6 0x30) (Vector.replicate 6 0xff) (htons ETHERTYPE_ARP) ++
    word (htons ARPHRD_ETHER) ++ word (htons 2048) ++ [6, 4] ++ word (htons ARPOP_REQUEST), none⟩

/-- **One request, two answers**: after an ignored frame, a short ARP request is answered to an address that frame
has left behind. -/
theorem short_request_answered_twice : ∃ h h' s b, Run (Steps (step sampleConfig)) sampleInit h s ∧
    Run (Steps (step sampleConfig)) sampleInit h' { s with m.payload := b } ∧
      (step sampleConfig s shortRequest).map reaction ≠
        (step sampleConfig { s with m.payload := b } shortRequest).map reaction ∧
      ¬ Independent sampleConfig s shortRequest := by
  have hrun (x : UInt8) (hx : etherType.get (getPacket sampleInit (ignored x)).m.payload = 0) :
      Run (Steps (step sampleConfig)) sampleInit [⟨sampleInit, ignored x, []⟩]
        (getPacket sampleInit (ignored x)) :=
    Run.start.next (step_of_other sampleConfig sampleInit (b := sampleInit.m.payload)
      (ne_of_eq_of_ne hx (by decide)) (ne_of_eq_of_ne hx (by decide)))
  have hdiff : (step sampleConfig (getPacket sampleInit (ignored 1)) shortRequest).map reaction ≠
      (step sampleConfig (getPacket sampleInit (ignored 2)) shortRequest).map reaction := by
    decide +kernel
  exact ⟨_, _, getPacket sampleInit (ignored 1), (getPacket sampleInit (ignored 2)).m.payload,
    hrun 1 (by decide), hrun 2 (by decide), hdiff, fun hind => hdiff (hind _ _)⟩

end Pcom.Tema1.Leftover
