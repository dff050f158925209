import Pcom.Lib.Stages
import Pcom.Tema1.Leftover
import Pcom.Tema1.Responder

/-!
# A router on the way to one destination

Packets for one destination go on to one next hop.  Until the next hop is known they wait, and each of them has it
asked for; then those with the next hop's own address are forwarded at once, and the others wait for the next reply.

* `Carries` — the router as a stage: what has come is what has been forwarded, followed by what waits;
* `Carries.step` — **every turn keeps it**, whatever packets, requests and replies come, in any order;
* `Carries.step_ne_none` — a turn is undefined only where the ARP table is full.
-/

namespace Pcom.Tema1.Relay

open Function Pcom.Lib.Memory Pcom.Lib.Scan Pcom.Lib.Stages Pcom.Tema1.Branches Pcom.Tema1.Echo Pcom.Tema1.Leftover
open Pcom.Tema1.Pending Pcom.Tema1.Responder Pcom.Tema1.Route Pcom.Tema1.Router Pcom.Tema1.Skel Pcom.Tema1.Ttl

/-! ### What comes and what goes -/

/-- A router, a destination, the route to it, and the hardware address of the next hop. -/
structure Hop where
  cfg : Config
  dest : BitVec 32
  route : RouteTableEntry
  mac : Mac
  best : getBestRoute cfg.rtable dest = some route

/-- What the next hop replies. -/
def Hop.next (hop : Hop) : ArpEntry := ⟨hop.route.nextHop, hop.mac⟩

/-- What the router asks. -/
def Hop.request (hop : Hop) : Sent :=
  sendArp hop.route.nextHop (hop.cfg.interfaceIp hop.route.interface)
    (requestHeader hop.cfg (ofBytes []) hop.route) hop.route.interface (htons ARPOP_REQUEST)

/-- What the router answers to a request. -/
def answer (cfg : Config) (i : Input) : Sent :=
  sendArp (spa.get (ofBytes i.frame)) (cfg.interfaceIp i.interface)
    (answerHeader cfg ⟨0, ofBytes i.frame, i.interface⟩) i.interface (htons ARPOP_REPLY)

/-- The frame is of the type of IPv4. -/
def IsIp (f : Bytes) : Prop := etherType.get (ofBytes f) = htons ETHERTYPE_IP

instance (f : Bytes) : Decidable (IsIp f) := inferInstanceAs (Decidable (_ = _))

/-- The packets among the frames. -/
def packets (fs : List Bytes) : List Bytes := fs.filter fun f => IsIp f

/-- The packets forwarded. -/
def forwarded (out : List Sent) : List Bytes :=
  (out.filter fun o => o.origin = .forward).map fun o => o.packet.frame

/-- A packet with a right header, for the destination. -/
structure Passes (hop : Hop) (f : Bytes) : Prop where
  header : 34 ≤ f.length
  type : IsIp f
  accepted : Accepted (ofBytes f)
  dest : daddr.get (ofBytes f) = hop.dest

instance (hop : Hop) (f : Bytes) : Decidable (Passes hop f) :=
  decidable_of_iff (34 ≤ f.length ∧ IsIp f ∧ Accepted (ofBytes f) ∧ daddr.get (ofBytes f) = hop.dest)
    ⟨fun ⟨hheader, htype, hacc, hdest⟩ => ⟨hheader, htype, hacc, hdest⟩,
      fun ⟨hheader, htype, hacc, hdest⟩ => ⟨hheader, htype, hacc, hdest⟩⟩

/-- A packet is received, not on the interface with the address of the destination. -/
structure Bound (hop : Hop) (i : Input) : Prop where
  passes : Passes hop (received i)
  foreign : hop.cfg.interfaceIp i.interface ≠ hop.dest

instance (hop : Hop) (i : Input) : Decidable (Bound hop i) :=
  decidable_of_iff (Passes hop (received i) ∧ hop.cfg.interfaceIp i.interface ≠ hop.dest)
    ⟨fun ⟨hpasses, hforeign⟩ => ⟨hpasses, hforeign⟩, fun ⟨hpasses, hforeign⟩ => ⟨hpasses, hforeign⟩⟩

/-- The next hop replies. -/
structure Reply (hop : Hop) (i : Input) : Prop where
  whole : 42 ≤ i.frame.length
  type : etherType.get (ofBytes i.frame) = htons ETHERTYPE_ARP
  op : op.get (ofBytes i.frame) ≠ htons ARPOP_REQUEST
  next : (⟨spa.get (ofBytes i.frame), sha.get (ofBytes i.frame)⟩ : ArpEntry) = hop.next

instance (hop : Hop) (i : Input) : Decidable (Reply hop i) :=
  decidable_of_iff (42 ≤ i.frame.length ∧ etherType.get (ofBytes i.frame) = htons ETHERTYPE_ARP ∧
      op.get (ofBytes i.frame) ≠ htons ARPOP_REQUEST ∧
        (⟨spa.get (ofBytes i.frame), sha.get (ofBytes i.frame)⟩ : ArpEntry) = hop.next)
    ⟨fun ⟨hwhole, htype, hop, hnext⟩ => ⟨hwhole, htype, hop, hnext⟩,
      fun ⟨hwhole, htype, hop, hnext⟩ => ⟨hwhole, htype, hop, hnext⟩⟩

instance (i : Input) : Decidable (ArpRequest i) :=
  decidable_of_iff (42 ≤ i.frame.length ∧ etherType.get (ofBytes i.frame) = htons ETHERTYPE_ARP ∧
      op.get (ofBytes i.frame) = htons ARPOP_REQUEST)
    ⟨fun ⟨hwhole, htype, hop⟩ => ⟨hwhole, htype, hop⟩, fun ⟨hwhole, htype, hop⟩ => ⟨hwhole, htype, hop⟩⟩

/-- The frames that come. -/
inductive Expected (hop : Hop) (i : Input) : Prop
  | bound : Bound hop i → Expected hop i
  | reply : Reply hop i → Expected hop i
  | request : ArpRequest i → Expected hop i

/-- The frame as it goes on: to the next hop, with its TTL one less and the checksum anew. -/
structure Relayed (mac : Mac) (f g : Bytes) : Prop where
  len : g.length = f.length
  dhost : etherDhost.get (ofBytes g) = mac
  ttl : (ttl.get (ofBytes g)).toNat + 1 = (ttl.get (ofBytes f)).toNat
  summed : HeaderSummed (ofBytes g)
  rest : ∀ k < f.length, 12 ≤ k → ¬ Skel.ttl.Covers k → ¬ check.Covers k → ofBytes g k = ofBytes f k

/-- The frames that go. -/
inductive Said (hop : Hop) (i : Input) : Sent → Prop
  | relayed {o : Sent} : o.origin = .forward → o.interface = hop.route.interface → IsIp o.packet.frame → Said hop i o
  | asked : Said hop i hop.request
  | answered : ArpRequest i → Said hop i (answer hop.cfg i)

/-! ### Frames that are forwarded -/

variable {hop : Hop} {i : Input} {s s' : State} {out : List Sent} {mac : Mac} {f g : Bytes}

theorem ofBytes_frame {p : Packet} {k : ℕ} (hk : k < p.len) : ofBytes p.frame k = p.payload k := by
  have hself := bytes_ofBytes p.frame
  rw [Packet.frame, length_bytes] at hself
  exact bytes_inj hself hk

theorem get_frame {p : Packet} {α : Type} {f : ByteField α} (hf : f.off + f.size ≤ p.len) :
    f.get (ofBytes p.frame) = f.get p.payload :=
  ByteField.get_congr fun _ hk => ofBytes_frame (lt_of_lt_of_le hk.2 hf)

/-- **A frame that stems from another** with the next hop's hardware address is the one relayed. -/
theorem relayed_of_stems {o : Sent} (hstems : StemsFrom f o) (hsummed : HeaderSummed o.packet.payload)
    (hheader : 34 ≤ f.length) (hmac : etherDhost.get o.packet.payload = mac) : Relayed mac f o.packet.frame := by
  have hlen : 34 ≤ o.packet.len := hheader.trans_eq hstems.len.symm
  have hsame : ∀ k, 14 ≤ k → k < 34 → ofBytes o.packet.frame k = o.packet.payload k :=
    fun k _ hk => ofBytes_frame (by omega)
  refine ⟨?_, ?_, ?_, ?_, fun k hk h12 hnttl hncheck => ?_⟩
  · rw [Packet.frame, length_bytes, hstems.len]
  · rw [get_frame (le_trans (by decide) hlen), hmac]
  · rw [get_frame (le_trans (by decide) hlen), hstems.ttl]
  · rw [HeaderSummed, check_congr hsame, headerChecksum_congr hsame]
    exact hsummed
  · rw [ofBytes_frame (hk.trans_eq hstems.len.symm), hstems.rest k hk h12 hnttl hncheck]

/-- A field behind the addresses, apart from the two that are set, is relayed as it is. -/
theorem Relayed.get (h : Relayed mac f g) {α : Type} {x : ByteField α} (hlo : 12 ≤ x.off)
    (hhi : x.off + x.size ≤ f.length) (httl : x.Apart Skel.ttl) (hcheck : x.Apart check) :
    x.get (ofBytes g) = x.get (ofBytes f) := by
  refine ByteField.get_congr fun k hk => ?_
  have hlow := hk.1
  have hhigh := hk.2
  refine h.rest k (by omega) (by omega) (fun hc => ?_) fun hc => ?_
  · have hclow := hc.1
    have hchigh := hc.2
    rcases httl with h | h <;> omega
  · have hclow := hc.1
    have hchigh := hc.2
    rcases hcheck with h | h <;> omega

theorem Relayed.isIp (h : Relayed mac f g) (hf : Passes hop f) : IsIp g :=
  (h.get (by decide) (le_trans (by decide) hf.header) (by decide) (by decide)).trans hf.type

/-- **A packet relayed with a TTL above two passes** the next router on its way. -/
theorem Relayed.passes {hop' : Hop} (h : Relayed mac f g) (hf : Passes hop f) (httl : 2 < Skel.ttl.get (ofBytes f))
    (hdest : hop'.dest = hop.dest) : Passes hop' g where
  header := hf.header.trans_eq h.len.symm
  type := h.isIp hf
  accepted := ⟨h.summed.symm, by
    have hless := h.ttl
    rw [UInt8.lt_iff_toNat_lt] at httl ⊢
    have htwo : (2 : UInt8).toNat = 2 := rfl
    have hone : (1 : UInt8).toNat = 1 := rfl
    omega⟩
  dest := by
    rw [h.get (by decide) (le_trans (by decide) hf.header) (by decide) (by decide), hf.dest, hdest]

/-! ### The turns -/

theorem read_of_received (s : State) (i : Input) :
    ∀ k < (received i).length, (getPacket s i).m.payload k = ofBytes (received i) k :=
  fun _ hk => overwrite_eq_ofBytes hk

theorem Bound.get (h : Bound hop i) (s : State) {α : Type} {x : ByteField α} (hx : x.off + x.size ≤ 34) :
    x.get (getPacket s i).m.payload = x.get (ofBytes (received i)) :=
  ByteField.get_congr fun k hk =>
    read_of_received s i k (lt_of_lt_of_le hk.2 (hx.trans h.passes.header))

/-- All of the Ethernet header of a request is set. -/
theorem request_eq (hop : Hop) (b : Buf) : sendArp hop.route.nextHop (hop.cfg.interfaceIp hop.route.interface)
    (requestHeader hop.cfg b hop.route) hop.route.interface (htons ARPOP_REQUEST) = hop.request := by
  refine sendArp_congr (fun k hk => ?_) ..
  refine ByteField.set_congr fun htype => ByteField.set_congr fun hdhost => ByteField.set_congr fun hshost => ?_
  by_cases hlow : k < 6
  · exact absurd ⟨Nat.zero_le k, hlow⟩ hdhost
  · by_cases hmid : k < 12
    · exact absurd ⟨Nat.le_of_not_lt hlow, hmid⟩ hshost
    · exact absurd ⟨Nat.le_of_not_lt hmid, hk⟩ htype

/-- **A packet for the destination**: it waits and its next hop is asked for, or it is forwarded at once. -/
theorem step_bound (h : Bound hop i) (s : State) : step hop.cfg s i =
    match getArpEntry s.arpTable hop.dest with
    | none => some ({ getPacket s i with
        m.payload := requestHeader hop.cfg (zeroed (getPacket s i)).m.payload hop.route
        q := s.q ++ [.heap s.brk]
        mem := update (getPacket s i).mem (.heap s.brk) (zeroed (getPacket s i)).m
        brk := s.brk + 1 }, [hop.request])
    | some arpX => some (forward (zeroed (getPacket s i)) hop.route arpX) := by
  have hip : etherType.get (getPacket s i).m.payload = htons ETHERTYPE_IP :=
    (h.get s (by decide)).trans h.passes.type
  have hdest : daddr.get (getPacket s i).m.payload = hop.dest := (h.get s (by decide)).trans h.passes.dest
  have hacc : Accepted (getPacket s i).m.payload :=
    accepted_congr (fun k _ hk => (read_of_received s i k (hk.trans_le h.passes.header)).symm) h.passes.accepted
  have harp : ¬ etherType.get (getPacket s i).m.payload = htons ETHERTYPE_ARP := by
    rw [hip]
    decide
  have hsummed : ¬ ¬ Summed (getPacket s i).m.payload := not_not.mpr hacc.checksum
  have hecho : ¬ (protocol.get (getPacket s i).m.payload = 1 ∧
      icmpType.get (getPacket s i).m.payload = ICMP_ECHO ∧
      hop.cfg.interfaceIp (getPacket s i).m.interface = hop.dest) := fun hc => h.foreign hc.2.2
  rw [step, if_neg harp, if_pos hip, onIpv4_eq, if_neg hsummed, if_neg (UInt8.not_le.mpr hacc.ttl), hdest, hop.best]
  dsimp only
  rw [if_neg hecho]
  show (match getArpEntry s.arpTable hop.dest with
    | none => enqueue hop.cfg (zeroed (getPacket s i)) hop.route
    | some arpX => some (forward (zeroed (getPacket s i)) hop.route arpX)) = _
  cases getArpEntry s.arpTable hop.dest with
  | none =>
    dsimp only
    rw [enqueue_eq, request_eq]
    rfl
  | some arpX => rfl

theorem Reply.announced (h : Reply hop i) (s : State) : announced (getPacket s i) = some hop.next := by
  refine announced_eq_some.mpr ⟨?_, ?_, ?_⟩
  · rw [get_of_whole h.whole s (by decide), h.type]
  · rw [get_of_whole h.whole s (by decide)]
    exact h.op
  · rw [get_of_whole h.whole s (by decide), get_of_whole h.whole s (by decide), h.next]

/-- **A request** is answered, and nothing but the buffer changes. -/
theorem step_request (cfg : Config) (h : ArpRequest i) (s : State) : step cfg s i =
    some ({ getPacket s i with m.payload := answerHeader cfg (getPacket s i).m }, [answer cfg i]) := by
  rw [step_arpRequest h, answer]
  refine congrArg (fun o => some (_, [o])) (sendArp_congr (fun k hk => ?_) ..)
  exact (answerHeader_congr fun k hk => (read_of_whole h.whole s k (by omega)).symm) k hk |>.symm

/-! ### What waits -/

/-- The queue refers to distinct allocated copies of the packets that wait; only the next hop is in the table, and
nothing waits once the destination is. -/
structure Holding (hop : Hop) (waiting : List Bytes) (s : State) : Prop where
  nodup : s.q.Nodup
  allocated : ∀ r ∈ s.q, ∃ n < s.brk, r = .heap n
  copies : List.Forall₂ (fun f r => Passes hop f ∧ Holds f (s.mem r)) waiting s.q
  table : ∀ a ∈ s.arpTable, a = hop.next
  known : getArpEntry s.arpTable hop.dest ≠ none → waiting = []

variable {waiting : List Bytes}

theorem holding_init (hop : Hop) (m : Packet) (mem : Ref → Packet) : Holding hop [] (init m mem) :=
  ⟨List.nodup_nil, fun _ hr => absurd hr List.not_mem_nil, .nil, fun _ ha => absurd ha List.not_mem_nil, fun _ => rfl⟩

theorem forall₂_imp_mem {α β : Type*} {R S : α → β → Prop} {xs : List α} {ys : List β}
    (h : List.Forall₂ R xs ys) (himp : ∀ x, ∀ y ∈ ys, R x y → S x y) : List.Forall₂ S xs ys := by
  induction h with
  | nil => exact .nil
  | cons hab _ ih =>
    exact .cons (himp _ _ List.mem_cons_self hab) (ih fun x y hy => himp x y (List.mem_cons_of_mem _ hy))

/-- Reading a frame does not touch the copies. -/
theorem Holding.read (h : Holding hop waiting s) (i : Input) : Holding hop waiting (getPacket s i) := by
  refine ⟨h.nodup, h.allocated, forall₂_imp_mem h.copies fun f r hr hcopy => ?_, h.table, h.known⟩
  obtain ⟨n, -, rfl⟩ := h.allocated r hr
  rwa [mem_getPacket_heap]

/-- What else the buffer holds does not matter. -/
theorem Holding.buffer (h : Holding hop waiting s) (m : Packet) : Holding hop waiting { s with m := m } :=
  ⟨h.nodup, h.allocated, h.copies, h.table, h.known⟩

/-- Another packet waits. -/
theorem Holding.enqueue (h : Holding hop waiting s) {p m : Packet} (hf : Passes hop f) (hp : Holds f p)
    (hnone : getArpEntry s.arpTable hop.dest = none) : Holding hop (waiting ++ [f]) { s with
      m := m
      q := s.q ++ [.heap s.brk]
      mem := update s.mem (.heap s.brk) p
      brk := s.brk + 1 } := by
  have hfresh : ∀ r ∈ s.q, r ≠ .heap s.brk := by
    intro r hr heq
    obtain ⟨n, hn, rfl⟩ := h.allocated r hr
    obtain rfl := Ref.heap.inj heq
    exact lt_irrefl _ hn
  refine ⟨?_, fun r hr => ?_, List.rel_append ?_ (.cons ⟨hf, ?_⟩ .nil), h.table, fun hsome => absurd hnone hsome⟩
  · refine List.nodup_append.mpr ⟨h.nodup, List.nodup_singleton _, fun r hr r' hr' => ?_⟩
    rw [List.mem_singleton.mp hr']
    exact hfresh r hr
  · rcases List.mem_append.mp hr with hr | hr
    · obtain ⟨n, hn, rfl⟩ := h.allocated r hr
      exact ⟨n, Nat.lt_succ_of_lt hn, rfl⟩
    · exact ⟨s.brk, Nat.lt_succ_self _, List.mem_singleton.mp hr⟩
  · refine forall₂_imp_mem h.copies fun f r hr hcopy => ?_
    show _ ∧ Holds f (update s.mem (.heap s.brk) p r)
    rwa [update_of_ne (hfresh r hr)]
  · show Holds f (update s.mem (.heap s.brk) p (.heap s.brk))
    rwa [update_self]

/-- The copy of a packet is for the packet's destination. -/
theorem daddr_of_holds {p : Packet} (hf : Passes hop f) (hp : Holds f p) : daddr.get p.payload = hop.dest := by
  have hheader := hp.header
  rw [← hf.dest]
  refine ByteField.get_congr fun k hk => hp.rest k (lt_of_lt_of_le hk.2 (le_trans (by decide) hheader)) fun hc => ?_
  have hlow : 30 ≤ k := hk.1
  have hhigh : k < 26 := hc.2
  omega

/-- **What a waiting packet is sent as** when the next hop replies. -/
theorem serve_of_holds {p : Packet} (hf : Passes hop f) (hp : Holds f p) :
    serve hop.cfg hop.next.ip hop.next.mac p = some (release hop.cfg hop.route hop.mac p,
      ⟨.forward, hop.route.interface, release hop.cfg hop.route hop.mac p⟩) :=
  serve_eq_some.mpr ⟨hop.route, by rw [daddr_of_holds hf hp, hop.best], rfl, rfl, rfl⟩

theorem relayed_of_holds {p : Packet} (hf : Passes hop f) (hp : Holds f p) :
    Relayed hop.mac f (release hop.cfg hop.route hop.mac p).frame := by
  obtain ⟨hstems, hsummed⟩ := stems_of_serve (a := hop.next) hp (serve_of_holds hf hp)
  refine relayed_of_stems hstems hsummed hf.header ?_
  show etherDhost.get (etherShost.set (etherDhost.set _ hop.mac) _) = hop.mac
  rw [ByteField.get_set_of_apart (by decide), ByteField.get_set]

/-- What goes on for a packet. -/
structure Forwards (hop : Hop) (f : Bytes) (o : Sent) : Prop where
  origin : o.origin = .forward
  interface : o.interface = hop.route.interface
  relayed : Relayed hop.mac f o.packet.frame

/-- The copies are sent one by one. -/
theorem forwards_of_copies {mem : Ref → Packet} {q : List Ref}
    (h : List.Forall₂ (fun f r => Passes hop f ∧ Holds f (mem r)) waiting q) :
    List.Forall₂ (Forwards hop) waiting (releases hop.cfg hop.next (q.map mem)) := by
  induction h with
  | nil => exact .nil
  | cons hcopy _ ih =>
    rw [List.map_cons, releases, List.filterMap_cons, serve_of_holds hcopy.1 hcopy.2]
    exact .cons ⟨rfl, rfl, relayed_of_holds hcopy.1 hcopy.2⟩ ih

/-- **The next hop replies**: all that waits goes on, in order. -/
theorem Holding.flush (h : Holding hop waiting s) : (afterReply hop.cfg s hop.next).q = [] ∧
    List.Forall₂ (Forwards hop) waiting (swept hop.cfg s hop.next).2.2 := by
  have hwait : ∀ p ∈ contents s, WaitsFor hop.cfg hop.next.ip p := by
    intro p hp
    obtain ⟨r, hr, rfl⟩ := List.mem_map.mp hp
    obtain ⟨f, -, hf, hcopy⟩ := exists_of_mem_right h.copies hr
    rw [WaitsFor, daddr_of_holds hf hcopy, hop.best]
    rfl
  have hdone : (afterReply hop.cfg s hop.next).q = [] ∧
      (swept hop.cfg s hop.next).2.2 = releases hop.cfg hop.next (contents s) :=
    reply_of_all_waiting h.nodup hwait
  rw [hdone.2]
  exact ⟨hdone.1, forwards_of_copies h.copies⟩

/-- What is put back after the next hop's reply: nothing. -/
theorem Holding.reply (h : Holding hop waiting s) : Holding hop [] (afterReply hop.cfg s hop.next) := by
  obtain ⟨hq, -⟩ := h.flush
  refine ⟨hq ▸ List.nodup_nil, fun r hr => absurd hr (hq ▸ List.not_mem_nil), hq ▸ .nil, fun a ha => ?_, fun _ => rfl⟩
  rcases List.mem_append.mp ha with ha | ha
  · exact h.table a ha
  · exact List.mem_singleton.mp ha

/-! ### The router as a stage -/

/-- The packets that have come are those that have gone on, in order, followed by those that wait. -/
def Carries (hop : Hop) (came went : List Bytes) (s : State) : Prop :=
  ∃ waiting, Holding hop waiting s ∧ Stage (Relayed hop.mac) came went waiting

theorem carries_init (hop : Hop) (m : Packet) (mem : Ref → Packet) : Carries hop [] [] (init m mem) :=
  ⟨[], holding_init hop m mem, stage_nil⟩

theorem packets_of_ip (h : IsIp f) : packets [f] = [f] := List.filter_cons_of_pos (decide_eq_true h)

theorem packets_of_not_ip (h : ¬ IsIp f) : packets [f] = [] :=
  List.filter_cons_of_neg fun hc => h (of_decide_eq_true hc)

theorem etherType_received (i : Input) :
    etherType.get (ofBytes (received i)) = etherType.get (ofBytes i.frame) := by
  refine ByteField.get_congr fun k hk => ?_
  have hlt : k < MAX_LEN := lt_of_lt_of_le hk.2 (by decide)
  simp [received, ofBytes, hlt]

theorem packets_of_arp (htype : etherType.get (ofBytes i.frame) = htons ETHERTYPE_ARP) :
    packets [received i] = [] := by
  refine packets_of_not_ip fun hip => ?_
  rw [IsIp, etherType_received, htype] at hip
  exact absurd hip (by decide)

theorem forwarded_of_forwards {waiting : List Bytes} {out : List Sent} (h : List.Forall₂ (Forwards hop) waiting out) :
    List.Forall₂ (Relayed hop.mac) waiting (forwarded out) := by
  induction h with
  | nil => exact .nil
  | cons hfo _ ih =>
    rw [forwarded, List.filter_cons_of_pos (by simpa using hfo.origin), List.map_cons]
    exact .cons hfo.relayed ih

/-- What a turn does. -/
structure Turn (hop : Hop) (came went : List Bytes) (s : State) (i : Input) (s' : State) (out : List Sent) :
    Prop where
  carries : Carries hop (came ++ packets [received i]) (went ++ forwarded out) s'
  said : ∀ o ∈ out, Said hop i o
  asks : s'.q ≠ [] → hop.request ∈ out ∨ s.q ≠ [] ∧ ArpRequest i

variable {came went : List Bytes}

theorem Carries.bound (h : Carries hop came went s) (hi : Bound hop i) (hstep : step hop.cfg s i = some (s', out)) :
    Turn hop came went s i s' out := by
  obtain ⟨waiting, hhold, hstage⟩ := h
  have hread := hhold.read i
  have hholds : Holds (received i) (getPacket s i).m :=
    ⟨hi.passes.accepted, hi.passes.header, rfl, fun k hk _ => read_of_received s i k hk⟩
  have hcame : packets [received i] = [received i] := packets_of_ip hi.passes.type
  rw [step_bound hi] at hstep
  cases harp : getArpEntry s.arpTable hop.dest with
  | none =>
    rw [harp] at hstep
    obtain ⟨rfl, rfl⟩ := Prod.mk.inj (Option.some.inj hstep)
    have hcopy : Holds (received i) (zeroed (getPacket s i)).m :=
      ⟨hholds.accepted, hholds.header, hholds.len, fun k hk hnc =>
        (ByteField.set_of_not_covers hnc).trans (hholds.rest k hk hnc)⟩
    refine ⟨⟨waiting ++ [received i], hread.enqueue hi.passes hcopy harp, ?_⟩, ?_, fun _ => Or.inl ?_⟩
    · rw [hcame]
      show Stage _ _ (went ++ []) _
      rw [List.append_nil]
      exact hstage.take [received i]
    · rw [List.forall_mem_singleton]
      exact .asked
    · exact List.mem_singleton_self _
  | some arpX =>
    rw [harp] at hstep
    obtain ⟨rfl, rfl⟩ := Prod.mk.inj (Option.some.inj hstep)
    obtain rfl := hhold.known (harp ▸ Option.some_ne_none arpX)
    have hmac : arpX.mac = hop.mac := by
      rw [hhold.table arpX (List.mem_of_find?_eq_some harp)]
      rfl
    have hrewritten : ∀ k, 12 ≤ k → etherDhost.set (decrementTtl (zeroed (getPacket s i)).m.payload) arpX.mac k =
        decrementTtl (getPacket s i).m.payload k := by
      intro k hk
      rw [ByteField.set_of_not_covers fun hc => absurd hc.2 (not_lt.mpr (le_trans (by decide) hk))]
      exact congrFun (decrementTtl_check _ _) k
    have hrelayed : Relayed hop.mac (received i)
        (Packet.frame { (zeroed (getPacket s i)).m with
          payload := etherDhost.set (decrementTtl (zeroed (getPacket s i)).m.payload) arpX.mac }) := by
      obtain ⟨hstems, hsummed⟩ := hholds.stems .forward hop.route.interface hrewritten
      refine relayed_of_stems hstems hsummed hi.passes.header ?_
      show etherDhost.get (etherDhost.set _ arpX.mac) = hop.mac
      rw [ByteField.get_set, hmac]
    refine ⟨⟨[], hread.buffer _, ?_⟩, ?_, fun hq => ?_⟩
    · rw [hcame]
      exact (hstage.take [received i]).flush (.cons hrelayed .nil)
    · show ∀ o ∈ [_], Said hop i o
      rw [List.forall_mem_singleton]
      exact .relayed rfl rfl (hrelayed.isIp hi.passes)
    · have hempty : s.q = [] := List.length_eq_zero_iff.mp hhold.copies.length_eq.symm
      exact absurd hempty hq

theorem Carries.reply (h : Carries hop came went s) (hi : Reply hop i) (hstep : step hop.cfg s i = some (s', out)) :
    Turn hop came went s i s' out := by
  obtain ⟨waiting, hhold, hstage⟩ := h
  have hread := hhold.read i
  obtain ⟨-, -, heq⟩ := (step_of_reply (hi.announced s)).mp hstep
  obtain ⟨rfl, rfl⟩ := Prod.mk.inj heq
  obtain ⟨hq, hforwards⟩ := hread.flush
  refine ⟨⟨[], hread.reply, ?_⟩, fun o ho => ?_, fun hne => absurd hq hne⟩
  · rw [packets_of_arp hi.type, List.append_nil]
    exact hstage.flush (forwarded_of_forwards hforwards)
  · obtain ⟨f, hf, hfo⟩ := exists_of_mem_right hforwards ho
    obtain ⟨r, -, hcopy⟩ := exists_of_mem_right (List.Forall₂.flip hread.copies) hf
    exact .relayed hfo.origin hfo.interface (hfo.relayed.isIp hcopy.1)

theorem Carries.request (h : Carries hop came went s) (hi : ArpRequest i)
    (hstep : step hop.cfg s i = some (s', out)) : Turn hop came went s i s' out := by
  obtain ⟨waiting, hhold, hstage⟩ := h
  rw [step_request hop.cfg hi] at hstep
  obtain ⟨rfl, rfl⟩ := Prod.mk.inj (Option.some.inj hstep)
  refine ⟨⟨waiting, (hhold.read i).buffer _, ?_⟩, ?_, fun hne => Or.inr ⟨hne, hi⟩⟩
  · rw [packets_of_arp hi.type, List.append_nil]
    show Stage _ _ (went ++ []) _
    rwa [List.append_nil]
  · rw [List.forall_mem_singleton]
    exact .answered hi

/-- **Every turn** with an expected frame. -/
theorem Carries.step (h : Carries hop came went s) (hi : Expected hop i) (hstep : step hop.cfg s i = some (s', out)) :
    Turn hop came went s i s' out := by
  cases hi with
  | bound hi => exact h.bound hi hstep
  | reply hi => exact h.reply hi hstep
  | request hi => exact h.request hi hstep

/-- **A turn is undefined only where the table is full.** -/
theorem Carries.step_ne_none (h : Carries hop came went s) (hi : Expected hop i)
    (hroom : Reply hop i → s.arpTable.length < ARP_TABLE_SIZE) : Router.step hop.cfg s i ≠ none := by
  cases hi with
  | bound hi =>
    rw [step_bound hi]
    cases getArpEntry s.arpTable hop.dest <;> exact Option.some_ne_none _
  | reply hi =>
    obtain ⟨waiting, hhold, -⟩ := h
    have hrouted : ∀ r ∈ s.q, Routed hop.cfg ((getPacket s i).mem r) := by
      intro r hr
      obtain ⟨f, -, hf, hcopy⟩ := exists_of_mem_right (hhold.read i).copies hr
      rw [Routed, daddr_of_holds hf hcopy, hop.best]
      rfl
    rw [(step_of_reply (hi.announced s)).mpr ⟨hroom hi, hrouted, rfl⟩]
    exact Option.some_ne_none _
  | request hi =>
    rw [step_request hop.cfg hi]
    exact Option.some_ne_none _

end Pcom.Tema1.Relay
