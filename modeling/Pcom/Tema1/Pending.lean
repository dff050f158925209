import Pcom.Tema1.Router

/-!
# The pending queue across an ARP reply

A reply sends the packets that wait for its sender and puts the others back.  They are put back through one
local variable: what is enqueued is its address, once for each packet.

* `drainsRight_iff` — **the exact condition** under which no pending packet is lost, duplicated or altered:
  there is room for the reply, no storage is queued twice, and no packet waits for another next hop;
* `contents_of_reply` — otherwise the queue holds the last of the other packets, once for each of them;
* `last_packet_doubled` — two packets for one gateway, after the reply of another.
-/

namespace Pcom.Tema1.Pending

open Function Pcom.Lib.Memory Pcom.Lib.Scan Pcom.Lib.StepSystem Pcom.Lib.Sweep Pcom.Tema1.Route
  Pcom.Tema1.Router Pcom.Tema1.Skel

/-! ### The queue as a list of packets -/

/-- The packets the queue refers to. -/
def contents (s : State) : List Packet := s.q.map s.mem

/-- The next hop of the packet's route is this address. -/
def WaitsFor (cfg : Config) (ip : BitVec 32) (p : Packet) : Prop :=
  (getBestRoute cfg.rtable (daddr.get p.payload)).map RouteTableEntry.nextHop = some ip

instance (cfg : Config) (ip : BitVec 32) (p : Packet) : Decidable (WaitsFor cfg ip p) :=
  inferInstanceAs (Decidable (_ = _))

/-- The packets that wait for another address. -/
def others (cfg : Config) (ip : BitVec 32) (ps : List Packet) : List Packet :=
  ps.filter fun p => ¬ WaitsFor cfg ip p

/-- Each packet that waits for the sender of the reply, once, in order, as it is sent. -/
def releases (cfg : Config) (a : ArpEntry) (ps : List Packet) : List Sent :=
  ps.filterMap fun p => (serve cfg a.ip a.mac p).map Prod.snd

theorem serve_isSome {cfg : Config} {ip : BitVec 32} (mac : Mac) {p : Packet} :
    (serve cfg ip mac p).isSome ↔ WaitsFor cfg ip p := by
  rw [serve, WaitsFor]
  cases getBestRoute cfg.rtable (daddr.get p.payload) with
  | none => simp
  | some route => by_cases h : route.nextHop = ip <;> simp [h]

theorem serve_isNone {cfg : Config} {ip : BitVec 32} {mac : Mac} {p : Packet} :
    (serve cfg ip mac p).isNone = decide (¬ WaitsFor cfg ip p) := by
  rw [Bool.eq_iff_iff, decide_eq_true_iff, ← serve_isSome mac, Option.not_isSome_iff_eq_none,
    Option.isNone_iff_eq_none]

theorem others_eq_nil {cfg : Config} {ip : BitVec 32} {ps : List Packet} :
    others cfg ip ps = [] ↔ ∀ p ∈ ps, WaitsFor cfg ip p := by
  simp [others, List.filter_eq_nil_iff]

theorem ttl_release (cfg : Config) (route : RouteTableEntry) (mac : Mac) (p : Packet) :
    ttl.get (release cfg route mac p).payload = ttl.get p.payload - 1 := by
  show ttl.get (etherShost.set (etherDhost.set (decrementTtl p.payload) mac) _) = _
  rw [ByteField.get_set_of_apart (by decide), ByteField.get_set_of_apart (by decide), ttl_decrementTtl]

/-- A packet served twice leaves with another TTL the second time. -/
theorem serve_again {cfg : Config} {ip : BitVec 32} {mac : Mac} {p p' p'' : Packet} {o o' : Sent}
    (h : serve cfg ip mac p = some (p', o)) (h' : serve cfg ip mac p' = some (p'', o')) : o' ≠ o := by
  obtain ⟨route, -, -, rfl, rfl⟩ := serve_eq_some.mp h
  obtain ⟨route', -, -, rfl, rfl⟩ := serve_eq_some.mp h'
  intro heq
  have httl := congrArg (fun o : Sent => ttl.get o.packet.payload) heq
  simp only [ttl_release] at httl
  have hne (x : UInt8) : x - 1 ≠ x := by
    intro h
    have hnat := congrArg UInt8.toNat h
    rw [UInt8.toNat_sub] at hnat
    have hlt := x.toNat_lt
    have hone : (1 : UInt8).toNat = 1 := rfl
    omega
  exact hne _ httl

/-! ### What a reply does to the queue -/

variable {cfg : Config} {s : State} {i : Input} {a : ArpEntry}

/-- The references kept are those of the other packets. -/
theorem swept_refs (cfg : Config) (s : State) (a : ArpEntry) :
    (swept cfg s a).2.1 = s.q.filter fun r => ¬ WaitsFor cfg a.ip (s.mem r) := by
  rw [swept, sweep_kept (serve_stable cfg a.ip a.mac)]
  simp only [serve_isNone]

/-- The packets kept are not touched. -/
theorem swept_contents (cfg : Config) (s : State) (a : ArpEntry) :
    (swept cfg s a).2.1.map (swept cfg s a).1 = others cfg a.ip (contents s) := by
  rw [swept_refs, others, contents, List.filter_map]
  refine List.map_inj_left.mpr fun r hr => sweep_mem_of_none ?_
  rw [← Option.isNone_iff_eq_none, serve_isNone]
  exact (List.mem_filter.mp hr).2

/-- If every queued packet waits for the sender and none is queued twice, all are sent and none is left. -/
theorem reply_of_all_waiting (hnodup : s.q.Nodup) (hwait : ∀ p ∈ contents s, WaitsFor cfg a.ip p) :
    (afterReply cfg s a).q = [] ∧ (swept cfg s a).2.2 = releases cfg a (contents s) := by
  have hkept : (swept cfg s a).2.1 = [] := by
    rw [← List.map_eq_nil_iff, swept_contents, others_eq_nil]
    exact hwait
  refine ⟨?_, sweep_out_of_nodup hnodup⟩
  simp only [afterReply, hkept]
  rfl

/-- What the queue refers to after a reply. -/
theorem afterReply_q (cfg : Config) (s : State) (a : ArpEntry) : (afterReply cfg s a).q =
    List.replicate (others cfg a.ip (contents s)).length .firstPacket := by
  rw [← swept_contents, List.length_map]
  exact funnel_refs ..

/-- **The queue after a reply** holds the last of the packets that wait for another next hop, as many times as
there are such packets. -/
theorem contents_of_reply (hslot : Ref.firstPacket ∉ s.q) {p : Packet}
    (hlast : (others cfg a.ip (contents s)).getLast? = some p) :
    contents (afterReply cfg s a) = List.replicate (others cfg a.ip (contents s)).length p := by
  rw [← swept_contents, List.getLast?_map, Option.map_eq_some_iff] at hlast
  obtain ⟨r, hr, rfl⟩ := hlast
  rw [← swept_contents, List.length_map]
  refine funnel_contents (fun h => hslot ?_) hr
  rw [swept_refs] at h
  exact List.mem_of_mem_filter h

/-! ### The exact condition -/

/-- No pending packet is lost, duplicated or altered by the reply: the packets that wait for its sender are sent,
each once and in order, the queue holds exactly the others, and these stay at its front, unaltered, through all
later frames that are not replies for one of them. -/
def DrainsRight (cfg : Config) (s : State) (i : Input) (a : ArpEntry) : Prop :=
  ∃ s' out, step cfg s i = some (s', out) ∧
    out = releases cfg a (contents (getPacket s i)) ∧
    contents s' = others cfg a.ip (contents (getPacket s i)) ∧
    ∀ h t, Run (Steps (step cfg)) s' h t →
      (∀ st ∈ h, ∀ b ∈ announced (getPacket st.before st.input),
        ∀ p ∈ others cfg a.ip (contents (getPacket s i)), ¬ WaitsFor cfg b.ip p) →
      others cfg a.ip (contents (getPacket s i)) <+: contents t

/-- A frame of neither protocol, read while the storage of `firstPacket` is used for something else. -/
def idle (p : Packet) : Input := ⟨0, List.replicate 14 0, some p⟩

theorem etherType_idle (s : State) (p : Packet) : etherType.get (getPacket s (idle p)).m.payload = 0 := by
  have hread : etherType.get (getPacket s (idle p)).m.payload =
      etherType.get (ofBytes (List.replicate 14 0)) :=
    ByteField.get_congr fun i hi => overwrite_eq_ofBytes hi.2
  rw [hread]
  decide

theorem step_idle (cfg : Config) (s : State) (p : Packet) :
    step cfg s (idle p) = some (getPacket s (idle p), []) := by
  simp only [step, etherType_idle]
  rw [if_neg (by decide), if_neg (by decide)]

theorem announced_idle (s : State) (p : Packet) : announced (getPacket s (idle p)) = none := by
  rw [announced, etherType_idle, if_neg]
  rintro ⟨h, -⟩
  exact absurd h (by decide)

/-- A packet that is put back does not survive: its storage is free for other uses. -/
theorem others_eq_nil_of_drainsRight (ha : announced (getPacket s i) = some a)
    (h : DrainsRight cfg s i a) : others cfg a.ip (contents (getPacket s i)) = [] := by
  obtain ⟨s', out, hstep, -, -, hlater⟩ := h
  obtain ⟨-, -, heq⟩ := (step_of_reply ha).mp hstep
  obtain ⟨rfl, rfl⟩ := Prod.mk.inj heq
  have hq := afterReply_q cfg (getPacket s i) a
  generalize others cfg a.ip (contents (getPacket s i)) = ps at hq hlater
  cases ps with
  | nil => rfl
  | cons p ps =>
    -- the queue holds the address of the local variable, and its storage is overwritten
    have hpre := hlater _ _ (Run.start.next (step_idle cfg _ { p with len := p.len + 1 })) (by
      rw [List.forall_mem_singleton]
      intro b hb
      rw [announced_idle] at hb
      cases hb)
    have hcontents : contents (getPacket (afterReply cfg (getPacket s i) a)
        (idle { p with len := p.len + 1 })) =
          (afterReply cfg (getPacket s i) a).q.map (update _ .firstPacket { p with len := p.len + 1 }) := rfl
    rw [hcontents, hq, List.length_cons, List.replicate_succ, List.map_cons, update_self,
      List.cons_prefix_cons] at hpre
    have hlen := congrArg Packet.len hpre.1
    simp at hlen

/-- **A reply drains the queue rightly exactly when** there is room for it, no storage is queued twice, and every
queued packet waits for its sender. -/
theorem drainsRight_iff (ha : announced (getPacket s i) = some a)
    (hrouted : ∀ p ∈ contents (getPacket s i), Routed cfg p) :
    DrainsRight cfg s i a ↔ s.arpTable.length < ARP_TABLE_SIZE ∧ s.q.Nodup ∧
      ∀ p ∈ contents (getPacket s i), WaitsFor cfg a.ip p := by
  constructor
  · intro h
    have hwait := others_eq_nil.mp (others_eq_nil_of_drainsRight ha h)
    obtain ⟨s', out, hstep, hout, -, -⟩ := h
    obtain ⟨hroom, -, heq⟩ := (step_of_reply ha).mp hstep
    obtain ⟨rfl, rfl⟩ := Prod.mk.inj heq
    refine ⟨hroom, ?_, hwait⟩
    refine nodup_of_sweep_out (serve_stable cfg a.ip a.mac) (fun _ _ _ _ _ => serve_again) ?_ hout
    exact fun r hr => (serve_isSome _).mpr (hwait _ (List.mem_map_of_mem hr))
  · intro ⟨hroom, hnodup, hwait⟩
    have hstep := (step_of_reply ha).mpr ⟨hroom, fun r hr => hrouted _ (List.mem_map_of_mem hr), rfl⟩
    obtain ⟨hq, hout⟩ := reply_of_all_waiting (s := getPacket s i) hnodup hwait
    refine ⟨_, _, hstep, hout, ?_, fun h t _ _ => ?_⟩
    · rw [others_eq_nil.mpr hwait, contents, hq, List.map_nil]
    · rw [others_eq_nil.mpr hwait]
      exact List.nil_prefix

/-- The reply of the gateway `10.0.0.1`. -/
def gatewayReply : Input := ⟨1, sampleReply 0x0100000a (Vector.replicate 6 0x51), none⟩

/-- What it announces. -/
def gateway : ArpEntry := ⟨0x0100000a, Vector.replicate 6 0x51⟩

/-- Two packets for one gateway are drained rightly by its reply. -/
theorem two_packets_drained : ∃ h s, Run (Steps (step sampleConfig)) sampleInit h s ∧
    s.q.length = 2 ∧ DrainsRight sampleConfig s gatewayReply gateway := by
  obtain ⟨h, s, run, hcheck⟩ := Run.of_check (step sampleConfig) sampleInit
    [⟨0, sampleFrame 0x0200000a, none⟩, ⟨0, sampleFrame 0x0300000a, none⟩]
    (fun _ s => decide (s.q.length = 2 ∧ announced (getPacket s gatewayReply) = some gateway ∧
      (∀ p ∈ contents (getPacket s gatewayReply), Routed sampleConfig p) ∧
      s.arpTable.length < ARP_TABLE_SIZE ∧ s.q.Nodup ∧
      ∀ p ∈ contents (getPacket s gatewayReply), WaitsFor sampleConfig gateway.ip p)) (by decide +kernel)
  obtain ⟨hlen, ha, hrouted, hok⟩ := of_decide_eq_true hcheck
  exact ⟨h, s, run, hlen, (drainsRight_iff ha hrouted).mpr hok⟩

/-- **The last packet is doubled**: `10.0.0.1` answers while packets to `20.0.0.2` and `20.0.0.3` wait for another
gateway; afterwards the queue holds the second of them twice. -/
theorem last_packet_doubled : ∃ h s, Run (Steps (step sampleConfig)) sampleInit h s ∧
    announced (getPacket s gatewayReply) = some gateway ∧
      (∀ p ∈ contents (getPacket s gatewayReply), Routed sampleConfig p) ∧
        ¬ DrainsRight sampleConfig s gatewayReply gateway := by
  obtain ⟨h, s, run, hcheck⟩ := Run.of_check (step sampleConfig) sampleInit
    [⟨0, sampleFrame 0x0200000a, none⟩, ⟨0, sampleFrame 0x02000014, none⟩,
      ⟨0, sampleFrame 0x03000014, none⟩]
    (fun _ s => decide (announced (getPacket s gatewayReply) = some gateway ∧
      (∀ p ∈ contents (getPacket s gatewayReply), Routed sampleConfig p) ∧
      ∀ r ∈ step sampleConfig s gatewayReply, (contents r.1).map (fun p => daddr.get p.payload) ≠
        (others sampleConfig gateway.ip (contents (getPacket s gatewayReply))).map
          fun p => daddr.get p.payload)) (by decide +kernel)
  obtain ⟨ha, hrouted, hdiff⟩ := of_decide_eq_true hcheck
  refine ⟨h, s, run, ha, hrouted, ?_⟩
  intro ⟨s', out, hstep, _, hcontents, _⟩
  exact hdiff _ hstep (congrArg _ hcontents)

end Pcom.Tema1.Pending
