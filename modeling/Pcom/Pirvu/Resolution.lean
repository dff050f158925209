import Pcom.Pirvu.Router

/-!
# The MACs the trie router writes

The table holds two kinds of entries: what a reply announced, and the placeholder made when a destination is
asked for, or when the flush looks one up.  The branch that forwards at once, the answer to requests for other
hosts and the flush take either.

* `learned_of_run` — in every run whose steps use resolved entries only and whose replies are whole (`Resolved`),
  each MAC written was carried by an ARP reply from the address it is written for;
* `second_packet_unlearned` — the second of two packets to a host that has not answered leaves for
  `00:00:00:00:00:00`.
-/

namespace Pcom.Pirvu.Resolution

open Function Pcom.Lib.Memory Pcom.Lib.Scan Pcom.Lib.StepSystem Pcom.Pirvu.RTable Pcom.Pirvu.Router
open Pcom.Tema1.Skel (MAX_LEN Mac Packet htons etherDhost etherShost etherType ttl protocol check saddr
  daddr icmpType op sha spa ETHERTYPE_IP ETHERTYPE_ARP)
open Pcom.Tema1.Router (decrementTtl get_decrementTtl sampleFrame sampleReply blank)

/-! ### What replies carry -/

/-- The frame is an ARP reply, up to the end of its sender fields, that carries this MAC for this address. -/
structure Carries (i : Input) (ip : BitVec 32) (mac : Mac) : Prop where
  len : 32 ≤ i.received.length
  type : etherType.get (ofBytes i.received) = htons ETHERTYPE_ARP
  op : op.get (ofBytes i.received) = htons ARP_REPLY_CODE
  spa : spa.get (ofBytes i.received) = ip
  sha : sha.get (ofBytes i.received) = mac

/-- A reply of the history carried this MAC for this address. -/
def Learned (h : List (Step State Input Sent)) (ip : BitVec 32) (mac : Mac) : Prop :=
  ∃ st ∈ h, Carries st.input ip mac

/-- The MAC in a frame sent was learned: the destination of a forwarded packet, the answer to a request for
another host. -/
def LearnedFrame (h : List (Step State Input Sent)) (o : Sent) : Prop :=
  (o.origin = .forward → Learned h (daddr.get o.packet.payload) (etherDhost.get o.packet.payload)) ∧
    (o.origin = .proxyReply → Learned h (spa.get o.packet.payload) (sha.get o.packet.payload))

/-- Every MAC written in the history was learned by that time. -/
def WellLearned : List (Step State Input Sent) → Prop
  | [] => True
  | st :: h => WellLearned h ∧ ∀ o ∈ st.out, LearnedFrame (st :: h) o

/-! ### The condition on a step -/

/-- The entry of the address, if there is one, was announced by it: a placeholder has the address `0`. -/
def Announced (arpTable : ArpTable) (ip : BitVec 32) : Prop := ∀ e ∈ arpTable ip, e.ip = ip

instance (arpTable : ArpTable) (ip : BitVec 32) : Decidable (Announced arpTable ip) :=
  Option.decidableForallMem ..

/-- The step uses no entry that is still a placeholder, and takes no reply for more than it is. -/
structure Resolved (cfg : Config) (s : State) (i : Input) : Prop where
  /-- A packet forwarded at once. -/
  direct : Accepts cfg (getPacket s i).m → Announced s.arpTable (daddr.get (getPacket s i).m.payload)
  /-- A frame read as a request: the address asked for, if it is not the router's. -/
  proxied : IsRequest (getPacket s i).m → cfg.interfaceIp i.interface ≠ tpa.get (getPacket s i).m.payload →
    Announced s.arpTable (tpa.get (getPacket s i).m.payload)
  /-- A frame read as a reply contains the sender fields, and all packets of the queue are for the sender or for
  hosts that have answered. -/
  flushed : IsReply (getPacket s i).m → 32 ≤ i.received.length ∧ ∀ p ∈ s.q,
    daddr.get p.payload = spa.get (getPacket s i).m.payload ∨
      (s.arpTable (daddr.get p.payload)).any fun e => e.ip = daddr.get p.payload

/-! ### One step -/

variable {cfg : Config} {h : List (Step State Input Sent)} {s s' : State} {i : Input} {out : List Sent}

/-- The invariant: an entry that carries its own address was announced, and no packet of the queue is for
`0.0.0.0`, the address placeholders carry. -/
structure Invariant (h : List (Step State Input Sent)) (s : State) : Prop where
  announced : ∀ ip e, s.arpTable ip = some e → e.ip = ip → Learned h ip e.mac
  queue : ∀ p ∈ s.q, daddr.get p.payload ≠ 0

theorem Learned.cons {ip : BitVec 32} {mac : Mac} (hl : Learned h ip mac)
    (st : Step State Input Sent) : Learned (st :: h) ip mac := by
  obtain ⟨st', hst', hc⟩ := hl
  exact ⟨st', List.mem_cons_of_mem _ hst', hc⟩

/-- The trie has no entry for `0.0.0.0`. -/
theorem daddr_ne_zero {m : Packet} (hacc : Accepts cfg m) : daddr.get m.payload ≠ 0 := fun hzero => by
  have hroute := hacc.routed
  rw [hzero] at hroute
  exact hroute rfl

theorem carries_of_reply (hreply : IsReply (getPacket s i).m) (hlen : 32 ≤ i.received.length) :
    Carries i (spa.get (getPacket s i).m.payload) (sha.get (getPacket s i).m.payload) where
  len := hlen
  type := (get_getPacket (le_trans (by decide) hlen) s).symm.trans hreply.1
  op := (get_getPacket (le_trans (by decide) hlen) s).symm.trans hreply.2
  spa := (get_getPacket (le_trans (by decide) hlen) s).symm
  sha := (get_getPacket (le_trans (by decide) hlen) s).symm

/-- The table after a reply, before the flush. -/
theorem learned_update (hs : Invariant h s) (hreply : IsReply (getPacket s i).m)
    (hlen : 32 ≤ i.received.length) {ip : BitVec 32} {e : ArpEntry}
    (he : update s.arpTable (spa.get (getPacket s i).m.payload)
      (some ⟨spa.get (getPacket s i).m.payload, sha.get (getPacket s i).m.payload⟩) ip = some e)
    (hip : e.ip = ip) : Learned (⟨s, i, out⟩ :: h) ip e.mac := by
  by_cases heq : ip = spa.get (getPacket s i).m.payload
  · subst heq
    rw [update_self] at he
    obtain rfl := Option.some.inj he
    exact ⟨_, List.mem_cons_self, carries_of_reply hreply hlen⟩
  · rw [update_of_ne heq] at he
    exact (hs.announced ip e he hip).cons _

theorem daddr_rewrite (mac : Mac) (p : Packet) :
    daddr.get (rewrite mac p).payload = daddr.get p.payload := by
  show daddr.get (etherDhost.set (decrementTtl p.payload) mac) = _
  rw [ByteField.get_set_of_apart (by decide), get_decrementTtl (by decide) (by decide)]

theorem dhost_rewrite (mac : Mac) (p : Packet) : etherDhost.get (rewrite mac p).payload = mac :=
  ByteField.get_set ..

theorem spa_sendARPReply (origin : Origin) (m : Packet) (mac : Mac) (fresh : Buf) :
    spa.get (sendARPReply origin m mac fresh).packet.payload = tpa.get m.payload := by
  simp only [sendARPReply]
  rw [ByteField.get_set_of_apart (by decide), ByteField.get_set]

theorem sha_sendARPReply (origin : Origin) (m : Packet) (mac : Mac) (fresh : Buf) :
    sha.get (sendARPReply origin m mac fresh).packet.payload = mac :=
  ByteField.get_set ..

theorem Invariant.step (hs : Invariant h s) (hok : Resolved cfg s i)
    (hstep : step cfg s i = some (s', out)) : Invariant (⟨s, i, out⟩ :: h) s' := by
  rcases step_effect hstep with
    ⟨payload, -, -, -⟩ | ⟨entry, fresh, -, -, -⟩ | ⟨-, hreply⟩ | ⟨fresh, hacc, -, -⟩ |
      ⟨entry, -, -, -⟩
  · exact ⟨fun ip e he hip => (hs.announced ip e he hip).cons _, hs.queue⟩
  · exact ⟨fun ip e he hip => (hs.announced ip e he hip).cons _, hs.queue⟩
  · -- the flush adds placeholders only, and not for `0.0.0.0`
    refine ⟨fun ip e he hip => ?_, by simp [onArpReply]⟩
    rcases flush_fst cfg s.q (update s.arpTable (spa.get (getPacket s i).m.payload)
        (some ⟨spa.get (getPacket s i).m.payload, sha.get (getPacket s i).m.payload⟩)) ip with
      hkeep | ⟨-, hmade, p, hp, hd⟩
    · exact learned_update hs hreply (hok.flushed hreply).1 (hkeep.symm.trans he) hip
    · have hplaceholder : e = placeholder := Option.some.inj (he.symm.trans hmade)
      rw [hplaceholder] at hip
      exact absurd (hd.trans hip.symm) (hs.queue p hp)
  · have hzero := daddr_ne_zero hacc
    refine ⟨fun ip e he hip => ?_, fun p hp => ?_⟩
    · change update s.arpTable (daddr.get (getPacket s i).m.payload) (some placeholder) ip = some e at he
      by_cases heq : ip = daddr.get (getPacket s i).m.payload
      · subst heq
        rw [update_self] at he
        obtain rfl := Option.some.inj he
        exact absurd hip.symm hzero
      · rw [update_of_ne heq] at he
        exact (hs.announced ip e he hip).cons _
    · rcases List.mem_append.mp hp with hp | hp
      · exact hs.queue p hp
      · rw [List.mem_singleton.mp hp, daddr_unchecked]
        exact hzero
  · exact ⟨fun ip e he hip => (hs.announced ip e he hip).cons _, hs.queue⟩

/-- What the flush finds for a packet whose destination has answered. -/
theorem resolved_entry {p : Packet} {ip : BitVec 32} (mac : Mac)
    (hp : daddr.get p.payload = ip ∨
      (s.arpTable (daddr.get p.payload)).any fun e => e.ip = daddr.get p.payload) :
    ∃ e, update s.arpTable ip (some ⟨ip, mac⟩) (daddr.get p.payload) = some e ∧
      e.ip = daddr.get p.payload := by
  by_cases heq : daddr.get p.payload = ip
  · rw [heq, update_self]
    exact ⟨_, rfl, rfl⟩
  · obtain ⟨e, he, hip⟩ := (Option.any_eq_true _ _).mp (hp.resolve_left heq)
    rw [update_of_ne heq]
    exact ⟨e, he, of_decide_eq_true hip⟩

/-- **One step** writes learned MACs only. -/
theorem learnedFrame_of_step (hs : Invariant h s) (hok : Resolved cfg s i)
    (hstep : step cfg s i = some (s', out)) : ∀ o ∈ out, LearnedFrame (⟨s, i, out⟩ :: h) o := by
  rcases step_effect hstep with
    ⟨payload, -, -, hout⟩ | ⟨entry, fresh, hreq, hother, hhit⟩ | ⟨-, hreply⟩ | ⟨fresh, hacc, -, -⟩ |
      ⟨entry, hacc, -, hhit⟩
  · intro o ho
    constructor <;> intro horigin <;> rcases hout o ho with h | h <;> rw [horigin] at h <;> cases h
  · rw [List.forall_mem_singleton]
    refine ⟨by rintro ⟨⟩, fun _ => ?_⟩
    rw [spa_sendARPReply, sha_sendARPReply]
    exact (hs.announced _ entry hhit (hok.proxied hreq hother entry hhit)).cons _
  · have hsent : (onArpReply cfg (getPacket s i)).2 = s.q.map (released cfg (update s.arpTable
        (spa.get (getPacket s i).m.payload) (some ⟨spa.get (getPacket s i).m.payload,
          sha.get (getPacket s i).m.payload⟩))) := flush_snd ..
    rw [hsent, List.forall_mem_map]
    intro p hp
    refine ⟨fun _ => ?_, by rintro ⟨⟩⟩
    obtain ⟨hlen, hqueue⟩ := hok.flushed hreply
    obtain ⟨e, he, hip⟩ := resolved_entry (sha.get (getPacket s i).m.payload) (hqueue p hp)
    show Learned _ (daddr.get (rewrite _ p).payload) (etherDhost.get (rewrite _ p).payload)
    rw [daddr_rewrite, dhost_rewrite, macOf, he]
    exact learned_update hs hreply hlen he hip
  · rw [List.forall_mem_singleton]
    constructor <;> rintro ⟨⟩
  · rw [List.forall_mem_singleton]
    refine ⟨fun _ => ?_, by rintro ⟨⟩⟩
    rw [daddr_rewrite, dhost_rewrite]
    exact (hs.announced _ entry hhit (hok.direct hacc entry hhit)).cons _

/-! ### Runs -/

/-- **Only learned MACs are written**, in every run whose steps use resolved entries and take no truncated
replies. -/
theorem learned_of_run {m : Packet} (run : Run (Steps (step cfg)) (init m) h s)
    (hok : ∀ st ∈ h, Resolved cfg st.before st.input) : WellLearned h := by
  have hinv : WellLearned h ∧ Invariant h s := by
    refine run.history (E := Resolved cfg) (P := fun h s => WellLearned h ∧ Invariant h s)
      ⟨trivial, fun _ _ he => (by cases he), by simp [init]⟩ ?_ hok
    exact fun h s i s' out hs hok hstep =>
      ⟨⟨hs.1, learnedFrame_of_step hs.2 hok hstep⟩, hs.2.step hok hstep⟩
  exact hinv.1

instance (cfg : Config) (s : State) (i : Input) : Decidable (Resolved cfg s i) :=
  decidable_of_iff ((Accepts cfg (getPacket s i).m →
      Announced s.arpTable (daddr.get (getPacket s i).m.payload)) ∧
    (IsRequest (getPacket s i).m → cfg.interfaceIp i.interface ≠ tpa.get (getPacket s i).m.payload →
      Announced s.arpTable (tpa.get (getPacket s i).m.payload)) ∧
    (IsReply (getPacket s i).m → 32 ≤ i.received.length ∧ ∀ p ∈ s.q,
      daddr.get p.payload = spa.get (getPacket s i).m.payload ∨
        (s.arpTable (daddr.get p.payload)).any fun e => e.ip = daddr.get p.payload))
    ⟨fun ⟨h₁, h₂, h₃⟩ => ⟨h₁, h₂, h₃⟩, fun ⟨h₁, h₂, h₃⟩ => ⟨h₁, h₂, h₃⟩⟩

/-- A packet, the reply of its destination, and a packet sent at once. -/
theorem answered_first_learned : ∃ h s, Run (Steps (step sampleConfig)) (init blank) h s ∧
    (emitted h).countP (fun o => o.origin = .forward) = 2 ∧ WellLearned h := by
  obtain ⟨h, s, run, hcheck⟩ := Run.of_check (step sampleConfig) (init blank)
    [⟨0, sampleFrame 0x0200000a, fun _ => 0⟩,
      ⟨1, sampleReply 0x0200000a (Vector.replicate 6 9), fun _ => 0⟩,
      ⟨0, sampleFrame 0x0200000a, fun _ => 0⟩]
    (fun h _ => decide ((emitted h).countP (fun o => o.origin = .forward) = 2) &&
      h.all fun st => Resolved sampleConfig st.before st.input) (by decide +kernel)
  obtain ⟨hsent, hok⟩ := Bool.and_eq_true_iff.mp hcheck
  refine ⟨h, s, run, of_decide_eq_true hsent, learned_of_run run fun st hst => ?_⟩
  exact of_decide_eq_true (List.all_eq_true.mp hok st hst)

/-- **The placeholder is used**: the second of two packets to a host that has not answered is forwarded at once,
to the MAC of the placeholder. -/
theorem second_packet_unlearned : ∃ h s, Run (Steps (step sampleConfig)) (init blank) h s ∧
    (∃ o ∈ emitted h, o.origin = .forward ∧ etherDhost.get o.packet.payload = placeholder.mac) ∧
    ¬ WellLearned h := by
  obtain ⟨h, s, run, hcheck⟩ := Run.of_check (step sampleConfig) (init blank)
    [⟨0, sampleFrame 0x0200000a, fun _ => 0⟩, ⟨0, sampleFrame 0x0200000a, fun _ => 0⟩]
    (fun h _ => (h.all fun st => etherType.get (ofBytes st.input.received) ≠ htons ETHERTYPE_ARP) &&
      (h.head?.any fun st => st.out.any fun o => decide (o.origin = .forward ∧
        etherDhost.get o.packet.payload = placeholder.mac))) (by decide +kernel)
  obtain ⟨hnone, hsent⟩ := Bool.and_eq_true_iff.mp hcheck
  cases h with
  | nil => cases hsent
  | cons st h =>
    obtain ⟨o, ho, hbad⟩ := List.any_eq_true.mp hsent
    obtain ⟨hforward, hmac⟩ := of_decide_eq_true hbad
    refine ⟨st :: h, s, run, ⟨o, List.mem_append_right _ ho, hforward, hmac⟩, fun hall => ?_⟩
    obtain ⟨st', hst', hc⟩ := (hall.2 o ho).1 hforward
    exact absurd hc.type (of_decide_eq_true (List.all_eq_true.mp hnone st' hst'))

end Pcom.Pirvu.Resolution
