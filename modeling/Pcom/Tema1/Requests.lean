import Pcom.Tema1.Addressing
import Pcom.Tema1.Branches
import Pcom.Tema1.Pending

/-!
# One outstanding ARP request per next hop

A packet whose destination is not in the ARP table has its next hop asked for.  The table is searched by destination
and filled by the senders of replies, and the queue is not consulted before asking.

* `step_asks` — what a step does to the queue and to the table, together with what it asks for;
* `oneOutstanding_iff` — in every run that does not disturb the queue, no next hop is asked for while a request
  is outstanding or after it has answered **exactly when** every packet whose destination is not in the table is
  the first for its next hop;
* `gateway_asked_three_times` — two packets for one gateway, its reply, and a third packet: three requests.
-/

namespace Pcom.Tema1.Requests

open Function Pcom.Lib.Memory Pcom.Lib.Scan Pcom.Lib.StepSystem Pcom.Lib.Sweep Pcom.Tema1.Addressing
  Pcom.Tema1.Branches Pcom.Tema1.Route Pcom.Tema1.Router Pcom.Tema1.Pending Pcom.Tema1.Skel

/-! ### Requests and replies of a history -/

/-- The address a frame asks for. -/
def requestFor (o : Sent) : Option (BitVec 32) :=
  if o.origin = .arp ∧ op.get o.packet.payload = htons ARPOP_REQUEST then some (tpa.get o.packet.payload)
  else none

/-- The addresses asked for. -/
def requests (out : List Sent) : List (BitVec 32) := out.filterMap requestFor

/-- A reply from the address has been received. -/
def Answered (h : List (Step State Input Sent)) (ip : BitVec 32) : Prop :=
  ∃ a ∈ announcements h, a.ip = ip

/-- The address has been asked for, and no reply from it has been received since. -/
def Outstanding (ip : BitVec 32) : List (Step State Input Sent) → Prop
  | [] => False
  | st :: h => ip ∈ requests st.out ∨
      Outstanding ip h ∧ ∀ a ∈ announced (getPacket st.before st.input), a.ip ≠ ip

/-- Between two requests for an address there is a reply from it, and after a reply there is no request. -/
def OneOutstanding : List (Step State Input Sent) → Prop
  | [] => True
  | st :: h => OneOutstanding h ∧ (requests st.out).Nodup ∧
      ∀ ip ∈ requests st.out, ¬ Outstanding ip h ∧ ¬ Answered h ip

/-- What holds of a history holds of its beginnings. -/
theorem OneOutstanding.drop {h : List (Step State Input Sent)} (hone : OneOutstanding h) (n : ℕ) :
    OneOutstanding (h.drop n) := by
  induction n generalizing h with
  | zero => exact hone
  | succ n ih =>
    cases h with
    | nil => exact hone
    | cons st h => exact ih hone.1

/-! ### The condition -/

/-- The next hop of a packet to be forwarded whose destination is not in the ARP table. -/
def unresolved (cfg : Config) (s : State) : Option (BitVec 32) :=
  if etherType.get s.m.payload = htons ETHERTYPE_IP ∧ Accepted s.m.payload ∧
      ownEcho cfg s.m = some false ∧ getArpEntry s.arpTable (daddr.get s.m.payload) = none then
    (getBestRoute cfg.rtable (daddr.get s.m.payload)).map RouteTableEntry.nextHop
  else none

/-- A packet whose destination is not in the table finds its next hop neither in the table nor waited for. -/
def First (cfg : Config) (s : State) (i : Input) : Prop :=
  ∀ ip ∈ unresolved cfg (getPacket s i),
    getArpEntry s.arpTable ip = none ∧ ∀ p ∈ contents s, ¬ WaitsFor cfg ip p

instance (cfg : Config) (s : State) (i : Input) : Decidable (First cfg s i) :=
  Option.decidableForallMem ..

/-- The frame does not disturb the queue: the packets a reply leaves in it wait for one next hop, and the storage
they are copied to is not used for something else. -/
def Undisturbed (cfg : Config) (s : State) (i : Input) : Prop :=
  (i.stack.isNone ∨ Ref.firstPacket ∉ s.q) ∧ ∀ a ∈ announced (getPacket s i),
    ∀ p ∈ others cfg a.ip (contents s), ∀ p' ∈ others cfg a.ip (contents s),
      (getBestRoute cfg.rtable (daddr.get p.payload)).map RouteTableEntry.nextHop =
        (getBestRoute cfg.rtable (daddr.get p'.payload)).map RouteTableEntry.nextHop

instance (cfg : Config) (s : State) (i : Input) : Decidable (Undisturbed cfg s i) :=
  inferInstanceAs (Decidable (_ ∧ _))

/-! ### What a step asks for -/

theorem requestFor_request (ip saddr : BitVec 32) (header : Buf) (interface : ℤ) :
    requestFor (sendArp ip saddr header interface (htons ARPOP_REQUEST)) = some ip := by
  rw [requestFor, op_sendArp, tpa_sendArp]
  exact if_pos ⟨rfl, rfl⟩

theorem requestFor_reply (ip saddr : BitVec 32) (header : Buf) (interface : ℤ) :
    requestFor (sendArp ip saddr header interface (htons ARPOP_REPLY)) = none := by
  rw [requestFor, op_sendArp]
  exact if_neg fun h => absurd h.2 (by decide)

theorem requestFor_of_ne {o : Sent} (h : o.origin ≠ .arp) : requestFor o = none :=
  if_neg fun hc => h hc.1

/-- What a step does, as far as requests and replies go. -/
inductive Asks (cfg : Config) (s : State) : State → List Sent → Prop
  /-- A copy of the packet waits, and its next hop is asked for. -/
  | asked (payload : Buf) (ip : BitVec 32) {out : List Sent} : unresolved cfg s = some ip → announced s = none →
      requests out = [ip] → Asks cfg s { s with
        m.payload := payload
        q := s.q ++ [.heap s.brk]
        mem := update s.mem (.heap s.brk) (zeroed s).m
        brk := s.brk + 1 } out
  /-- A reply is noted. -/
  | answered {a : ArpEntry} {out : List Sent} : announced s = some a → unresolved cfg s = none →
      requests out = [] → Asks cfg s (afterReply cfg s a) out
  /-- Neither. -/
  | silent (payload : Buf) {out : List Sent} : announced s = none → unresolved cfg s = none →
      requests out = [] → Asks cfg s { s with m.payload := payload } out

theorem unresolved_of_arp {cfg : Config} {s : State} (h : etherType.get s.m.payload = htons ETHERTYPE_ARP) :
    unresolved cfg s = none := by
  rw [unresolved, h, if_neg]
  rintro ⟨h', -⟩
  exact absurd h' (by decide)

theorem onIpv4_asks {cfg : Config} {s s' : State} {out : List Sent}
    (hip : etherType.get s.m.payload = htons ETHERTYPE_IP) (h : onIpv4 cfg s = some (s', out)) :
    Asks cfg s s' out := by
  have ha := announced_of_ipv4 hip
  have hnone : requests [] = [] := rfl
  have hicmp (type : UInt8) (id : BitVec 32) : requests [icmpAnswer s.m type id] = [] := by
    rw [requests, List.filterMap_cons, requestFor_of_ne (by rintro ⟨⟩)]
    rfl
  have hquiet {out' : List Sent} (hu : unresolved cfg s = none) (hout : requests out' = [])
      (h : some (zeroed s, out') = some (s', out)) : Asks cfg s s' out := by
    obtain ⟨rfl, rfl⟩ := Prod.mk.inj (Option.some.inj h)
    exact .silent _ ha hu hout
  rw [onIpv4_eq] at h
  by_cases hsum : Summed s.m.payload
  swap
  · rw [if_pos hsum] at h
    exact hquiet (if_neg fun hc => hsum hc.2.1.checksum) hnone h
  rw [if_neg (not_not.mpr hsum)] at h
  by_cases httl : ttl.get s.m.payload ≤ 1
  · rw [if_pos httl] at h
    exact hquiet (if_neg fun hc => absurd hc.2.1.ttl (UInt8.not_lt.mpr httl)) (hicmp _ _) h
  rw [if_neg httl] at h
  cases hroute : getBestRoute cfg.rtable (daddr.get s.m.payload) with
  | none =>
    rw [hroute] at h
    exact hquiet (by simp [unresolved, hroute]) (hicmp _ _) h
  | some route =>
    simp only [hroute] at h
    by_cases hecho : protocol.get s.m.payload = 1 ∧ icmpType.get s.m.payload = ICMP_ECHO ∧
        cfg.interfaceIp s.m.interface = daddr.get s.m.payload
    · rw [if_pos hecho] at h
      refine hquiet (if_neg fun hc => ?_) (hicmp _ _) h
      rw [ownEcho_eq, decide_eq_true hecho] at hc
      exact absurd hc.2.2.1 (by simp)
    rw [if_neg hecho] at h
    have hown : ownEcho cfg s.m = some false := by rw [ownEcho_eq, decide_eq_false hecho]
    cases harp : getArpEntry s.arpTable (daddr.get s.m.payload) with
    | none =>
      simp only [harp, enqueue_eq, Option.some.injEq, Prod.mk.injEq] at h
      obtain ⟨rfl, rfl⟩ := h
      refine .asked (requestHeader cfg (zeroed s).m.payload route) route.nextHop ?_ ha ?_
      · rw [unresolved, if_pos ⟨hip, ⟨hsum, UInt8.not_le.mp httl⟩, hown, harp⟩, hroute]
        rfl
      · rw [requests, List.filterMap_cons, requestFor_request]
        rfl
    | some arpX =>
      simp only [harp, Option.some.injEq, forward, Prod.mk.injEq] at h
      obtain ⟨rfl, rfl⟩ := h
      refine .silent _ ha (by simp [unresolved, harp]) ?_
      rw [requests, List.filterMap_cons, requestFor_of_ne (by rintro ⟨⟩)]
      rfl

/-- **What a step asks for**, and what it does to the queue and the table. -/
theorem step_asks {cfg : Config} {s s' : State} {i : Input} {out : List Sent}
    (h : step cfg s i = some (s', out)) : Asks cfg (getPacket s i) s' out := by
  cases ha : announced (getPacket s i) with
  | some a =>
    obtain ⟨-, -, heq⟩ := (step_of_reply ha).mp h
    obtain ⟨rfl, rfl⟩ := Prod.mk.inj heq
    refine .answered ha (unresolved_of_arp (announced_eq_some.mp ha).1) ?_
    refine List.filterMap_eq_nil_iff.mpr fun o ho => ?_
    obtain ⟨p, p', hserve⟩ := sweep_out_mem ho
    obtain ⟨route, -, -, rfl, rfl⟩ := serve_eq_some.mp hserve
    exact requestFor_of_ne (by rintro ⟨⟩)
  | none =>
    obtain ⟨harp, h⟩ | ⟨hip, h⟩ | ⟨hip, rfl, rfl⟩ := step_of_none ha h
    · rw [onArpRequest_eq, Option.some.injEq, Prod.mk.injEq] at h
      obtain ⟨rfl, rfl⟩ := h
      refine .silent _ ha (unresolved_of_arp harp) ?_
      rw [requests, List.filterMap_cons, requestFor_reply]
      rfl
    · exact onIpv4_asks hip h
    · exact .silent _ ha (if_neg fun hc => hip hc.1) rfl

/-! ### The queue and the requests -/

/-- The invariant: a packet waits for an address exactly when a request for it is outstanding. -/
structure Tracks (cfg : Config) (h : List (Step State Input Sent)) (s : State) : Prop where
  refs : ∀ n, Ref.heap n ∈ s.q → n < s.brk
  waited : ∀ ip, (∃ p ∈ contents s, WaitsFor cfg ip p) ↔ Outstanding ip h

theorem contents_getPacket {s : State} {i : Input} (h : i.stack.isNone ∨ Ref.firstPacket ∉ s.q) :
    contents (getPacket s i) = contents s := by
  rcases h with h | h
  · simp only [contents, getPacket, Option.isNone_iff_eq_none.mp h]
  · cases hs : i.stack with
    | none => simp only [contents, getPacket, hs]
    | some p =>
      simp only [contents, getPacket, hs]
      exact map_update_of_not_mem h p

theorem mem_others {cfg : Config} {ip : BitVec 32} {ps : List Packet} {p : Packet} :
    p ∈ others cfg ip ps ↔ p ∈ ps ∧ ¬ WaitsFor cfg ip p := by
  rw [others, List.mem_filter, decide_eq_true_iff]

/-- What is put back is one of the packets a reply leaves in the queue, once for each of them. -/
theorem contents_afterReply (cfg : Config) (s : State) (a : ArpEntry) :
    others cfg a.ip (contents s) = [] ∧ contents (afterReply cfg s a) = [] ∨
      ∃ p ∈ others cfg a.ip (contents s), contents (afterReply cfg s a) =
        List.replicate (others cfg a.ip (contents s)).length p ∧ others cfg a.ip (contents s) ≠ [] := by
  rcases eq_or_ne (others cfg a.ip (contents s)) [] with hnil | hne
  · exact Or.inl ⟨hnil, by rw [contents, afterReply_q, hnil]; rfl⟩
  · refine Or.inr ⟨(afterReply cfg s a).mem .firstPacket, ?_, ?_, hne⟩
    · rw [← swept_contents] at hne ⊢
      exact funnel_cell_mem fun h => hne (by rw [h]; rfl)
    · rw [contents, afterReply_q, List.map_replicate]

/-- A reply takes the packets for its sender, and the others still wait for what they waited for. -/
theorem waits_afterReply {cfg : Config} {s : State} {a : ArpEntry}
    (hsame : ∀ p ∈ others cfg a.ip (contents s), ∀ p' ∈ others cfg a.ip (contents s),
      (getBestRoute cfg.rtable (daddr.get p.payload)).map RouteTableEntry.nextHop =
        (getBestRoute cfg.rtable (daddr.get p'.payload)).map RouteTableEntry.nextHop) (ip : BitVec 32) :
    (∃ p ∈ contents (afterReply cfg s a), WaitsFor cfg ip p) ↔
      (∃ p ∈ contents s, WaitsFor cfg ip p) ∧ a.ip ≠ ip := by
  have hothers : (∃ p ∈ others cfg a.ip (contents s), WaitsFor cfg ip p) ↔
      (∃ p ∈ contents s, WaitsFor cfg ip p) ∧ a.ip ≠ ip := by
    constructor
    · intro ⟨p, hp, hw⟩
      obtain ⟨hp, hnot⟩ := mem_others.mp hp
      exact ⟨⟨p, hp, hw⟩, fun h => hnot (h ▸ hw)⟩
    · intro ⟨⟨p, hp, hw⟩, hne⟩
      exact ⟨p, mem_others.mpr ⟨hp, fun h => hne (Option.some.inj (h.symm.trans hw))⟩, hw⟩
  rw [← hothers]
  rcases contents_afterReply cfg s a with ⟨hnil, hcontents⟩ | ⟨p, hp, hcontents, hne⟩
  · rw [hnil, hcontents]
  · rw [hcontents]
    constructor
    · intro ⟨p', hp', hw⟩
      rw [List.eq_of_mem_replicate hp'] at hw
      exact ⟨p, hp, hw⟩
    · intro ⟨p', hp', hw⟩
      refine ⟨p, List.mem_replicate.mpr ⟨?_, rfl⟩, (hsame p hp p' hp').trans hw⟩
      exact fun h => hne (List.length_eq_zero_iff.mp h)

theorem waitsFor_zeroed {cfg : Config} {s : State} {ip : BitVec 32} (h : unresolved cfg s = some ip)
    (ip' : BitVec 32) : WaitsFor cfg ip' (zeroed s).m ↔ ip' = ip := by
  rw [unresolved, Option.ite_none_right_eq_some] at h
  have hdaddr : daddr.get (zeroed s).m.payload = daddr.get s.m.payload :=
    ByteField.get_set_of_apart (by decide)
  rw [WaitsFor, hdaddr, h.2, Option.some.injEq, eq_comm]

/-- One step keeps the invariant. -/
theorem Tracks.step {cfg : Config} {h : List (Step State Input Sent)} {s s' : State} {i : Input}
    {out : List Sent} (hs : Tracks cfg h s) (hok : Undisturbed cfg s i)
    (hstep : step cfg s i = some (s', out)) : Tracks cfg (⟨s, i, out⟩ :: h) s' := by
  have hread := contents_getPacket hok.1
  have hrefs : ∀ n, Ref.heap n ∈ (getPacket s i).q → n < (getPacket s i).brk := hs.refs
  have hwaited : ∀ ip, (∃ p ∈ contents (getPacket s i), WaitsFor cfg ip p) ↔ Outstanding ip h := by
    rw [hread]
    exact hs.waited
  cases step_asks hstep with
  | asked payload ip hu ha hreq =>
    have hcontents : ((getPacket s i).q ++ [Ref.heap (getPacket s i).brk]).map
        (update (getPacket s i).mem (.heap (getPacket s i).brk) (zeroed (getPacket s i)).m) =
          contents (getPacket s i) ++ [(zeroed (getPacket s i)).m] := by
      rw [List.map_append, map_update_of_not_mem fun hc => lt_irrefl _ (hrefs _ hc)]
      exact congrArg (contents (getPacket s i) ++ [·]) (update_self ..)
    refine ⟨fun n hn => ?_, fun ip' => ?_⟩
    · rcases List.mem_append.mp hn with hn | hn
      · exact Nat.lt_succ_of_lt (hrefs n hn)
      · rw [Ref.heap.inj (List.mem_singleton.mp hn)]
        exact Nat.lt_succ_self _
    · show (∃ p ∈ ((getPacket s i).q ++ [Ref.heap (getPacket s i).brk]).map _, WaitsFor cfg ip' p) ↔ _
      rw [hcontents, Outstanding, hreq, ha, ← hwaited]
      simp only [List.mem_append, List.mem_singleton, or_and_right, exists_or, exists_eq_left,
        waitsFor_zeroed hu]
      rw [or_comm]
      simp
  | @answered a _ ha hu hreq =>
    refine ⟨fun n hn => ?_, fun ip' => ?_⟩
    · rw [afterReply_q] at hn
      cases List.eq_of_mem_replicate hn
    · have hsame := hok.2 a ha
      rw [← hread] at hsame
      rw [waits_afterReply hsame, hwaited, Outstanding, hreq, ha]
      simp
  | silent payload ha hu hreq =>
    refine ⟨hrefs, fun ip' => ?_⟩
    rw [Outstanding, hreq, ha, ← hwaited]
    simp [contents]

theorem tracks_of_run {cfg : Config} {m : Packet} {mem : Ref → Packet}
    {h : List (Step State Input Sent)} {s : State} (run : Run (Steps (step cfg)) (init m mem) h s)
    (hok : ∀ st ∈ h, Undisturbed cfg st.before st.input) : Tracks cfg h s :=
  run.history (E := Undisturbed cfg) (P := Tracks cfg) ⟨fun _ hn => absurd hn List.not_mem_nil, fun _ => by
    simp [contents, init, Outstanding]⟩ (fun _ _ _ _ _ hP hE hstep => hP.step hE hstep) hok

/-! ### The exact condition -/

/-- An address is in the table exactly when it has answered. -/
theorem getArpEntry_eq_none {cfg : Config} {m : Packet} {mem : Ref → Packet}
    {h : List (Step State Input Sent)} {s : State} (run : Run (Steps (step cfg)) (init m mem) h s)
    (ip : BitVec 32) : getArpEntry s.arpTable ip = none ↔ ¬ Answered h ip := by
  rw [Answered, ← table_eq_announcements run, getArpEntry, List.find?_eq_none]
  simp only [List.mem_reverse, decide_eq_true_eq, not_exists, not_and]
  exact forall₂_congr fun a _ => not_congr eq_comm

/-- **At most one request is outstanding for each next hop, and none is sent to one that has answered, exactly
when** every packet whose destination is not in the table is the first for its next hop: in every run that does not
disturb the queue. -/
theorem oneOutstanding_iff {cfg : Config} {m : Packet} {mem : Ref → Packet}
    {h : List (Step State Input Sent)} {s : State} (run : Run (Steps (step cfg)) (init m mem) h s)
    (hok : ∀ st ∈ h, Undisturbed cfg st.before st.input) :
    OneOutstanding h ↔ ∀ st ∈ h, First cfg st.before st.input := by
  induction run with
  | start => simp [OneOutstanding]
  | @next h s s' i out run hstep ih =>
    rw [List.forall_mem_cons] at hok
    have htracks := tracks_of_run run hok.2
    have hfirst : ((requests out).Nodup ∧ ∀ ip ∈ requests out, ¬ Outstanding ip h ∧ ¬ Answered h ip) ↔
        First cfg s i := by
      have hreq : requests out = (unresolved cfg (getPacket s i)).toList := by
        cases step_asks hstep with
        | asked _ _ hu _ hreq => rw [hreq, hu]; rfl
        | answered _ hu hreq => rw [hreq, hu]; rfl
        | silent _ _ hu hreq => rw [hreq, hu]; rfl
      have hnodup : (requests out).Nodup := by
        rw [hreq]
        cases unresolved cfg (getPacket s i) <;> simp
      rw [and_iff_right hnodup, First, hreq]
      simp only [Option.mem_toList, getArpEntry_eq_none run, ← htracks.waited, not_exists, not_and]
      exact forall₂_congr fun ip _ => and_comm
    rw [OneOutstanding, hfirst, ih hok.2, List.forall_mem_cons, and_comm]

/-- Packets for two gateways, of which one answers before the next packet for it. -/
theorem two_gateways_asked_once : ∃ h s, Run (Steps (step sampleConfig)) sampleInit h s ∧
    requests (emitted h) = [0x0100000a, 0x01000014] ∧ OneOutstanding h := by
  obtain ⟨h, s, run, hcheck⟩ := Run.of_check (step sampleConfig) sampleInit
    [⟨0, sampleFrame 0x0100000a, none⟩, ⟨0, sampleFrame 0x02000014, none⟩, gatewayReply,
      ⟨0, sampleFrame 0x0100000a, none⟩]
    (fun h _ => decide (requests (emitted h) = [0x0100000a, 0x01000014] ∧
      (∀ st ∈ h, Undisturbed sampleConfig st.before st.input) ∧
      ∀ st ∈ h, First sampleConfig st.before st.input)) (by decide +kernel)
  obtain ⟨hsent, hok, hfirst⟩ := of_decide_eq_true hcheck
  exact ⟨h, s, run, hsent, (oneOutstanding_iff run hok).mpr hfirst⟩

/-- **A gateway is asked three times**: for each of two packets while it has not answered, and for a third packet
after it has. -/
theorem gateway_asked_three_times : ∃ h s, Run (Steps (step sampleConfig)) sampleInit h s ∧
    requests (emitted h) = [0x0100000a, 0x0100000a, 0x0100000a] ∧ Answered h 0x0100000a ∧
      ¬ OneOutstanding h := by
  obtain ⟨h, s, run, hcheck⟩ := Run.of_check (step sampleConfig) sampleInit
    [⟨0, sampleFrame 0x0200000a, none⟩, ⟨0, sampleFrame 0x0300000a, none⟩, gatewayReply,
      ⟨0, sampleFrame 0x0400000a, none⟩]
    (fun h _ => decide (requests (emitted h) = [0x0100000a, 0x0100000a, 0x0100000a] ∧
      (∃ a ∈ announcements h, a.ip = 0x0100000a) ∧
      (h.drop 2).map (fun st => requests st.out) = [[0x0100000a], [0x0100000a]])) (by decide +kernel)
  obtain ⟨hsent, hanswered, hburst⟩ := of_decide_eq_true hcheck
  refine ⟨h, s, run, hsent, hanswered, fun hone => ?_⟩
  have htwo := hone.drop 2
  generalize h.drop 2 = h' at hburst htwo
  cases h' with
  | nil => cases hburst
  | cons second h' =>
    obtain ⟨hsecond, hburst⟩ := List.cons.inj hburst
    cases h' with
    | nil => cases hburst
    | cons first h' =>
      obtain ⟨hfirst, -⟩ := List.cons.inj hburst
      exact (htwo.2.2 0x0100000a (by simp [hsecond])).1 (Or.inl (by simp [hfirst]))

end Pcom.Tema1.Requests
