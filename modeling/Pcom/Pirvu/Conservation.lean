import Pcom.Lib.WaitingLine
import Pcom.Pirvu.Router

/-!
# Packet conservation in the trie router

A frame is accepted by what its own bytes say.  Every accepted frame waits in the queue or has been forwarded,
once, and nothing else is forwarded; what is forwarded is the frame received, readdressed, with its TTL one less
and a fresh checksum.

* `conserved_of_run` — the law over every run of frames of at least 34 bytes in which no frame is mistaken for
  an echo request because of a byte an earlier frame left in the buffer (`StaleEcho`);
* `stale_echo_lost` — a run in which a frame of 34 bytes is neither queued nor forwarded.
-/

namespace Pcom.Pirvu.Conservation

open Function Pcom.Lib.Memory Pcom.Lib.Scan Pcom.Lib.StepSystem Pcom.Lib.WaitingLine
  Pcom.Pirvu.RTable Pcom.Pirvu.Router
open Pcom.Tema1.Skel (MAX_LEN Mac Packet htons etherDhost etherShost etherType ttl protocol check saddr
  daddr icmpType op sha spa ETHERTYPE_IP ETHERTYPE_ARP ipChecksum word buildEthhdr)
open Pcom.Tema1.Router (headerChecksum decrementTtl get_decrementTtl ttl_decrementTtl
  decrementTtl_of_not_covers headerChecksum_congr sampleFrame sampleReply blank)

/-! ### Frames and their places -/

/-- The frames of a history that are accepted, each with the number of frames before it. -/
def arrivals (cfg : Config) : List (Step State Input Sent) → List (ℕ × Input)
  | [] => []
  | st :: h =>
    if Accepts cfg (packetOf st.input) then (h.length, st.input) :: arrivals cfg h else arrivals cfg h

/-- The frames forwarded in a history, in order. -/
def forwarded (h : List (Step State Input Sent)) : List Sent :=
  (emitted h).filter fun o => o.origin = .forward

/-- The ARP requests for a destination in a history. -/
def requests (h : List (Step State Input Sent)) (dest : BitVec 32) : List Sent :=
  (emitted h).filter fun o => o.origin = .arpRequest ∧ tpa.get o.packet.payload = dest

/-- The packet of the queue is the frame, but for its checksum. -/
structure WaitsAs (i : Input) (p : Packet) : Prop where
  header : 34 ≤ i.received.length
  len : p.len = i.received.length
  bytes : ∀ k, k < i.received.length → ¬ check.Covers k → p.payload k = ofBytes i.received k

/-- What is sent is the frame on its way: to the interface of the best match, as long as it was received, equal
but for destination MAC, TTL and checksum, its TTL one less, its checksum right. -/
structure ForwardOf (cfg : Config) (i : Input) (o : Sent) : Prop where
  interface : o.interface = (findBestEntry cfg.rtable (daddr.get (ofBytes i.received))).interface
  len : o.packet.len = i.received.length
  bytes : ∀ k, k < i.received.length → ¬ etherDhost.Covers k → ¬ ttl.Covers k → ¬ check.Covers k →
    o.packet.payload k = ofBytes i.received k
  ttl : ttl.get o.packet.payload = ttl.get (ofBytes i.received) - 1
  checksum : headerChecksum (check.set o.packet.payload 0) = check.get o.packet.payload

/-- **Packet conservation** at the end of a history. -/
structure Conserved (cfg : Config) (h : List (Step State Input Sent)) (s : State) : Prop where
  placed : Placed (fun a p => WaitsAs a.2 p) (fun a o => ForwardOf cfg a.2 o) (arrivals cfg h) s.q
    (forwarded h)
  asked : ∀ dest, (requests h dest).length ≤ 1

/-- The frame ends with its IPv4 header, says that ICMP follows, is meant for the router, would be accepted,
and where the ICMP type would be, the buffer holds an `8` of an earlier frame. -/
structure StaleEcho (cfg : Config) (s : State) (i : Input) : Prop where
  len : i.received.length = 34
  accepted : Accepts cfg (packetOf i)
  protocol : protocol.get (ofBytes i.received) = 1
  ours : cfg.interfaceIp i.interface = daddr.get (ofBytes i.received)
  stale : s.m.payload 34 = 8

/-! ### The frame in the buffer -/

theorem checksum_getPacket {i : Input} (hlen : 34 ≤ i.received.length) (s : State) :
    headerChecksum (check.set (getPacket s i).m.payload 0) =
      headerChecksum (check.set (packetOf i).payload 0) :=
  headerChecksum_congr (fun _ _ hk => overwrite_eq_ofBytes (lt_of_lt_of_le hk hlen)) 0

/-- The echo test on the buffer and on the frame agree, unless the ICMP type is not part of the frame. -/
theorem ownEcho_getPacket (cfg : Config) {i : Input} (hlen : 34 ≤ i.received.length) (s : State) :
    ownEcho cfg (getPacket s i).m = true ↔ ownEcho cfg (packetOf i) = true ∨
      (i.received.length = 34 ∧ protocol.get (ofBytes i.received) = 1 ∧
        cfg.interfaceIp i.interface = daddr.get (ofBytes i.received) ∧ s.m.payload 34 = 8) := by
  have hprotocol := get_getPacket (f := protocol) (i := i) (le_trans (by decide) hlen) s
  have hdaddr := get_getPacket (f := daddr) (i := i) (le_trans (by decide) hlen) s
  simp only [ownEcho, decide_eq_true_eq, hprotocol, hdaddr]
  show protocol.get (ofBytes i.received) = 1 ∧ icmpType.get (getPacket s i).m.payload = 8 ∧
      cfg.interfaceIp i.interface = daddr.get (ofBytes i.received) ↔
    (protocol.get (ofBytes i.received) = 1 ∧ icmpType.get (ofBytes i.received) = 8 ∧
      cfg.interfaceIp i.interface = daddr.get (ofBytes i.received)) ∨ _
  by_cases hend : i.received.length = 34
  · have hold : icmpType.get (getPacket s i).m.payload = s.m.payload 34 := overwrite_of_le hend.le
    have hzero : icmpType.get (ofBytes i.received) = 0 := ofBytes_of_le hend.le
    have hne : ¬ (0 : UInt8) = 8 := by decide
    rw [hold, hzero]
    simp only [hend, hne, false_and, and_false, false_or, true_and]
    tauto
  · have hnew := get_getPacket (f := icmpType) (i := i)
      (show 35 ≤ i.received.length by omega) s
    rw [hnew]
    simp only [hend, false_and, or_false]
    rfl

/-- **The router accepts what the frame says is acceptable**, unless the frame is mistaken for an echo
request. -/
theorem accepts_getPacket {cfg : Config} {s : State} {i : Input} (hlen : 34 ≤ i.received.length)
    (hstale : ¬ StaleEcho cfg s i) :
    Accepts cfg (getPacket s i).m ↔ Accepts cfg (packetOf i) := by
  have htype := get_getPacket (f := etherType) (i := i) (le_trans (by decide) hlen) s
  have hcheck := get_getPacket (f := check) (i := i) (le_trans (by decide) hlen) s
  have httl := get_getPacket (f := ttl) (i := i) (le_trans (by decide) hlen) s
  have hdaddr := get_getPacket (f := daddr) (i := i) (le_trans (by decide) hlen) s
  have hsum := checksum_getPacket hlen s
  have hecho := ownEcho_getPacket cfg hlen s
  constructor
  · intro h
    refine ⟨htype ▸ h.type, ?_, httl ▸ h.ttl, hdaddr ▸ h.routed, ?_⟩
    · rw [← hsum, ← hcheck]
      exact h.checksum
    · by_contra hours
      rw [Bool.not_eq_false] at hours
      exact absurd ((hecho.mpr (Or.inl hours)).symm.trans h.notOurs) (by decide)
  · intro h
    refine ⟨htype ▸ h.type, ?_, httl ▸ h.ttl, hdaddr ▸ h.routed, ?_⟩
    · rw [hsum, hcheck]
      exact h.checksum
    · by_contra hours
      rw [Bool.not_eq_false] at hours
      rcases hecho.mp hours with hours | ⟨hend, hprotocol, hours, hold⟩
      · exact absurd (hours.symm.trans h.notOurs) (by decide)
      · exact hstale ⟨hend, h, hprotocol, hours, hold⟩

/-! ### What is forwarded -/

theorem waitsAs_unchecked {i : Input} (hlen : 34 ≤ i.received.length) (s : State) :
    WaitsAs i (unchecked (getPacket s i).m) where
  header := hlen
  len := rfl
  bytes k hk hcheck := by
    show check.set (overwrite s.m.payload i.received) 0 k = _
    rw [ByteField.set_of_not_covers hcheck, overwrite_eq_ofBytes hk]

/-- A field of a waiting packet apart from the checksum is the field of the frame. -/
theorem WaitsAs.get {α : Type*} {f : ByteField α} {i : Input} {p : Packet} (h : WaitsAs i p)
    (hf : f.off + f.size ≤ 34) (hapart : f.Apart check) : f.get p.payload = f.get (ofBytes i.received) := by
  refine ByteField.get_congr fun k ⟨hlo, hhi⟩ => h.bytes k ?_ ?_
  · exact lt_of_lt_of_le (lt_of_lt_of_le hhi hf) h.header
  · rintro ⟨hlo', hhi'⟩
    rcases hapart with h | h <;> omega

/-- **A waiting packet, rewritten**, is the frame on its way. -/
theorem WaitsAs.forward (cfg : Config) {i : Input} {p : Packet} (h : WaitsAs i p) (mac : Mac) :
    ForwardOf cfg i
      ⟨.forward, (findBestEntry cfg.rtable (daddr.get p.payload)).interface, rewrite mac p⟩ where
  interface := by
    show (findBestEntry cfg.rtable (daddr.get p.payload)).interface = _
    rw [h.get (by decide) (by decide)]
  len := h.len
  bytes k hk hdhost httl hcheck := by
    show etherDhost.set (decrementTtl p.payload) mac k = _
    rw [ByteField.set_of_not_covers hdhost, decrementTtl_of_not_covers httl hcheck, h.bytes k hk hcheck]
  ttl := by
    show ttl.get (etherDhost.set (decrementTtl p.payload) mac) = _
    rw [ByteField.get_set_of_apart (by decide), ttl_decrementTtl, h.get (by decide) (by decide)]
  checksum := by
    show headerChecksum (check.set (etherDhost.set (decrementTtl p.payload) mac) 0) =
      check.get (etherDhost.set (decrementTtl p.payload) mac)
    have hmac : ∀ k, 14 ≤ k → k < 34 → etherDhost.set (decrementTtl p.payload) mac k =
        decrementTtl p.payload k := fun k hk _ =>
      ByteField.set_of_not_covers fun hc => absurd (lt_of_lt_of_le hc.2 (by decide : 6 ≤ 14)) (not_lt.mpr hk)
    rw [headerChecksum_congr hmac, ByteField.get_set_of_apart (by decide)]
    simp only [decrementTtl, ByteField.set_set, ByteField.get_set]

theorem tpa_sendARPRequest (cfg : Config) (entry : RTableEntry) (dest : BitVec 32) (fresh : Buf) :
    tpa.get (sendARPRequest cfg entry dest fresh).packet.payload = dest := by
  simp only [sendARPRequest]
  rw [ByteField.get_set_of_apart (by decide), ByteField.get_set]

/-! ### One step -/

variable {cfg : Config} {h : List (Step State Input Sent)} {s s' : State} {i : Input} {out : List Sent}

theorem emitted_cons (st : Step State Input Sent) (h : List (Step State Input Sent)) :
    emitted (st :: h) = emitted h ++ st.out := rfl

theorem forwarded_cons (st : Step State Input Sent) (h : List (Step State Input Sent)) :
    forwarded (st :: h) = forwarded h ++ st.out.filter fun o => o.origin = .forward := by
  rw [forwarded, emitted_cons, List.filter_append, forwarded]

theorem requests_cons (st : Step State Input Sent) (h : List (Step State Input Sent))
    (dest : BitVec 32) : requests (st :: h) dest = requests h dest ++
      st.out.filter fun o => o.origin = .arpRequest ∧ tpa.get o.packet.payload = dest := by
  rw [requests, emitted_cons, List.filter_append, requests]

/-- The invariant: the law, and that a destination asked for has an entry. -/
structure Invariant (cfg : Config) (h : List (Step State Input Sent)) (s : State) : Prop where
  placed : Placed (fun a p => WaitsAs a.2 p) (fun a o => ForwardOf cfg a.2 o) (arrivals cfg h) s.q
    (forwarded h)
  asked : ∀ dest, (requests h dest).length ≤ if (s.arpTable dest).isSome then 1 else 0

/-- The table does not lose entries when the queue is flushed. -/
theorem isSome_onArpReply {dest : BitVec 32} (hd : (s.arpTable dest).isSome = true) :
    ((onArpReply cfg s).1.arpTable dest).isSome = true := by
  have hupdate : (update s.arpTable (spa.get s.m.payload)
      (some ⟨spa.get s.m.payload, sha.get s.m.payload⟩) dest).isSome = true := by
    by_cases heq : dest = spa.get s.m.payload
    · subst heq
      rw [update_self]
      rfl
    · rwa [update_of_ne heq]
  simp only [onArpReply]
  rcases flush_fst cfg s.q (update s.arpTable (spa.get s.m.payload)
    (some ⟨spa.get s.m.payload, sha.get s.m.payload⟩)) dest with hkeep | ⟨-, hsome, -⟩
  · rwa [hkeep]
  · rw [hsome]
    rfl

theorem Invariant.step (hs : Invariant cfg h s) (hlen : 34 ≤ i.received.length)
    (hstale : ¬ StaleEcho cfg s i) (hstep : step cfg s i = some (s', out)) :
    Invariant cfg (⟨s, i, out⟩ :: h) s' := by
  have hiff := accepts_getPacket hlen hstale
  have hdest := get_getPacket (f := daddr) (i := i) (le_trans (by decide) hlen) s
  have hwait := waitsAs_unchecked hlen s
  -- a step that asks for nobody and removes no entry keeps the second part
  have hasked : ∀ {s' : State} {out : List Sent}, (∀ o ∈ out, o.origin ≠ .arpRequest) →
      (∀ dest, (s.arpTable dest).isSome = true → (s'.arpTable dest).isSome = true) →
      ∀ dest, (requests (⟨s, i, out⟩ :: h) dest).length ≤ if (s'.arpTable dest).isSome then 1 else 0 := by
    intro s' out hout hkeep dest
    have hnone : out.filter (fun o => o.origin = .arpRequest ∧ tpa.get o.packet.payload = dest) = [] := by
      rw [List.filter_eq_nil_iff]
      intro o ho
      simp [hout o ho]
    rw [requests_cons, hnone, List.append_nil]
    refine (hs.asked dest).trans ?_
    by_cases hd : (s.arpTable dest).isSome = true
    · rw [if_pos hd, if_pos (hkeep dest hd)]
    · rw [if_neg hd]
      exact Nat.zero_le _
  rcases step_effect hstep with
    ⟨payload, hacc, -, hout⟩ | ⟨entry, fresh, hreq, -, -⟩ | ⟨hacc, -⟩ | ⟨fresh, hacc, -, hmiss⟩ |
      ⟨entry, hacc, -, hhit⟩
  · -- nothing but the buffer changes
    have hnone : out.filter (fun o => o.origin = .forward) = [] := by
      rw [List.filter_eq_nil_iff]
      intro o ho
      rcases hout o ho with h | h <;> simp [h]
    refine ⟨?_, hasked (fun o ho => ?_) fun _ hd => hd⟩
    · rw [forwarded_cons, hnone, List.append_nil, arrivals, if_neg (fun hc => hacc (hiff.mpr hc))]
      exact hs.placed
    · rcases hout o ho with h | h <;> simp [h]
  · have hacc : ¬ Accepts cfg (getPacket s i).m := not_accepts_of_arp hreq.1
    refine ⟨?_, hasked (by simp [sendARPReply]) fun _ hd => hd⟩
    rw [forwarded_cons, arrivals, if_neg (fun hc => hacc (hiff.mpr hc))]
    simpa [sendARPReply] using hs.placed
  · -- the whole queue leaves
    have hsent : (onArpReply cfg (getPacket s i)).2 = s.q.map (released cfg (update s.arpTable
        (spa.get (getPacket s i).m.payload) (some ⟨spa.get (getPacket s i).m.payload,
          sha.get (getPacket s i).m.payload⟩))) := flush_snd ..
    refine ⟨?_, hasked ?_ fun dest hd => isSome_onArpReply (s := getPacket s i) hd⟩
    · rw [forwarded_cons, arrivals, if_neg (fun hc => hacc (hiff.mpr hc)), hsent,
        List.filter_eq_self.mpr (by simp [released])]
      exact hs.placed.flush fun a p hp => hp.forward cfg _
    · rw [hsent]
      simp [released]
  · -- the frame waits
    refine ⟨?_, fun dest => ?_⟩
    · rw [forwarded_cons, arrivals, if_pos (hiff.mp hacc)]
      simpa [sendARPRequest] using hs.placed.wait (a := (h.length, i)) hwait
    · rw [requests_cons, List.length_append]
      have hbefore := hs.asked dest
      by_cases heq : dest = daddr.get (getPacket s i).m.payload
      · subst heq
        have hnone : s.arpTable (daddr.get (getPacket s i).m.payload) = none := hmiss
        rw [hnone] at hbefore
        show _ ≤ if (update s.arpTable _ (some placeholder) _).isSome = true then 1 else 0
        rw [update_self]
        have hone := List.length_filter_le (fun o : Sent => o.origin = .arpRequest ∧
          tpa.get o.packet.payload = daddr.get (getPacket s i).m.payload)
          [sendARPRequest cfg (findBestEntry cfg.rtable (daddr.get (getPacket s i).m.payload))
            (daddr.get (getPacket s i).m.payload) fresh]
        simp only [Option.isSome_none, Bool.false_eq_true, if_false, Option.isSome_some, if_true,
          List.length_singleton] at hbefore hone ⊢
        omega
      · have hother : ¬ daddr.get (getPacket s i).m.payload = dest := fun h => heq h.symm
        show _ ≤ if (update s.arpTable _ (some placeholder) dest).isSome = true then 1 else 0
        rw [update_of_ne heq]
        simpa [tpa_sendARPRequest, hother] using hbefore
  · -- the frame is forwarded at once
    refine ⟨?_, hasked (by simp) fun _ hd => hd⟩
    rw [forwarded_cons, arrivals, if_pos (hiff.mp hacc)]
    have hforward := hwait.forward cfg entry.mac
    rw [daddr_unchecked, rewrite_unchecked] at hforward
    exact hs.placed.direct (a := (h.length, i)) hforward

/-! ### Runs -/

/-- **Packet conservation**, over every run of frames of at least 34 bytes none of which is mistaken for an echo
request. -/
theorem conserved_of_run {m : Packet} (run : Run (Steps (step cfg)) (init m) h s)
    (hlen : ∀ st ∈ h, 34 ≤ st.input.received.length)
    (hstale : ∀ st ∈ h, ¬ StaleEcho cfg st.before st.input) : Conserved cfg h s := by
  have hinv : Invariant cfg h s := by
    refine run.history (E := fun s i => 34 ≤ i.received.length ∧ ¬ StaleEcho cfg s i)
      (P := Invariant cfg) ⟨placed_nil, fun dest => Nat.zero_le _⟩ ?_
      fun st hst => ⟨hlen st hst, hstale st hst⟩
    exact fun _ _ _ _ _ hs hok hstep => hs.step hok.1 hok.2 hstep
  refine ⟨hinv.placed, fun dest => (hinv.asked dest).trans ?_⟩
  split <;> decide

/-! ### Sample runs -/

/-- A correct IPv4 frame that announces ICMP, with TTL 64. -/
def icmpFrame (dest : BitVec 32) (icmp : Bytes) : Bytes :=
  let header (sum : BitVec 16) : Bytes := [0x45, 0] ++ word (htons 28) ++ word (htons 1) ++
    word (0 : BitVec 16) ++ [64, 1] ++ word sum ++ word (0x0100001e : BitVec 32) ++ word dest
  buildEthhdr (Vector.replicate 6 0x30) (Vector.replicate 6 0xa0) (htons ETHERTYPE_IP) ++
    header (ipChecksum 18 (header 0)) ++ icmp

/-- The requirement of the law on a history, as a test. -/
def plain (h : List (Step State Input Sent)) : Bool :=
  h.all fun st => 34 ≤ st.input.received.length ∧
    (st.input.received.length ≠ 34 ∨ protocol.get (ofBytes st.input.received) ≠ 1)

theorem plain_iff {h : List (Step State Input Sent)} (hp : plain h = true) :
    (∀ st ∈ h, 34 ≤ st.input.received.length) ∧
      ∀ st ∈ h, ¬ StaleEcho cfg st.before st.input := by
  simp only [plain, List.all_eq_true, decide_eq_true_eq] at hp
  refine ⟨fun st hst => (hp st hst).1, fun st hst hstale => ?_⟩
  rcases (hp st hst).2 with h | h
  · exact h hstale.len
  · exact h hstale.protocol

/-- Two packets, of which the second is sent at once, and the reply that flushes the first. -/
theorem two_packets_conserved : ∃ h s, Run (Steps (step sampleConfig)) (init blank) h s ∧
    Conserved sampleConfig h s ∧ (forwarded h).length = 2 := by
  obtain ⟨h, s, run, hcheck⟩ := Run.of_check (step sampleConfig) (init blank)
    [⟨0, sampleFrame 0x0200000a, fun _ => 0⟩, ⟨0, sampleFrame 0x0200000a, fun _ => 0⟩,
      ⟨1, sampleReply 0x0200000a (Vector.replicate 6 9), fun _ => 0⟩]
    (fun h _ => plain h && (forwarded h).length == 2) (by decide +kernel)
  rw [Bool.and_eq_true, beq_iff_eq] at hcheck
  obtain ⟨hlen, hstale⟩ := plain_iff hcheck.1
  exact ⟨h, s, run, conserved_of_run run hlen hstale, hcheck.2⟩

/-- An echo request for another host leaves its type in the buffer; a frame of 34 bytes for the router, which
has no ICMP header, is then answered as if it were an echo request, and neither queued nor forwarded. -/
theorem stale_echo_lost : ∃ h s, Run (Steps (step sampleConfig)) (init blank) h s ∧
    (∀ st ∈ h, 34 ≤ st.input.received.length) ∧ ¬ Conserved sampleConfig h s := by
  obtain ⟨h, s, run, hcheck⟩ := Run.of_check (step sampleConfig) (init blank)
    [⟨0, icmpFrame 0x0200000a [8, 0, 0xf7, 0xff, 0, 0, 0, 0], fun _ => 0⟩,
      ⟨1, icmpFrame 0x0100000a [], fun _ => 0⟩]
    (fun h s => (h.all fun st => 34 ≤ st.input.received.length) && s.q.length == 1 &&
      (forwarded h).length == 0 && (arrivals sampleConfig h).length == 2) (by decide +kernel)
  simp only [Bool.and_eq_true, beq_iff_eq, List.all_eq_true, decide_eq_true_eq] at hcheck
  obtain ⟨⟨⟨hlen, hq⟩, hforwarded⟩, harrivals⟩ := hcheck
  refine ⟨h, s, run, hlen, fun hc => ?_⟩
  have hlength := hc.placed.length_eq
  omega

end Pcom.Pirvu.Conservation
