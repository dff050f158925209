import Pcom.Tema1.Pending

/-!
# TTL and checksum of forwarded frames

The TTL is decremented and the checksum recomputed in two places: for a frame forwarded at once, and for a
packet of the queue when it is sent.  A packet is sent once as long as its storage is queued once.

* `disciplined_of_run` — in every run whose replies find no packet that waits for another next hop, each forwarded
  frame is a received frame with a valid header, its TTL one less, its checksum renewed, and apart from its MAC
  addresses nothing else changed;
* `Waiting` — the invariant of the queue: distinct copies of received frames, with their checksum zeroed;
* `ttl_decremented_twice` — two packets put back by the reply of another gateway leave as one, decremented twice.
-/

namespace Pcom.Tema1.Ttl

open Function Pcom.Lib.Memory Pcom.Lib.Scan Pcom.Lib.StepSystem Pcom.Lib.Sweep Pcom.Tema1.Route
  Pcom.Tema1.Router Pcom.Tema1.Pending Pcom.Tema1.Skel

/-! ### The rewriting of a header -/

/-- The checksum field is `ip_checksum` of the header with that field zeroed. -/
def HeaderSummed (payload : Buf) : Prop :=
  check.get payload = headerChecksum (check.set payload 0)

theorem accepted_congr {b b' : Buf} (h : ∀ k, 14 ≤ k → k < 34 → b k = b' k) (hb : Accepted b) :
    Accepted b' := by
  refine ⟨?_, ?_⟩
  · rw [← headerChecksum_congr h, ← check_congr h]
    exact hb.checksum
  · rw [← ttl_congr h]
    exact hb.ttl

theorem headerSummed_decrementTtl (b : Buf) : HeaderSummed (decrementTtl b) := by
  simp only [HeaderSummed, decrementTtl, ByteField.get_set, ByteField.set_set]

/-! ### Forwarded frames and received frames -/

/-- The bytes `read` puts into the buffer. -/
def received (i : Input) : Bytes := i.frame.take MAX_LEN

/-- The sent frame is the received one with a valid header, its TTL one less; nothing but the MAC addresses, the
TTL and the checksum differs. -/
structure StemsFrom (frame : Bytes) (o : Sent) : Prop where
  accepted : Accepted (ofBytes frame)
  ttl : (ttl.get o.packet.payload).toNat + 1 = (ttl.get (ofBytes frame)).toNat
  len : o.packet.len = frame.length
  rest : ∀ k < frame.length, 12 ≤ k → ¬ Skel.ttl.Covers k → ¬ check.Covers k →
    o.packet.payload k = ofBytes frame k

/-- Every frame forwarded in the history stems from one received by then, and has the right checksum. -/
def Disciplined : List (Step State Input Sent) → Prop
  | [] => True
  | st :: h => Disciplined h ∧ ∀ o ∈ st.out, o.origin = .forward →
      (∃ st' ∈ st :: h, StemsFrom (received st'.input) o) ∧ HeaderSummed o.packet.payload

/-- The buffer holds the frame, apart from its checksum. -/
structure Holds (frame : Bytes) (p : Packet) : Prop where
  accepted : Accepted (ofBytes frame)
  header : 34 ≤ frame.length
  len : p.len = frame.length
  rest : ∀ k < frame.length, ¬ check.Covers k → p.payload k = ofBytes frame k

/-- **The rewriting of either place** keeps the discipline, whatever it does to the MAC addresses. -/
theorem Holds.stems {frame : Bytes} {p : Packet} (hp : Holds frame p) {payload : Buf} (origin : Origin)
    (interface : ℤ) (hmac : ∀ k, 12 ≤ k → payload k = decrementTtl p.payload k) :
    StemsFrom frame ⟨origin, interface, { p with payload := payload }⟩ ∧ HeaderSummed payload := by
  have hhdr : ∀ k, 14 ≤ k → k < 34 → payload k = decrementTtl p.payload k := fun k hk _ => hmac k (by omega)
  have httl : ttl.get p.payload = ttl.get (ofBytes frame) := ByteField.get_congr fun k hk => by
    have hlt : k < frame.length := lt_of_lt_of_le hk.2 (le_trans (by decide) hp.header)
    exact hp.rest k hlt fun hc => absurd (lt_of_lt_of_le hk.2 (by decide : ttl.off + ttl.size ≤ check.off))
      (not_lt.mpr hc.1)
  refine ⟨⟨hp.accepted, ?_, hp.len, fun k hk h12 hnttl hncheck => ?_⟩, ?_⟩
  · have hpos := hp.accepted.ttl
    show (ttl.get payload).toNat + 1 = _
    rw [ttl_congr hhdr, ttl_decrementTtl, httl]
    rw [UInt8.lt_iff_toNat_lt] at hpos
    have hone : (1 : UInt8).toNat = 1 := rfl
    rw [UInt8.toNat_sub_of_le _ _ (by rw [UInt8.le_iff_toNat_le]; omega)]
    omega
  · show payload k = ofBytes frame k
    rw [hmac k h12, decrementTtl_of_not_covers hnttl hncheck, hp.rest k hk hncheck]
  · rw [HeaderSummed, check_congr hhdr, headerChecksum_congr hhdr]
    exact headerSummed_decrementTtl _

/-- What has been read holds the frame. -/
theorem holds_getPacket {s : State} {i : Input} (hlen : 34 ≤ i.frame.length)
    (hacc : Accepted (getPacket s i).m.payload) : Holds (received i) (getPacket s i).m := by
  have hread : ∀ k < (received i).length, (getPacket s i).m.payload k = ofBytes (received i) k :=
    fun k hk => overwrite_eq_ofBytes hk
  have hheader : 34 ≤ (received i).length := by
    rw [received, List.length_take]
    exact le_min (by decide) hlen
  exact ⟨accepted_congr (fun k _ hk => hread k (by omega)) hacc, hheader, rfl, fun k hk _ => hread k hk⟩

/-! ### The invariant of the queue -/

/-- The queue refers to distinct allocated copies of received frames. -/
structure Waiting (h : List (Step State Input Sent)) (s : State) : Prop where
  nodup : s.q.Nodup
  copies : ∀ r ∈ s.q, (∃ n < s.brk, r = .heap n) ∧ ∃ st ∈ h, Holds (received st.input) (s.mem r)

/-- If the frame is an ARP reply, no queued packet waits for another next hop. -/
def NoOthers (cfg : Config) (s : State) (i : Input) : Prop :=
  ∀ a ∈ announced (getPacket s i), ∀ p ∈ contents (getPacket s i), WaitsFor cfg a.ip p

instance (cfg : Config) (s : State) (i : Input) : Decidable (NoOthers cfg s i) :=
  Option.decidableForallMem ..

theorem mem_getPacket_heap (s : State) (i : Input) (n : ℕ) :
    (getPacket s i).mem (.heap n) = s.mem (.heap n) := by
  simp only [getPacket]
  cases i.stack with
  | none => rfl
  | some p => exact update_of_ne Ref.noConfusion ..

/-- Reading a frame does not touch the copies. -/
theorem Waiting.read {h : List (Step State Input Sent)} {s : State} (hs : Waiting h s) (i : Input)
    (out : List Sent) : Waiting (⟨s, i, out⟩ :: h) (getPacket s i) := by
  refine ⟨hs.nodup, fun r hr => ?_⟩
  obtain ⟨⟨n, hn, rfl⟩, st, hst, hholds⟩ := hs.copies r hr
  rw [mem_getPacket_heap]
  exact ⟨⟨n, hn, rfl⟩, st, List.mem_cons_of_mem _ hst, hholds⟩

/-- A fresh copy of an accepted frame joins the queue. -/
theorem Waiting.enqueue {h : List (Step State Input Sent)} {s : State} (hs : Waiting h s) {p : Packet}
    (hp : ∃ st ∈ h, Holds (received st.input) p) (m : Packet) :
    Waiting h { s with
      m := m
      q := s.q ++ [.heap s.brk]
      mem := update s.mem (.heap s.brk) p
      brk := s.brk + 1 } := by
  have hfresh : ∀ r ∈ s.q, r ≠ .heap s.brk := by
    intro r hr
    obtain ⟨⟨n, hn, rfl⟩, -⟩ := hs.copies r hr
    intro heq
    obtain rfl := Ref.heap.inj heq
    exact lt_irrefl _ hn
  refine ⟨?_, fun r hr => ?_⟩
  · refine List.nodup_append.mpr ⟨hs.nodup, List.nodup_singleton _, fun r hr r' hr' => ?_⟩
    rw [List.mem_singleton.mp hr']
    exact hfresh r hr
  · rcases List.mem_append.mp hr with hr | hr
    · obtain ⟨⟨n, hn, rfl⟩, hcopy⟩ := hs.copies r hr
      show _ ∧ ∃ st ∈ h, Holds (received st.input) (update s.mem (.heap s.brk) p (.heap n))
      rw [update_of_ne (hfresh _ hr)]
      exact ⟨⟨n, Nat.lt_succ_of_lt hn, rfl⟩, hcopy⟩
    · rw [List.mem_singleton.mp hr]
      show _ ∧ ∃ st ∈ h, Holds (received st.input) (update s.mem (.heap s.brk) p (.heap s.brk))
      rw [update_self]
      exact ⟨⟨_, Nat.lt_succ_self _, rfl⟩, hp⟩

/-- What a served packet leaves as. -/
theorem stems_of_serve {cfg : Config} {a : ArpEntry} {frame : Bytes} {p p' : Packet} {o : Sent}
    (hp : Holds frame p) (h : serve cfg a.ip a.mac p = some (p', o)) :
    StemsFrom frame o ∧ HeaderSummed o.packet.payload := by
  obtain ⟨route, -, -, rfl, rfl⟩ := serve_eq_some.mp h
  refine hp.stems _ _ fun k hk => ?_
  have hshost : ¬ etherShost.Covers k := fun hc => absurd hc.2 (not_lt.mpr hk)
  have hdhost : ¬ etherDhost.Covers k := fun hc => absurd hc.2 (not_lt.mpr (le_trans (by decide) hk))
  show etherShost.set (etherDhost.set _ _) _ k = _
  rw [ByteField.set_of_not_covers hshost, ByteField.set_of_not_covers hdhost]

/-- One step keeps the invariant and the discipline. -/
theorem Waiting.step {cfg : Config} {h : List (Step State Input Sent)} {s s' : State} {i : Input}
    {out : List Sent} (hs : Waiting h s) (hlen : 34 ≤ i.frame.length) (hok : NoOthers cfg s i)
    (hstep : step cfg s i = some (s', out)) :
    Waiting (⟨s, i, out⟩ :: h) s' ∧ ∀ o ∈ out, o.origin = .forward →
      (∃ st ∈ ⟨s, i, out⟩ :: h, StemsFrom (received st.input) o) ∧ HeaderSummed o.packet.payload := by
  have hread := hs.read i out
  cases step_effect hstep with
  | quiet payload _ _ hout =>
    exact ⟨⟨hread.nodup, hread.copies⟩, fun o ho hf => absurd hf (hout o ho)⟩
  | queued payload _ _ hacc ho =>
    have hholds := holds_getPacket hlen hacc
    have hcopy : Holds (received i)
        { (getPacket s i).m with payload := check.set (getPacket s i).m.payload 0 } :=
      ⟨hholds.accepted, hholds.header, hholds.len, fun k hk hnc =>
        (ByteField.set_of_not_covers hnc).trans (hholds.rest k hk hnc)⟩
    refine ⟨hread.enqueue ⟨_, List.mem_cons_self, hcopy⟩ _, ?_⟩
    rw [List.forall_mem_singleton]
    exact fun hf => absurd hf ho
  | direct route arpX payload _ hfwd hpay =>
    refine ⟨⟨hread.nodup, hread.copies⟩, ?_⟩
    rw [List.forall_mem_singleton]
    intro _
    have hmac : ∀ k, 12 ≤ k → payload k = decrementTtl (getPacket s i).m.payload k := fun k hk => by
      rw [hpay, ByteField.set_of_not_covers fun hc => absurd hc.2 (not_lt.mpr (le_trans (by decide) hk))]
    have hstems := (holds_getPacket hlen (forwardsAtOnce_eq_some hfwd).1).stems .forward route.interface hmac
    exact ⟨⟨_, List.mem_cons_self, hstems.1⟩, hstems.2⟩
  | reply a ha _ _ _ =>
    obtain ⟨hq, hout⟩ := reply_of_all_waiting hread.nodup (hok a ha)
    refine ⟨⟨by rw [hq]; exact List.nodup_nil, by rw [hq]; simp⟩, ?_⟩
    intro o ho _
    rw [hout] at ho
    obtain ⟨p, hp, hsent⟩ := List.mem_filterMap.mp ho
    obtain ⟨⟨p', o⟩, hserve, rfl⟩ := Option.map_eq_some_iff.mp hsent
    obtain ⟨r, hr, rfl⟩ := List.mem_map.mp hp
    obtain ⟨-, st, hst, hholds⟩ := hread.copies r hr
    have hstems := stems_of_serve hholds hserve
    exact ⟨⟨st, hst, hstems.1⟩, hstems.2⟩

/-- **TTL and checksum discipline** of every run of complete headers whose replies find no packet that waits for
another next hop. -/
theorem disciplined_of_run {cfg : Config} {m : Packet} {mem : Ref → Packet}
    {h : List (Step State Input Sent)} {s : State} (run : Run (Steps (step cfg)) (init m mem) h s)
    (hlen : ∀ st ∈ h, 34 ≤ st.input.frame.length) (hok : ∀ st ∈ h, NoOthers cfg st.before st.input) :
    Disciplined h := by
  have hinv : Waiting h s ∧ Disciplined h :=
    run.history (E := fun s i => 34 ≤ i.frame.length ∧ NoOthers cfg s i)
      (P := fun h s => Waiting h s ∧ Disciplined h) ⟨⟨List.nodup_nil, by simp [init]⟩, trivial⟩
      (fun h s i s' out hP hE hstep => by
        obtain ⟨hwait, hout⟩ := hP.1.step hE.1 hE.2 hstep
        exact ⟨hwait, hP.2, hout⟩)
      fun st hst => ⟨hlen st hst, hok st hst⟩
  exact hinv.2

/-- A run in which two frames wait for one gateway, and a third is forwarded at once. -/
theorem three_frames_disciplined : ∃ h s, Run (Steps (step sampleConfig)) sampleInit h s ∧
    (emitted h).countP (fun o => o.origin = .forward) = 3 ∧ Disciplined h := by
  obtain ⟨h, s, run, hcheck⟩ := Run.of_check (step sampleConfig) sampleInit
    [⟨0, sampleFrame 0x0200000a, none⟩, ⟨0, sampleFrame 0x0100000a, none⟩, gatewayReply,
      ⟨0, sampleFrame 0x0100000a, none⟩]
    (fun h _ => decide ((emitted h).countP (fun o => o.origin = .forward) = 3 ∧
      (∀ st ∈ h, 34 ≤ st.input.frame.length) ∧
      ∀ st ∈ h, NoOthers sampleConfig st.before st.input)) (by decide +kernel)
  obtain ⟨hsent, hlen, hok⟩ := of_decide_eq_true hcheck
  exact ⟨h, s, run, hsent, disciplined_of_run run hlen hok⟩

/-- **The TTL is decremented twice**: two packets for `20.0.0.1` wait while `10.0.0.1` answers; when `20.0.0.1`
answers, the one object the queue refers to twice is sent twice, the second time two below what was received. -/
theorem ttl_decremented_twice : ∃ h s, Run (Steps (step sampleConfig)) sampleInit h s ∧
    (∀ st ∈ h, 34 ≤ st.input.frame.length) ∧ ¬ Disciplined h := by
  obtain ⟨h, s, run, hcheck⟩ := Run.of_check (step sampleConfig) sampleInit
    [⟨0, sampleFrame 0x02000014, none⟩, ⟨0, sampleFrame 0x03000014, none⟩, gatewayReply,
      ⟨2, sampleReply 0x01000014 (Vector.replicate 6 0x52), none⟩]
    (fun h _ => decide (∀ st ∈ h, 34 ≤ st.input.frame.length) &&
      h.head?.any fun st => st.out.any fun o => decide (o.origin = .forward ∧
        ∀ st' ∈ h, (ttl.get o.packet.payload).toNat + 1 ≠ (ttl.get (ofBytes (received st'.input))).toNat))
    (by decide +kernel)
  obtain ⟨hlen, hsent⟩ := Bool.and_eq_true_iff.mp hcheck
  refine ⟨h, s, run, of_decide_eq_true hlen, fun hall => ?_⟩
  cases h with
  | nil => cases hsent
  | cons st h =>
    obtain ⟨o, ho, hbad⟩ := List.any_eq_true.mp hsent
    obtain ⟨hforward, hnone⟩ := of_decide_eq_true hbad
    obtain ⟨⟨st', hst', hstems⟩, -⟩ := hall.2 o ho hforward
    exact hnone st' hst' hstems.ttl

end Pcom.Tema1.Ttl
