import Pcom.Lab04.Forwarding
import Pcom.Lib.Network

/-!
# Networks of the routers of `Lab04`

Any number of routers, with any tables and any links between their interfaces; an interface without a link leads to
a host.  The routers serve the frames on the links in any order.  Frames get lost and routers stop at any time; a
router stops by itself when it follows a null pointer.

* `frames_descend` — **no frame is made up, doubled or spoiled**: what is on the links and what reaches the hosts are
  different frames of those put in, as they were or with a lower TTL that is not zero, the checksum right and nothing
  else changed but the destination address of the link;
* `network_drains` — **no frame goes round for ever**, even where the routes form a loop and however short the frames
  are;
* `services_le_ttl` — frames with complete headers are served at most as often as their TTL says.
-/

namespace Pcom.Lab04.Network

open Pcom.Lab04.Forwarding Pcom.Lab04.HeaderTest Pcom.Lib.Memory Pcom.Lib.Network Pcom.Lib.Scan Pcom.Lib.StepSystem
open Pcom.Tema1.Skel (Mac etherDhost ttl check daddr MAX_LEN)

variable {ι : Type*}

/-- The tables of the routers, and what their interfaces lead to: another router, or a host. -/
structure Topology (ι : Type*) where
  tables : ι → Tables
  link : ι → ℤ → Option ι

/-- A router serves a frame. -/
def serve (ipHdr : ℕ) (top : Topology ι) (r : ι) (payload : Buf) (frame : Bytes) : Service ι Buf Bytes :=
  match round ipHdr (top.tables r) payload frame with
  | none => ⟨none, none⟩
  | some (payload, out) => ⟨some payload, out.head?.map fun o => (top.link r o.interface, o.frame)⟩

/-- What serving a frame can do: nothing, send it on, or stop the router. -/
inductive Served (ipHdr : ℕ) (top : Topology ι) (r : ι) (read : Buf) (len : ℕ) : Service ι Buf Bytes → Prop
  | dropped : ¬ Passes ipHdr read → Served ipHdr top r read len ⟨some read, none⟩
  | sent (p : ℤ × Mac) : Passes ipHdr read → target (top.tables r) (daddr.get read) = some p →
      Served ipHdr top r read len
        ⟨some (readdressed ipHdr read p.2), some (top.link r p.1, bytes (readdressed ipHdr read p.2) 0 len)⟩
  | stopped : target (top.tables r) (daddr.get read) = none → Served ipHdr top r read len ⟨none, none⟩

theorem serve_cases (ipHdr : ℕ) (top : Topology ι) (r : ι) (payload : Buf) (frame : Bytes) :
    Served ipHdr top r (overwrite payload (received frame)) (received frame).length
      (serve ipHdr top r payload frame) := by
  rw [serve, round_eq]
  by_cases hpass : Passes ipHdr (overwrite payload (received frame))
  · rw [if_pos hpass]
    cases htarget : target (top.tables r) (daddr.get (overwrite payload (received frame))) with
    | none => exact .stopped htarget
    | some p => exact .sent p hpass htarget
  · rw [if_neg hpass]
    exact .dropped hpass

/-! ### What becomes of a frame -/

/-- The TTL of a frame. -/
def ttlOf (frame : Bytes) : ℕ := (ttl.get (ofBytes frame)).toNat

/-- `f` is `f₀`, or `f₀` some hops later: the TTL is lower and not zero; the checksum was right and is right; nothing
else but the destination address of the link has changed. -/
structure Descends (ipHdr : ℕ) (f₀ f : Bytes) : Prop where
  whole : Whole f₀
  length : f.length = f₀.length
  hops : f = f₀ ∨ ttlOf f < ttlOf f₀ ∧ 0 < ttlOf f ∧ ZeroSum ipHdr (ofBytes f₀) ∧ ZeroSum ipHdr (ofBytes f)
  rest : ∀ k < f₀.length, ¬ etherDhost.Covers k → ¬ ttl.Covers k → ¬ check.Covers k → ofBytes f k = ofBytes f₀ k

theorem Descends.trans {ipHdr : ℕ} {a b c : Bytes} (hab : Descends ipHdr a b) (hbc : Descends ipHdr b c) :
    Descends ipHdr a c := by
  refine ⟨hab.whole, hbc.length.trans hab.length, ?_, fun k hk hd ht hc => ?_⟩
  · rcases hab.hops with rfl | ⟨hlt, -, hsum, -⟩
    · exact hbc.hops
    · rcases hbc.hops with rfl | ⟨hlt', hpos, -, hsum'⟩
      · exact hab.hops
      · exact Or.inr ⟨lt_trans hlt' hlt, hpos, hsum, hsum'⟩
  · rw [hbc.rest k (hab.length ▸ hk) hd ht hc, hab.rest k hk hd ht hc]

theorem Descends.still_whole {ipHdr : ℕ} {f₀ f : Bytes} (h : Descends ipHdr f₀ f) : Whole f :=
  ⟨h.length ▸ h.whole.1, h.length ▸ h.whole.2⟩

theorem Descends.refl (ipHdr : ℕ) {f : Bytes} (h : Whole f) : Descends ipHdr f f :=
  ⟨h, rfl, Or.inl rfl, fun _ _ _ _ _ => rfl⟩

/-- The bytes that are sent, looked at as a buffer. -/
theorem ofBytes_bytes (b : Buf) {n k : ℕ} (hk : k < n) : ofBytes (bytes b 0 n) k = b k := by
  simp [ofBytes, bytes, hk]

/-- **One hop**: the frame that is sent on, if any. -/
structure Hop (ipHdr : ℕ) (f f' : Bytes) : Prop where
  length : f'.length = f.length
  ttl : ttlOf f' + 1 = ttlOf f
  alive : 0 < ttlOf f'
  summed : ZeroSum ipHdr (ofBytes f) ∧ ZeroSum ipHdr (ofBytes f')
  rest : ∀ k < f.length, ¬ etherDhost.Covers k → ¬ Pcom.Tema1.Skel.ttl.Covers k → ¬ check.Covers k →
    ofBytes f' k = ofBytes f k

theorem hop_of_served (ipHdr : ℕ) (top : Topology ι) (r : ι) (payload : Buf) {frame : Bytes}
    (hwhole : Whole frame) : ∀ o ∈ (serve ipHdr top r payload frame).out, Hop ipHdr frame o.2 := by
  have hread : ∀ k < frame.length, overwrite payload frame k = ofBytes frame k := fun k hk => overwrite_eq_ofBytes hk
  have hserved := serve_cases ipHdr top r payload frame
  rw [hwhole.received] at hserved
  generalize serve ipHdr top r payload frame = v at hserved
  intro o ho
  cases hserved with
  | dropped _ => cases ho
  | stopped _ => cases ho
  | sent p hpass _ =>
    obtain ⟨i, mac⟩ := p
    obtain rfl := Option.some.inj ho
    have hlen := hwhole.1
    have hsent : ∀ k < frame.length, ofBytes (bytes (readdressed ipHdr (overwrite payload frame) mac) 0 frame.length) k
        = readdressed ipHdr (overwrite payload frame) mac k := fun k hk => ofBytes_bytes _ hk
    have httl := toNat_ttl_readdressed hpass mac
    have hin : ttl.get (overwrite payload frame) = ttl.get (ofBytes frame) :=
      ByteField.get_overwrite (f := ttl) (le_trans (by decide) hlen)
    have hout : ttl.get (ofBytes (bytes (readdressed ipHdr (overwrite payload frame) mac) 0 frame.length))
        = ttl.get (readdressed ipHdr (overwrite payload frame) mac) :=
      ByteField.get_congr fun k hk => hsent k (lt_of_lt_of_le hk.2 (le_trans (by decide) hlen))
    refine ⟨length_bytes _ _ _, ?_, ?_, ⟨?_, ?_⟩, fun k hk hd ht hc => ?_⟩
    · rw [ttlOf, ttlOf, hout, ← hin]
      exact httl.1
    · rw [ttlOf, hout]
      exact httl.2
    · exact (zeroSum_congr fun k _ hk => hread k (by omega)).mp hpass.1
    · exact (zeroSum_congr fun k _ hk => hsent k (by omega)).mpr (zeroSum_readdressed ipHdr _ mac)
    · rw [hsent k hk, readdressed_of_not_covers hd ht hc, hread k hk]

theorem Hop.descends {ipHdr : ℕ} {f f' : Bytes} (hop : Hop ipHdr f f') (hwhole : Whole f) : Descends ipHdr f f' :=
  ⟨hwhole, hop.length, Or.inr ⟨by have := hop.ttl; omega, hop.alive, hop.summed⟩, hop.rest⟩

theorem Hop.whole {ipHdr : ℕ} {f f' : Bytes} (hop : Hop ipHdr f f') (hwhole : Whole f) : Whole f' :=
  ⟨hop.length ▸ hwhole.1, hop.length ▸ hwhole.2⟩

/-- **A frame with the right checksum**: it is sent where the tables say, unless its TTL has run out. -/
theorem serve_summed {ipHdr : ℕ} (top : Topology ι) (r : ι) (payload : Buf) {f : Bytes} (hwhole : Whole f)
    (hsum : ZeroSum ipHdr (ofBytes f)) :
    (serve ipHdr top r payload f).out = none ∧
        (ttlOf f ≤ 1 ∨ target (top.tables r) (daddr.get (ofBytes f)) = none) ∨
      ∃ p b f', target (top.tables r) (daddr.get (ofBytes f)) = some p ∧ 1 < ttlOf f ∧
        serve ipHdr top r payload f = ⟨some b, some (top.link r p.1, f')⟩ ∧ Hop ipHdr f f' := by
  have hlen := hwhole.1
  have hhop := hop_of_served ipHdr top r payload hwhole
  have hserved := serve_cases ipHdr top r payload f
  have hread : ∀ k < f.length, overwrite payload f k = ofBytes f k := fun k hk => overwrite_eq_ofBytes hk
  have hdaddr : daddr.get (overwrite payload f) = daddr.get (ofBytes f) :=
    ByteField.get_overwrite (f := daddr) (le_trans (by decide) hlen)
  have httl : ttl.get (overwrite payload f) = ttl.get (ofBytes f) :=
    ByteField.get_overwrite (f := ttl) (le_trans (by decide) hlen)
  have hpasses : Passes ipHdr (overwrite payload f) ↔ 1 < ttlOf f := by
    rw [Passes, httl, UInt8.lt_iff_toNat_lt, zeroSum_congr fun k _ hk => hread k (by omega), and_iff_right hsum]
    rfl
  rw [hwhole.received] at hserved
  generalize serve ipHdr top r payload f = v at hserved hhop
  cases hserved with
  | dropped hnot => exact Or.inl ⟨rfl, Or.inl (not_lt.mp fun hlt => hnot (hpasses.mpr hlt))⟩
  | stopped hnone => exact Or.inl ⟨rfl, Or.inr (hdaddr ▸ hnone)⟩
  | sent p hpass htarget => exact Or.inr ⟨p, _, _, hdaddr ▸ htarget, hpasses.mp hpass, rfl, hhop _ rfl⟩

/-- The destination of a frame stays what it was. -/
theorem Hop.daddr_eq {ipHdr : ℕ} {f f' : Bytes} (hop : Hop ipHdr f f') (hwhole : Whole f) :
    daddr.get (ofBytes f') = daddr.get (ofBytes f) := by
  refine ByteField.get_congr fun k hk => ?_
  have hlo : 30 ≤ k := hk.1
  have hhi : k < 34 := hk.2
  refine hop.rest k (lt_of_lt_of_le hhi hwhole.1) (fun hc => ?_) (fun hc => ?_) fun hc => ?_
  · have hlt : k < 6 := hc.2
    omega
  · have hlt : k < 23 := hc.2
    omega
  · have hlt : k < 26 := hc.2
    omega

/-! ### The time a frame has left -/

/-- The TTL that the buffer of a router holds. -/
def heldTtl (payload : Buf) : ℕ := (ttl.get payload).toNat

/-- A frame that reaches as far as the TTL can be served as often as it says, and leaves its TTL in every buffer; a
shorter one lives on the TTL it finds there. -/
def weight (frame : Bytes) : ℕ := if 23 ≤ frame.length then 256 * (ttlOf frame + 1) else 1

/-- The TTL in the buffer after a frame has been read. -/
theorem heldTtl_read (payload : Buf) (frame : Bytes) : heldTtl (overwrite payload (received frame)) =
    if 23 ≤ frame.length then ttlOf frame else heldTtl payload := by
  have hlen : (received frame).length = min MAX_LEN frame.length := List.length_take
  have hmax : MAX_LEN = 1600 := rfl
  by_cases h : 23 ≤ frame.length
  · have hbyte : overwrite payload (received frame) 22 = ofBytes frame 22 := by
      rw [overwrite_eq_ofBytes (by omega), ofBytes, ofBytes, received, List.getD_eq_getElem?_getD,
        List.getD_eq_getElem?_getD, List.getElem?_take_of_lt (by omega)]
    rw [if_pos h]
    exact congrArg UInt8.toNat hbyte
  · rw [if_neg h]
    exact congrArg UInt8.toNat (overwrite_of_le (i := 22) (by omega))

/-- The weight of a frame that is sent. -/
theorem weight_sent (b : Buf) (n : ℕ) : weight (bytes b 0 n) = if 23 ≤ n then 256 * (heldTtl b + 1) else 1 := by
  rw [weight, length_bytes]
  by_cases h : 23 ≤ n
  · rw [if_pos h, if_pos h]
    exact congrArg (fun x => 256 * (UInt8.toNat x + 1)) (ofBytes_bytes b (k := 22) (by omega))
  · rw [if_neg h, if_neg h]

/-- What is left of a frame that has been served. -/
theorem remains_lt (ipHdr : ℕ) (top : Topology ι) (r : ι) (payload : Buf) (frame : Bytes) :
    (serve ipHdr top r payload frame).remains heldTtl weight < heldTtl payload + weight frame := by
  have hread := heldTtl_read payload frame
  have hlen : (received frame).length = min MAX_LEN frame.length := List.length_take
  have hmax : MAX_LEN = 1600 := rfl
  have hbyte : ttlOf frame < 256 := UInt8.toNat_lt _
  have hserved := serve_cases ipHdr top r payload frame
  generalize serve ipHdr top r payload frame = v at hserved
  rw [weight]
  cases hserved with
  | dropped _ =>
    show heldTtl (overwrite payload (received frame)) + 0 < _
    split_ifs at hread ⊢ <;> omega
  | stopped _ =>
    show 0 < _
    split_ifs <;> omega
  | sent p hpass _ =>
    obtain ⟨i, mac⟩ := p
    obtain ⟨hless, -⟩ := toNat_ttl_readdressed hpass mac
    have hsent := weight_sent (readdressed ipHdr (overwrite payload (received frame)) mac) (received frame).length
    rw [← heldTtl, ← heldTtl] at hless
    have hpassed : (Service.remains heldTtl weight ⟨some (readdressed ipHdr (overwrite payload (received frame)) mac),
        some (top.link r i, bytes (readdressed ipHdr (overwrite payload (received frame)) mac) 0
          (received frame).length)⟩) ≤
          heldTtl (readdressed ipHdr (overwrite payload (received frame)) mac)
            + weight (bytes (readdressed ipHdr (overwrite payload (received frame)) mac) 0 (received frame).length) := by
      cases top.link r i with
      | none => exact Nat.le_add_right _ _
      | some next => exact le_of_eq (congrArg _ (Multiset.sum_singleton _))
    refine lt_of_le_of_lt hpassed ?_
    rw [hsent]
    split_ifs at hread ⊢ <;> omega

/-! ### Runs -/

variable [DecidableEq ι] {ipHdr : ℕ} {top : Topology ι} {s₀ s : Net ι Buf Bytes}
  {h : List (Step (Net ι Buf Bytes) (Event ι Bytes) Bytes)}

/-- **No frame is made up, doubled or spoiled.** -/
theorem frames_descend (hempty : s₀.flight = 0) (run : Run (Steps (step (serve ipHdr top))) s₀ h s)
    (hwhole : ∀ f ∈ injected h, Whole f) :
    ∃ kept ≤ injected h, Multiset.Rel (Descends ipHdr) kept (s.flight.map Prod.snd + (emitted h : Multiset Bytes)) :=
  lineage (fun _ _ _ hab hbc => hab.trans hbc)
    (fun _ _ _ _ hf o ho => (hop_of_served _ _ _ _ hf.still_whole o ho).descends hf.still_whole) hempty run
    fun f hf => Descends.refl ipHdr (hwhole f hf)

/-- **No frame goes round for ever**, whatever the tables, the links and the frames: the number of services is bounded
by what has been put in and by the TTLs the buffers held at the start. -/
theorem network_drains [Fintype ι] (hempty : s₀.flight = 0) (run : Run (Steps (step (serve ipHdr top))) s₀ h s) :
    served h ≤ ((injected h).map weight).sum + ∑ r, (s₀.mem r).elim 0 heldTtl := by
  have hle := served_add_potential_le heldTtl weight (P := fun _ => True) (fun _ _ _ _ _ _ => trivial)
    (fun r payload frame _ => remains_lt ipHdr top r payload frame) hempty run fun _ _ => trivial
  rw [potential, potential, hempty, Multiset.map_zero, Multiset.sum_zero] at hle
  omega

/-- **Complete frames are served as often as their TTL says**, at most. -/
theorem services_le_ttl [Fintype ι] (hempty : s₀.flight = 0) (run : Run (Steps (step (serve ipHdr top))) s₀ h s)
    (hwhole : ∀ f ∈ injected h, Whole f) : served h ≤ ((injected h).map fun f => max 1 (ttlOf f)).sum := by
  have hle := served_add_potential_le (fun _ => 0) (fun f => max 1 (ttlOf f)) (P := Whole)
    (fun r payload frame hf o ho => (hop_of_served _ _ r payload hf o ho).whole hf)
    (fun r payload frame hf => ?_) hempty run hwhole
  · have hzero : ∑ r, (s₀.mem r).elim 0 (fun _ => 0) = 0 := Finset.sum_eq_zero fun r _ => by cases s₀.mem r <;> rfl
    rw [potential, potential, hempty, Multiset.map_zero, Multiset.sum_zero] at hle
    omega
  · have hhop := hop_of_served ipHdr top r payload hf
    have hless : 0 < 0 + max 1 (ttlOf frame) := by omega
    have hserved := serve_cases ipHdr top r payload frame
    generalize serve ipHdr top r payload frame = v at hserved hhop
    cases hserved with
    | dropped _ => exact hless
    | stopped _ => exact hless
    | sent p _ _ =>
      have hout := hhop _ rfl
      have httl := hout.ttl
      have halive := hout.alive
      cases top.link r p.1 with
      | none => exact hless
      | some next =>
        show 0 + (Multiset.map _ {_}).sum < _
        rw [Multiset.map_singleton, Multiset.sum_singleton]
        dsimp only at httl halive ⊢
        omega

/-! ### A frame on its own -/

/-- The tables lead from the router out of the network in so many hops. -/
inductive Path (top : Topology ι) (dest : BitVec 32) : ι → ℕ → Prop
  | exit {r : ι} {p : ℤ × Mac} : target (top.tables r) dest = some p → top.link r p.1 = none → Path top dest r 1
  | hop {r next : ι} {p : ℤ × Mac} {n : ℕ} : target (top.tables r) dest = some p → top.link r p.1 = some next →
      Path top dest next n → Path top dest r (n + 1)

/-- All routers run, and one frame is on a link. -/
def lone (bufs : ι → Buf) (r : ι) (f : Bytes) : Net ι Buf Bytes := ⟨fun q => some (bufs q), {(r, f)}⟩

/-- Nothing but services happens, and `f` leaves the network. -/
def Leaves (ipHdr : ℕ) (top : Topology ι) (s : Net ι Buf Bytes) (f : Bytes) : Prop :=
  ∃ es, (∀ e ∈ es, e.isServe = true) ∧ ∃ q ∈ exec (step (serve ipHdr top)) s [] es, emitted q.1 = [f]

/-- What a router makes of a frame that is on its own. -/
def after (ipHdr : ℕ) (top : Topology ι) (bufs : ι → Buf) (r : ι) (f : Bytes) : Net ι Buf Bytes :=
  ⟨Function.update (fun q => some (bufs q)) r (serve ipHdr top r (bufs r) f).mem,
    (serve ipHdr top r (bufs r) f).passed⟩

theorem step_lone (ipHdr : ℕ) (top : Topology ι) (bufs : ι → Buf) (r : ι) (f : Bytes) :
    step (serve ipHdr top) (lone bufs r f) (.serve r f) =
      some (after ipHdr top bufs r f, (serve ipHdr top r (bufs r) f).left) := by
  have hmem : (r, f) ∈ (lone bufs r f).flight := Multiset.mem_singleton_self _
  rw [step, if_pos hmem]
  show some (_, _) = some (_, _)
  rw [after, lone, Multiset.erase_singleton, add_zero]

/-- A frame that is sent to a router is on its own again. -/
theorem after_sent {bufs : ι → Buf} {r next : ι} {f f' : Bytes} {b : Buf}
    (hserve : serve ipHdr top r (bufs r) f = ⟨some b, some (some next, f')⟩) :
    after ipHdr top bufs r f = lone (Function.update bufs r b) next f' := by
  rw [after, hserve, lone]
  congr 1
  funext q
  by_cases hq : q = r
  · subst hq
    rw [Function.update_self, Function.update_self]
  · rw [Function.update_of_ne hq, Function.update_of_ne hq]

/-- With one frame on the links there is one thing to serve. -/
theorem event_of_lone (top : Topology ι) (bufs : ι → Buf) {r : ι} {f : Bytes} {e : Event ι Bytes}
    (he : e.isServe = true) (hs : (step (serve ipHdr top) (lone bufs r f) e).isSome) : e = .serve r f := by
  cases e with
  | serve q g =>
    have hmem : (q, g) ∈ (lone bufs r f).flight := by
      by_contra hnot
      rw [step, if_neg hnot] at hs
      cases hs
    have heq := Multiset.mem_singleton.mp hmem
    rw [(Prod.mk.inj heq).1, (Prod.mk.inj heq).2]
  | inject _ _ => cases he
  | lose _ _ => cases he
  | stop _ => cases he

/-- Without a frame on the links nothing can be served. -/
theorem exec_empty {es : List (Event ι Bytes)} (hes : ∀ e ∈ es, e.isServe = true) (hempty : s.flight = 0)
    {h : List (Step (Net ι Buf Bytes) (Event ι Bytes) Bytes)} :
    ∀ r ∈ exec (step (serve ipHdr top)) s h es, r.1 = h := by
  intro r hr
  cases es with
  | nil =>
    obtain rfl := Option.some.inj hr
    rfl
  | cons e es =>
    cases e with
    | serve q g =>
      have hnone : step (serve ipHdr top) s (.serve q g) = none := by
        rw [step, hempty, if_neg (Multiset.notMem_zero _)]
      rw [exec, hnone] at hr
      cases hr
    | inject _ _ => cases hes _ List.mem_cons_self
    | lose _ _ => cases hes _ List.mem_cons_self
    | stop _ => cases hes _ List.mem_cons_self

/-- Where a path leads, the frame is served along it as long as its TTL lasts. -/
theorem run_of_path {r : ι} {n : ℕ} {dest : BitVec 32} (hpath : Path top dest r n) (bufs : ι → Buf) {f : Bytes}
    (hwhole : Whole f) (hsum : ZeroSum ipHdr (ofBytes f)) (hdest : daddr.get (ofBytes f) = dest) (hn : n < ttlOf f)
    (h : List (Step (Net ι Buf Bytes) (Event ι Bytes) Bytes)) :
    ∃ es, (∀ e ∈ es, e.isServe = true) ∧ ∃ q ∈ exec (step (serve ipHdr top)) (lone bufs r f) h es,
      ∃ f', emitted q.1 = emitted h ++ [f'] ∧ ttlOf f' + n = ttlOf f := by
  induction hpath generalizing bufs f h with
  | @exit r p htarget hlink =>
    rcases serve_summed top r (bufs r) hwhole hsum with ⟨-, hstuck⟩ | ⟨p', b, f', htarget', -, hserve, hhop⟩
    · rw [hdest, htarget] at hstuck
      rcases hstuck with hold | hnone
      · omega
      · cases hnone
    · rw [hdest, htarget, Option.some.injEq] at htarget'
      subst htarget'
      rw [hlink] at hserve
      refine ⟨[.serve r f], by simp [Event.isServe], _, by
        rw [exec, step_lone, hserve]
        rfl, f', rfl, ?_⟩
      exact hhop.ttl
  | @hop r next p n htarget hlink _ ih =>
    rcases serve_summed top r (bufs r) hwhole hsum with ⟨-, hstuck⟩ | ⟨p', b, f', htarget', -, hserve, hhop⟩
    · rw [hdest, htarget] at hstuck
      rcases hstuck with hold | hnone
      · omega
      · cases hnone
    · rw [hdest, htarget, Option.some.injEq] at htarget'
      subst htarget'
      rw [hlink] at hserve
      have hnext := after_sent hserve
      have httl := hhop.ttl
      obtain ⟨es, hes, q, hq, f'', hout, hleft⟩ := ih (Function.update bufs r b) (hhop.whole hwhole) hhop.summed.2
        ((hhop.daddr_eq hwhole).trans hdest) (by omega) (⟨lone bufs r f, .serve r f, []⟩ :: h)
      refine ⟨.serve r f :: es, List.forall_mem_cons.mpr ⟨rfl, hes⟩, q, ?_, f'', ?_, by omega⟩
      · rw [exec, step_lone, hnext, hserve]
        exact hq
      · rw [hout, emitted, List.append_nil]

/-- What leaves has come along a path. -/
theorem path_of_run {es : List (Event ι Bytes)} (hes : ∀ e ∈ es, e.isServe = true) {bufs : ι → Buf} {r : ι}
    {f f' : Bytes} (hwhole : Whole f) (hsum : ZeroSum ipHdr (ofBytes f))
    {h : List (Step (Net ι Buf Bytes) (Event ι Bytes) Bytes)} :
    ∀ q ∈ exec (step (serve ipHdr top)) (lone bufs r f) h es, emitted q.1 = emitted h ++ [f'] →
      ∃ n, Path top (daddr.get (ofBytes f)) r n ∧ ttlOf f' + n = ttlOf f ∧ 0 < ttlOf f' := by
  induction es generalizing bufs r f h with
  | nil =>
    intro q hq hout
    obtain rfl := Option.some.inj hq
    exact absurd hout (by simp)
  | cons e es ih =>
    intro q hq hout
    rw [List.forall_mem_cons] at hes
    have hone : e = .serve r f := event_of_lone top bufs hes.1 (by
      by_contra hnone
      rw [Option.not_isSome_iff_eq_none] at hnone
      rw [exec, hnone] at hq
      cases hq)
    subst hone
    rw [exec, step_lone] at hq
    rcases serve_summed top r (bufs r) hwhole hsum with ⟨hstuck, -⟩ | ⟨p, b, g, htarget, -, hserve, hhop⟩
    · -- the frame is gone, and nothing has left
      have hflight : (after ipHdr top bufs r f).flight = 0 := by
        rw [after, Service.passed, hstuck]
      have hleft : (serve ipHdr top r (bufs r) f).left = [] := by rw [Service.left, hstuck]
      have hdone := exec_empty hes.2 hflight q hq
      rw [hdone, emitted, hleft, List.append_nil] at hout
      exact absurd hout (by simp)
    · cases hlink : top.link r p.1 with
      | none =>
        rw [hlink] at hserve
        have hflight : (after ipHdr top bufs r f).flight = 0 := by rw [after, Service.passed, hserve]
        have hdone := exec_empty hes.2 hflight q hq
        rw [hdone, emitted, hserve] at hout
        have hsame : [g] = [f'] := List.append_cancel_left hout
        obtain rfl := List.singleton_inj.mp hsame
        exact ⟨1, .exit htarget hlink, hhop.ttl, hhop.alive⟩
      | some next =>
        rw [hlink] at hserve
        rw [after_sent hserve, hserve] at hq
        obtain ⟨n, hpath, httl, halive⟩ := ih hes.2 (hhop.whole hwhole) hhop.summed.2 q hq (by
          rw [hout, emitted]
          show _ = (emitted h ++ []) ++ [f']
          rw [List.append_nil])
        rw [hhop.daddr_eq hwhole] at hpath
        have hless := hhop.ttl
        exact ⟨n + 1, .hop htarget hlink hpath, by omega, halive⟩

/-- **When a frame gets through**: served again and again, a frame with the right checksum leaves with a TTL that is
`n` less exactly when the tables lead out of the network in `n` hops and the TTL is larger than that. -/
theorem leaves_iff {f : Bytes} (hwhole : Whole f) (hsum : ZeroSum ipHdr (ofBytes f)) (top : Topology ι)
    (bufs : ι → Buf) (r : ι) (n : ℕ) : (∃ f', Leaves ipHdr top (lone bufs r f) f' ∧ ttlOf f' + n = ttlOf f) ↔
      Path top (daddr.get (ofBytes f)) r n ∧ n < ttlOf f := by
  constructor
  · rintro ⟨f', ⟨es, hes, q, hq, hout⟩, httl⟩
    obtain ⟨n', hpath, httl', halive⟩ := path_of_run hes hwhole hsum q hq hout
    obtain rfl : n' = n := by omega
    exact ⟨hpath, by omega⟩
  · rintro ⟨hpath, hn⟩
    obtain ⟨es, hes, q, hq, f', hout, httl⟩ := run_of_path hpath bufs hwhole hsum rfl hn []
    exact ⟨f', ⟨es, hes, q, hq, hout⟩, httl⟩

/-! ### A network of two routers -/

/-- The first router hands over to the second one, which has a host behind it. -/
def chain : Topology Bool := ⟨fun _ => sampleTables, fun r _ => if r then none else some true⟩

/-- The two routers hand over to each other. -/
def loop : Topology Bool := ⟨fun _ => sampleTables, fun r _ => some !r⟩

/-- Nothing is on the links. -/
def idle : Net Bool Buf Bytes := ⟨fun _ => some (ofBytes []), 0⟩

/-- The sample frame gets through the chain in two hops. -/
theorem known_leaves : ∃ f', Leaves 18 chain (lone (fun _ => ofBytes []) false known) f' ∧
    ttlOf f' + 2 = ttlOf known :=
  (leaves_iff (by decide) (by decide +kernel) chain _ false 2).mpr
    ⟨.hop (p := (1, Vector.replicate 6 0x51)) (by decide +kernel) rfl
      (.exit (p := (1, Vector.replicate 6 0x51)) (by decide +kernel) rfl), by decide +kernel⟩

/-- What happens when the first router has served the sample frame. -/
def handedOver (top : Topology Bool) : List (Event Bool Bytes) :=
  [.inject false known, .serve false known] ++
    ((serve 18 top false (ofBytes []) known).out.toList.map fun o => .serve true o.2)

/-- A run through the chain. -/
theorem chain_run : ∃ h s, Run (Steps (step (serve 18 chain))) idle h s ∧ (emitted h).length = 1 ∧
    ∃ kept ≤ injected h, Multiset.Rel (Descends 18) kept (s.flight.map Prod.snd + (emitted h : Multiset Bytes)) := by
  obtain ⟨h, s, run, hcheck⟩ := Run.of_check (step (serve 18 chain)) idle (handedOver chain)
    (fun h _ => decide ((emitted h).length = 1 ∧ ∀ f ∈ injected h, Whole f)) (by decide +kernel)
  obtain ⟨hout, hwhole⟩ := of_decide_eq_true hcheck
  exact ⟨h, s, run, hout, frames_descend rfl run hwhole⟩

/-- A run in the loop. -/
theorem loop_run : ∃ h s, Run (Steps (step (serve 18 loop))) idle h s ∧ served h = 2 ∧
    served h ≤ ((injected h).map weight).sum + ∑ r, (idle.mem r).elim 0 heldTtl := by
  obtain ⟨h, s, run, hcheck⟩ := Run.of_check (step (serve 18 loop)) idle (handedOver loop)
    (fun h _ => decide (served h = 2)) (by decide +kernel)
  exact ⟨h, s, run, of_decide_eq_true hcheck, network_drains rfl run⟩

theorem loop_run_whole : ∃ h s, Run (Steps (step (serve 18 loop))) idle h s ∧ served h = 2 ∧
    served h ≤ ((injected h).map fun f => max 1 (ttlOf f)).sum := by
  obtain ⟨h, s, run, hcheck⟩ := Run.of_check (step (serve 18 loop)) idle (handedOver loop)
    (fun h _ => decide (served h = 2 ∧ ∀ f ∈ injected h, Whole f)) (by decide +kernel)
  obtain ⟨hserved, hwhole⟩ := of_decide_eq_true hcheck
  exact ⟨h, s, run, hserved, services_le_ttl rfl run hwhole⟩

end Pcom.Lab04.Network
