import Pcom.Tema1.Relay

/-!
# Packets across two routers

Two routers share a link, as in the bench of the repository, and packets for one destination cross both.  The second
is the first's next hop: it answers the first's requests and takes the packets that the first then sends, over the
same link.  A link keeps the order of the frames on it and may lose some.

* `conveyed_of_run` — **every run**, whatever the order in which the routers and the link move: no packet is made up,
  doubled, overtaken or spoiled; without losses each is delivered or waits, and none waits at the first router once
  the link is empty;
* `two_packets_across` — a run that delivers two packets.
-/

namespace Pcom.Tema1.Across

open Function Pcom.Lib.Memory Pcom.Lib.Scan Pcom.Lib.Stages Pcom.Lib.StepSystem Pcom.Tema1.Branches Pcom.Tema1.Relay
open Pcom.Tema1.Responder Pcom.Tema1.Route Pcom.Tema1.Router Pcom.Tema1.Skel Pcom.Tema1.Ttl

/-! ### The system -/

/-- Two routers on the way to one destination; the second is the first's next hop, with its interface `far`. -/
structure Path where
  first : Hop
  second : Hop
  far : ℤ
  dest : second.dest = first.dest
  next : first.next = ⟨second.cfg.interfaceIp far, second.cfg.interfaceMac far⟩
  own : second.cfg.interfaceIp far ≠ second.dest
  onward : second.route.interface ≠ far

/-- The first router's interface to the link. -/
def Path.near (path : Path) : ℤ := path.first.route.interface

/-- The two routers, and the frames on the link, the oldest first. -/
structure System where
  first : State
  second : State
  forth : List Bytes
  back : List Bytes

/-- A frame comes to the first router or to the second one from elsewhere; a router takes a frame from the link; the
link loses one. -/
inductive Act
  | arrive (i : Input)
  | hear (i : Input)
  | forth (stack : Option Packet)
  | back (stack : Option Packet)
  | loseForth
  | loseBack

/-- The frames sent on an interface. -/
def onto (interface : ℤ) (out : List Sent) : List Bytes :=
  (out.filter fun o => o.interface = interface).map fun o => o.packet.frame

/-- What is sent on the other interfaces. -/
def off (interface : ℤ) (out : List Sent) : List Sent := out.filter fun o => o.interface ≠ interface

def toFirst (path : Path) (s : System) (i : Input) : Option (System × List Sent) :=
  (Router.step path.first.cfg s.first i).map fun (r, out) =>
    ({ s with first := r, forth := s.forth ++ onto path.near out }, off path.near out)

def toSecond (path : Path) (s : System) (i : Input) : Option (System × List Sent) :=
  (Router.step path.second.cfg s.second i).map fun (r, out) =>
    ({ s with second := r, back := s.back ++ onto path.far out }, off path.far out)

/-- A step; what is emitted is what leaves the two routers elsewhere than on the link. -/
def step (path : Path) (s : System) : Act → Option (System × List Sent)
  | .arrive i => toFirst path s i
  | .hear i => toSecond path s i
  | .forth stack =>
    match s.forth with
    | [] => none
    | g :: gs => toSecond path { s with forth := gs } ⟨path.far, g, stack⟩
  | .back stack =>
    match s.back with
    | [] => none
    | g :: gs => toFirst path { s with back := gs } ⟨path.near, g, stack⟩
  | .loseForth =>
    match s.forth with
    | [] => none
    | _ :: gs => some ({ s with forth := gs }, [])
  | .loseBack =>
    match s.back with
    | [] => none
    | _ :: gs => some ({ s with back := gs }, [])

def start (m m' : Packet) (mem mem' : Ref → Packet) : System := ⟨init m mem, init m' mem', [], []⟩

/-! ### What comes from elsewhere -/

/-- The first router gets packets for the destination and requests, the second one replies of its next hop and
requests. -/
def Admissible (path : Path) : Act → Prop
  | .arrive i => Bound path.first i ∧ 2 < ttl.get (ofBytes (received i)) ∨ ArpRequest i ∧ i.interface ≠ path.near
  | .hear i => (Reply path.second i ∨ ArpRequest i) ∧ i.interface ≠ path.far
  | _ => True

instance (path : Path) : (a : Act) → Decidable (Admissible path a)
  | .arrive _ => inferInstanceAs (Decidable (_ ∧ _ ∨ _ ∧ _))
  | .hear _ => inferInstanceAs (Decidable ((_ ∨ _) ∧ _))
  | .forth _ => .isTrue trivial
  | .back _ => .isTrue trivial
  | .loseForth => .isTrue trivial
  | .loseBack => .isTrue trivial

/-- The packets that come. -/
def Act.brings : Act → List Bytes
  | .arrive i => packets [received i]
  | _ => []

def Act.keeps : Act → Bool
  | .loseForth => false
  | .loseBack => false
  | _ => true

/-- The packets that have come to the first router. -/
def arrived : List (Step System Act Sent) → List Bytes
  | [] => []
  | st :: h => arrived h ++ st.input.brings

/-- Nothing has been lost. -/
def Lossless (h : List (Step System Act Sent)) : Prop := ∀ st ∈ h, st.input.keeps = true

instance (h : List (Step System Act Sent)) : Decidable (Lossless h) := inferInstanceAs (Decidable (∀ _ ∈ _, _))

/-- The packet after both routers. -/
structure Through (mac : Mac) (f g : Bytes) : Prop where
  len : g.length = f.length
  dhost : etherDhost.get (ofBytes g) = mac
  ttl : (ttl.get (ofBytes g)).toNat + 2 = (ttl.get (ofBytes f)).toNat
  summed : HeaderSummed (ofBytes g)
  rest : ∀ k < f.length, 12 ≤ k → ¬ Skel.ttl.Covers k → ¬ check.Covers k → ofBytes g k = ofBytes f k

/-- The packets that wait, as they came: for the second router's next hop, after the first router, on the link, and
for the first router's next hop. -/
structure Waiting (path : Path) (s : System) (there onLink here : List Bytes) : Prop where
  there : List.Forall₂ (fun f r => ∃ g, Relayed path.first.mac f g ∧ Holds g (s.second.mem r)) there s.second.q
  onLink : List.Forall₂ (Relayed path.first.mac) onLink (packets s.forth)
  here : List.Forall₂ (fun f r => Holds f (s.first.mem r)) here s.first.q

/-- **What holds at the end of a run.** -/
structure Conveyed (path : Path) (h : List (Step System Act Sent)) (s : System) : Prop where
  ordered : ∃ kept, kept.Sublist (arrived h) ∧
    List.Forall₂ (Through path.second.mac) kept (forwarded (emitted h))
  whole : Lossless h → ∃ gone there onLink here, arrived h = gone ++ (there ++ (onLink ++ here)) ∧
    List.Forall₂ (Through path.second.mac) gone (forwarded (emitted h)) ∧ Waiting path s there onLink here
  lively : Lossless h → s.forth = [] → s.back = [] → s.first.q = []
  settled : Lossless h → s.forth = [] → s.back = [] → s.second.q = [] →
    List.Forall₂ (Through path.second.mac) (arrived h) (forwarded (emitted h))
  goesForth : s.forth ≠ [] → ∀ stack, (step path s (.forth stack)).isSome
  goesBack : s.back ≠ [] → ∀ stack,
    ((step path s (.back stack)).isSome ↔ s.first.arpTable.length < ARP_TABLE_SIZE)

/-! ### The frames on the link -/

/-- The first router's request, and the second one's reply to it. -/
def Path.request (path : Path) : Bytes := path.first.request.packet.frame

def Path.reply (path : Path) : Bytes :=
  (answer path.second.cfg ⟨path.far, path.request, none⟩).packet.frame

theorem get_sendArp {ip ip' : BitVec 32} {b : Buf} {interface : ℤ} {arpOp : BitVec 16} {α : Type} {x : ByteField α}
    (hx : x.off + x.size ≤ 42) : x.get (ofBytes (sendArp ip ip' b interface arpOp).packet.frame) =
      x.get (sendArp ip ip' b interface arpOp).packet.payload :=
  get_frame (hx.trans_eq (len_sendArp ..).symm)

theorem length_sendArp (ip ip' : BitVec 32) (b : Buf) (interface : ℤ) (arpOp : BitVec 16) :
    (sendArp ip ip' b interface arpOp).packet.frame.length = 42 := by
  rw [Packet.frame, length_bytes, len_sendArp]

theorem etherType_request (hop : Hop) : etherType.get (ofBytes hop.request.packet.frame) = htons ETHERTYPE_ARP := by
  rw [Hop.request, get_sendArp (by decide), ether_sendArp _ _ _ _ _ (by decide), requestHeader, ByteField.get_set]
  rfl

theorem etherType_answer (cfg : Config) (i : Input) :
    etherType.get (ofBytes (answer cfg i).packet.frame) = htons ETHERTYPE_ARP := by
  rw [answer, get_sendArp (by decide), ether_sendArp _ _ _ _ _ (by decide), etherType_answerHeader]

theorem op_request (hop : Hop) : op.get (ofBytes hop.request.packet.frame) = htons ARPOP_REQUEST := by
  rw [Hop.request, get_sendArp (by decide), op_sendArp]

theorem op_answer (cfg : Config) (i : Input) :
    op.get (ofBytes (answer cfg i).packet.frame) = htons ARPOP_REPLY := by
  rw [answer, get_sendArp (by decide), op_sendArp]

theorem spa_answer (cfg : Config) (i : Input) :
    spa.get (ofBytes (answer cfg i).packet.frame) = cfg.interfaceIp i.interface := by
  rw [answer, get_sendArp (by decide), spa_sendArp]

theorem sha_answer (cfg : Config) (i : Input) :
    sha.get (ofBytes (answer cfg i).packet.frame) = cfg.interfaceMac i.interface := by
  rw [answer, get_sendArp (by decide), sha_sendArp, etherShost_answerHeader]

theorem arpRequest_request (path : Path) (stack : Option Packet) :
    ArpRequest ⟨path.far, path.request, stack⟩ := by
  constructor
  · dsimp only
    rw [Path.request, Hop.request, length_sendArp]
  · dsimp only
    exact etherType_request path.first
  · dsimp only
    exact op_request path.first

/-- **The answer to the request is the reply that the first router waits for.** -/
theorem reply_reply (path : Path) (stack : Option Packet) :
    Relay.Reply path.first ⟨path.near, path.reply, stack⟩ := by
  constructor
  · dsimp only
    rw [Path.reply, answer, length_sendArp]
  · dsimp only
    rw [Path.reply, etherType_answer]
  · dsimp only
    rw [Path.reply, op_answer]
    decide
  · dsimp only
    rw [Path.reply, spa_answer, sha_answer, path.next]

theorem not_isIp_of_arp {f : Bytes} (h : etherType.get (ofBytes f) = htons ETHERTYPE_ARP) : ¬ IsIp f := by
  intro hip
  exact absurd (h.symm.trans hip) (by decide)

/-! ### What the routers put on the link -/

variable {path : Path} {hop : Hop} {i : Input} {out : List Sent} {s s' : System} {came passed taken went : List Bytes}

theorem mem_onto {interface : ℤ} {g : Bytes} :
    g ∈ onto interface out ↔ ∃ o ∈ out, o.interface = interface ∧ o.packet.frame = g := by
  simp only [onto, List.mem_map, List.mem_filter, decide_eq_true_eq, and_assoc]

theorem packets_append (fs gs : List Bytes) : packets (fs ++ gs) = packets fs ++ packets gs :=
  List.filter_append ..

/-- The packets among the frames sent on the interface of the route are those forwarded. -/
theorem packets_onto (h : ∀ o ∈ out, Said hop i o) : packets (onto hop.route.interface out) = forwarded out := by
  induction out with
  | nil => rfl
  | cons o out ih =>
    obtain ⟨ho, hrest⟩ := List.forall_mem_cons.mp h
    have hmore := ih hrest
    cases ho with
    | relayed horigin hinterface hip =>
      rw [forwarded, List.filter_cons_of_pos (by simpa using horigin), List.map_cons, onto,
        List.filter_cons_of_pos (by simpa using hinterface), List.map_cons, packets,
        List.filter_cons_of_pos (by simpa using hip)]
      exact congrArg _ hmore
    | asked =>
      have hnot := not_isIp_of_arp (etherType_request hop)
      have hinterface : hop.request.interface = hop.route.interface := rfl
      rw [onto, List.filter_cons_of_pos (by simpa using hinterface), List.map_cons, packets,
        List.filter_cons_of_neg (by simpa using hnot)]
      exact hmore
    | answered harp =>
      have hnot := not_isIp_of_arp (etherType_answer hop.cfg i)
      by_cases hinterface : (answer hop.cfg i).interface = hop.route.interface
      · rw [onto, List.filter_cons_of_pos (by simpa using hinterface), List.map_cons, packets,
          List.filter_cons_of_neg (by simpa using hnot)]
        exact hmore
      · rw [onto, List.filter_cons_of_neg (by simpa using hinterface)]
        exact hmore

/-- All that is forwarded goes out on the interface of the route. -/
theorem interface_of_forward {o : Sent} (ho : Said hop i o) (hforward : o.origin = .forward) :
    o.interface = hop.route.interface := by
  cases ho with
  | relayed _ hinterface _ => exact hinterface
  | asked => cases hforward
  | answered _ => cases hforward

theorem forwarded_off_self (h : ∀ o ∈ out, Said hop i o) : forwarded (off hop.route.interface out) = [] := by
  have hnone : (off hop.route.interface out).filter (fun o => o.origin = .forward) = [] := by
    refine List.filter_eq_nil_iff.mpr fun o ho hforward => ?_
    obtain ⟨hmem, hoff⟩ := List.mem_filter.mp ho
    exact of_decide_eq_true hoff (interface_of_forward (h o hmem) (of_decide_eq_true hforward))
  rw [forwarded, hnone]
  rfl

theorem forwarded_off {interface : ℤ} (h : ∀ o ∈ out, Said hop i o) (hne : hop.route.interface ≠ interface) :
    forwarded (off interface out) = forwarded out := by
  rw [forwarded, off, List.filter_filter, forwarded]
  refine congrArg _ (List.filter_congr fun o ho => ?_)
  by_cases hforward : o.origin = .forward
  · have hinterface := interface_of_forward (h o ho) hforward
    simp [hforward, hinterface, hne]
  · simp [hforward]

/-- The first router puts its requests and the packets it forwards on the link. -/
theorem toFirst_spec (hcarries : Carries path.first came passed s.first) (hi : Expected path.first i)
    (hforeign : ArpRequest i → i.interface ≠ path.near) (h : toFirst path s i = some (s', out)) : ∃ r sent,
      s' = { s with first := r, forth := s.forth ++ sent } ∧ forwarded out = [] ∧
      Carries path.first (came ++ packets [received i]) (passed ++ packets sent) r ∧
      (∀ g ∈ sent, g = path.request ∨ g ∈ packets sent) ∧
      (r.q ≠ [] → path.request ∈ sent ∨ s.first.q ≠ [] ∧ ArpRequest i) := by
  obtain ⟨⟨r, said⟩, hstep, heq⟩ := Option.map_eq_some_iff.mp h
  obtain ⟨rfl, rfl⟩ := Prod.mk.inj heq
  have hturn := hcarries.step hi hstep
  have hpackets : packets (onto path.near said) = forwarded said := packets_onto hturn.said
  refine ⟨r, onto path.near said, rfl, forwarded_off_self hturn.said, hpackets ▸ hturn.carries, fun g hg => ?_,
    fun hne => (hturn.asks hne).imp_left fun hasked => mem_onto.mpr ⟨_, hasked, rfl, rfl⟩⟩
  obtain ⟨o, ho, hinterface, rfl⟩ := mem_onto.mp hg
  cases hturn.said o ho with
  | relayed _ _ hip => exact Or.inr (List.mem_filter.mpr ⟨hg, decide_eq_true hip⟩)
  | asked => exact Or.inl rfl
  | answered harp => exact absurd hinterface (hforeign harp)

/-- The second router puts nothing but its replies on the link. -/
theorem toSecond_spec (hcarries : Carries path.second taken went s.second) (hi : Expected path.second i)
    (hown : ArpRequest i → i.interface = path.far → i.frame = path.request)
    (h : toSecond path s i = some (s', out)) : ∃ r sent,
      s' = { s with second := r, back := s.back ++ sent } ∧
      Carries path.second (taken ++ packets [received i]) (went ++ forwarded out) r ∧
      (∀ g ∈ sent, g = path.reply) ∧ (ArpRequest i → i.interface = path.far → sent = [path.reply]) := by
  obtain ⟨⟨r, said⟩, hstep, heq⟩ := Option.map_eq_some_iff.mp h
  obtain ⟨rfl, rfl⟩ := Prod.mk.inj heq
  have hturn := hcarries.step hi hstep
  have hanswer : ArpRequest i → i.interface = path.far → (answer path.second.cfg i).packet.frame = path.reply := by
    intro harp hfar
    rw [Path.reply, answer, answer, hown harp hfar, hfar]
  refine ⟨r, onto path.far said, rfl, ?_, fun g hg => ?_, fun harp hfar => ?_⟩
  · rw [forwarded_off hturn.said path.onward]
    exact hturn.carries
  · obtain ⟨o, ho, hinterface, rfl⟩ := mem_onto.mp hg
    cases hturn.said o ho with
    | relayed _ hroute _ => exact absurd (hroute.symm.trans hinterface) path.onward
    | asked => exact absurd hinterface path.onward
    | answered harp => exact hanswer harp hinterface
  · rw [step_request path.second.cfg harp] at hstep
    obtain ⟨-, rfl⟩ := Prod.mk.inj (Option.some.inj hstep)
    have hinterface : (answer path.second.cfg i).interface = path.far := hfar
    rw [onto, List.filter_cons_of_pos (by simpa using hinterface), List.map_cons, hanswer harp hfar]
    rfl

/-! ### The link -/

/-- The packets taken from the link and those on it are packets that have passed the first router, in order, and all
of them if none was lost; what else is on it are requests. -/
structure Wire (path : Path) (lossless : Prop) (passed taken forth : List Bytes) : Prop where
  link : (taken ++ packets forth).Sublist passed
  known : ∀ g ∈ forth, g = path.request ∨ g ∈ passed
  whole : lossless → taken ++ packets forth = passed

variable {lossless lossless' : Prop} {line : List Bytes}

theorem Wire.send (h : Wire path lossless passed taken line) {sent : List Bytes}
    (hsent : ∀ g ∈ sent, g = path.request ∨ g ∈ packets sent) :
    Wire path lossless (passed ++ packets sent) taken (line ++ sent) := by
  refine ⟨?_, fun g hg => ?_, fun hkept => ?_⟩
  · rw [packets_append, ← List.append_assoc]
    exact h.link.append (List.Sublist.refl _)
  · rcases List.mem_append.mp hg with hg | hg
    · exact (h.known g hg).imp_right (List.mem_append_left _)
    · exact (hsent g hg).imp_right (List.mem_append_right _)
  · rw [packets_append, ← List.append_assoc, h.whole hkept]

/-- The oldest frame is taken from the link. -/
theorem Wire.take {g : Bytes} (h : Wire path lossless passed taken (g :: line)) :
    Wire path lossless passed (taken ++ packets [g]) line := by
  have hcons : taken ++ packets [g] ++ packets line = taken ++ packets (g :: line) := by
    rw [List.append_assoc, ← packets_append, List.singleton_append]
  exact ⟨hcons ▸ h.link, fun g hg => h.known g (List.mem_cons_of_mem _ hg), fun hkept => hcons ▸ h.whole hkept⟩

/-- The oldest frame is lost. -/
theorem Wire.lose {g : Bytes} (h : Wire path lossless passed taken (g :: line)) (hlost : ¬ lossless') :
    Wire path lossless' passed taken line := by
  refine ⟨?_, fun g hg => h.known g (List.mem_cons_of_mem _ hg), fun hkept => absurd hkept hlost⟩
  exact (List.Sublist.append (List.Sublist.refl _) ((List.sublist_cons_self g line).filter _)).trans h.link

theorem Wire.mono (h : Wire path lossless passed taken line) (himp : lossless' → lossless) :
    Wire path lossless' passed taken line :=
  ⟨h.link, h.known, fun hkept => h.whole (himp hkept)⟩

/-! ### The invariant -/

/-- The two routers as stages, with the link between them. -/
structure Flow (path : Path) (lossless : Prop) (came went : List Bytes) (s : System) (passed taken : List Bytes) :
    Prop where
  first : Carries path.first came passed s.first
  wire : Wire path lossless passed taken s.forth
  second : Carries path.second taken went s.second
  back : ∀ g ∈ s.back, g = path.reply
  sound : ∀ f ∈ came, Passes path.first f ∧ f.length ≤ MAX_LEN ∧ 2 < ttl.get (ofBytes f)
  asked : lossless → s.first.q ≠ [] → path.request ∈ s.forth ∨ s.back ≠ []

/-- A packet that has passed the first router is one that the second has to pass on, and fits its buffer. -/
theorem Flow.passes (h : Flow path lossless came went s passed taken) {g : Bytes} (hg : g ∈ passed) :
    Passes path.second g ∧ g.length ≤ MAX_LEN := by
  obtain ⟨waiting, -, hstage⟩ := h.first
  obtain ⟨f, hf, hrelayed⟩ := hstage.exists_of_mem hg
  obtain ⟨hpasses, hlength, httl⟩ := h.sound f hf
  exact ⟨hrelayed.passes hpasses httl path.dest, hrelayed.len.trans_le hlength⟩

/-- A frame on the link is received as it is. -/
theorem Flow.received_eq (h : Flow path lossless came went s passed taken) {g : Bytes} (hg : g ∈ s.forth)
    (stack : Option Packet) : received ⟨path.far, g, stack⟩ = g := by
  have hlength : path.request.length ≤ MAX_LEN := by
    rw [Path.request, Hop.request, length_sendArp]
    decide
  refine List.take_of_length_le ?_
  rcases h.wire.known g hg with rfl | hpassed
  · exact hlength
  · exact (h.passes hpassed).2

/-- Whatever is on the link, the second router expects it. -/
theorem Flow.expected (h : Flow path lossless came went s passed taken) {g : Bytes} (hg : g ∈ s.forth)
    (stack : Option Packet) : Expected path.second ⟨path.far, g, stack⟩ := by
  rcases h.wire.known g hg with rfl | hpassed
  · exact .request (arpRequest_request path stack)
  · exact .bound ⟨(h.received_eq hg stack).symm ▸ (h.passes hpassed).1, path.own⟩

theorem Flow.arrive (h : Flow path lossless came went s passed taken) (hadm : Admissible path (.arrive i))
    (hstep : toFirst path s i = some (s', out)) : ∃ passed',
      Flow path lossless (came ++ packets [received i]) (went ++ forwarded out) s' passed' taken := by
  have hi : Expected path.first i := hadm.elim (fun hc => .bound hc.1) fun hc => .request hc.1
  have hforeign : ArpRequest i → i.interface ≠ path.near := by
    intro harp
    rcases hadm with ⟨hbound, -⟩ | ⟨-, hne⟩
    · have hip := hbound.passes.type
      rw [IsIp, etherType_received, harp.type] at hip
      exact absurd hip (by decide)
    · exact hne
  obtain ⟨r, sent, rfl, hout, hcarries, hsent, hasks⟩ := toFirst_spec h.first hi hforeign hstep
  refine ⟨passed ++ packets sent, hcarries, h.wire.send hsent, ?_, h.back, fun f hf => ?_, fun hkept hne => ?_⟩
  · rw [hout, List.append_nil]
    exact h.second
  · rcases List.mem_append.mp hf with hf | hf
    · exact h.sound f hf
    · obtain ⟨hmem, hip⟩ := List.mem_filter.mp hf
      obtain rfl := List.mem_singleton.mp hmem
      rcases hadm with ⟨hbound, httl⟩ | ⟨harp, -⟩
      · exact ⟨hbound.passes, List.length_take_le _ _, httl⟩
      · rw [packets_of_arp harp.type] at hf
        exact absurd hf List.not_mem_nil
  · rcases hasks hne with hreq | ⟨hold, -⟩
    · exact Or.inl (List.mem_append_right _ hreq)
    · exact (h.asked hkept hold).imp_left (List.mem_append_left _)

theorem Flow.hear (h : Flow path lossless came went s passed taken) (hadm : Admissible path (.hear i))
    (hstep : toSecond path s i = some (s', out)) :
    Flow path lossless came (went ++ forwarded out) s' passed taken := by
  have hi : Expected path.second i := hadm.1.elim .reply .request
  have harp : etherType.get (ofBytes i.frame) = htons ETHERTYPE_ARP := hadm.1.elim (·.type) (·.type)
  obtain ⟨r, sent, rfl, hcarries, hsent, -⟩ :=
    toSecond_spec h.second hi (fun _ hfar => absurd hfar hadm.2) hstep
  rw [packets_of_arp harp, List.append_nil] at hcarries
  refine ⟨h.first, h.wire, hcarries, fun g hg => ?_, h.sound, fun hkept hne => ?_⟩
  · exact (List.mem_append.mp hg).elim (h.back g) (hsent g)
  · exact (h.asked hkept hne).imp_right fun hback hnil => hback (List.append_eq_nil_iff.mp hnil).1

/-- The second router takes a frame from the link. -/
theorem Flow.pass {g : Bytes} {gs : List Bytes} {stack : Option Packet}
    (h : Flow path lossless came went s passed taken) (hforth : s.forth = g :: gs)
    (hstep : toSecond path { s with forth := gs } ⟨path.far, g, stack⟩ = some (s', out)) : ∃ taken',
      Flow path lossless came (went ++ forwarded out) s' passed taken' := by
  have hg : g ∈ s.forth := hforth ▸ List.mem_cons_self
  have hwire := h.wire
  rw [hforth] at hwire
  have hrequest : ArpRequest ⟨path.far, g, stack⟩ → g = path.request := by
    intro harp
    rcases h.wire.known g hg with hreq | hpassed
    · exact hreq
    · exact absurd (h.passes hpassed).1.type (not_isIp_of_arp harp.type)
  obtain ⟨r, sent, rfl, hcarries, hsent, hreply⟩ :=
    toSecond_spec (s := { s with forth := gs }) h.second (h.expected hg stack) (fun harp _ => hrequest harp) hstep
  rw [h.received_eq hg stack] at hcarries
  refine ⟨taken ++ packets [g], h.first, hwire.take, hcarries, fun f hf => ?_, h.sound, fun hkept hne => ?_⟩
  · exact (List.mem_append.mp hf).elim (h.back f) (hsent f)
  · rcases h.asked hkept hne with hreq | hback
    · rw [hforth] at hreq
      rcases List.mem_cons.mp hreq with rfl | hreq
      · refine Or.inr fun hnil => ?_
        rw [hreply (arpRequest_request path stack) rfl] at hnil
        exact absurd (List.append_eq_nil_iff.mp hnil).2 (List.cons_ne_nil _ _)
      · exact Or.inl hreq
    · exact Or.inr fun hnil => hback (List.append_eq_nil_iff.mp hnil).1

/-- The first router takes a reply from the link. -/
theorem Flow.replied {g : Bytes} {gs : List Bytes} {stack : Option Packet}
    (h : Flow path lossless came went s passed taken) (hback : s.back = g :: gs)
    (hstep : toFirst path { s with back := gs } ⟨path.near, g, stack⟩ = some (s', out)) : ∃ passed',
      Flow path lossless came (went ++ forwarded out) s' passed' taken := by
  obtain rfl : g = path.reply := h.back g (hback ▸ List.mem_cons_self)
  have hreply := reply_reply path stack
  have hnot : ¬ ArpRequest ⟨path.near, path.reply, stack⟩ := fun harp => hreply.op harp.op
  obtain ⟨r, sent, rfl, hout, hcarries, hsent, hasks⟩ :=
    toFirst_spec (s := { s with back := gs }) h.first (.reply hreply) (fun harp => absurd harp hnot) hstep
  rw [packets_of_arp hreply.type, List.append_nil] at hcarries
  refine ⟨passed ++ packets sent, hcarries, h.wire.send hsent, ?_, fun f hf => ?_, h.sound, fun _ hne => ?_⟩
  · rw [hout, List.append_nil]
    exact h.second
  · exact h.back f (hback ▸ List.mem_cons_of_mem _ hf)
  · rcases hasks hne with hreq | ⟨-, harp⟩
    · exact Or.inl (List.mem_append_right _ hreq)
    · exact absurd harp hnot

/-- **Every step keeps the flow.** -/
theorem Flow.step {a : Act} (h : Flow path lossless came went s passed taken) (hadm : Admissible path a)
    (hkeeps : lossless' → lossless ∧ a.keeps = true) (hstep : step path s a = some (s', out)) :
    ∃ passed' taken', Flow path lossless' (came ++ a.brings) (went ++ forwarded out) s' passed' taken' := by
  have hmono {came went : List Bytes} {s : System} {passed taken : List Bytes}
      (h : Flow path lossless came went s passed taken) : Flow path lossless' came went s passed taken :=
    ⟨h.first, h.wire.mono fun hkept => (hkeeps hkept).1, h.second, h.back, h.sound,
      fun hkept => h.asked (hkeeps hkept).1⟩
  have hnone : forwarded [] = [] := rfl
  cases a with
  | arrive i =>
    obtain ⟨passed', hflow⟩ := h.arrive hadm hstep
    exact ⟨passed', taken, hmono hflow⟩
  | hear i =>
    rw [show (Act.hear i).brings = [] from rfl, List.append_nil]
    exact ⟨passed, taken, hmono (h.hear hadm hstep)⟩
  | forth stack =>
    rw [show (Act.forth stack).brings = [] from rfl, List.append_nil]
    rw [Across.step] at hstep
    cases hforth : s.forth with
    | nil =>
      rw [hforth] at hstep
      cases hstep
    | cons g gs =>
      rw [hforth] at hstep
      obtain ⟨taken', hflow⟩ := h.pass hforth hstep
      exact ⟨passed, taken', hmono hflow⟩
  | back stack =>
    rw [show (Act.back stack).brings = [] from rfl, List.append_nil]
    rw [Across.step] at hstep
    cases hback : s.back with
    | nil =>
      rw [hback] at hstep
      cases hstep
    | cons g gs =>
      rw [hback] at hstep
      obtain ⟨passed', hflow⟩ := h.replied hback hstep
      exact ⟨passed', taken, hmono hflow⟩
  | loseForth =>
    have hlost : ¬ lossless' := fun hkept => Bool.false_ne_true (hkeeps hkept).2
    rw [Across.step] at hstep
    cases hforth : s.forth with
    | nil =>
      rw [hforth] at hstep
      cases hstep
    | cons g gs =>
      rw [hforth] at hstep
      obtain ⟨rfl, rfl⟩ := Prod.mk.inj (Option.some.inj hstep)
      rw [show Act.loseForth.brings = [] from rfl, hnone, List.append_nil, List.append_nil]
      exact ⟨passed, taken, h.first, (hforth ▸ h.wire).lose hlost, h.second, h.back, h.sound,
        fun hkept => absurd hkept hlost⟩
  | loseBack =>
    have hlost : ¬ lossless' := fun hkept => Bool.false_ne_true (hkeeps hkept).2
    rw [Across.step] at hstep
    cases hback : s.back with
    | nil =>
      rw [hback] at hstep
      cases hstep
    | cons g gs =>
      rw [hback] at hstep
      obtain ⟨rfl, rfl⟩ := Prod.mk.inj (Option.some.inj hstep)
      rw [show Act.loseBack.brings = [] from rfl, hnone, List.append_nil, List.append_nil]
      exact ⟨passed, taken, h.first, h.wire.mono fun hkept => absurd hkept hlost, h.second,
        fun f hf => h.back f (hback ▸ List.mem_cons_of_mem _ hf), h.sound, fun hkept => absurd hkept hlost⟩

/-! ### Every run -/

variable {h : List (Step System Act Sent)}

theorem flow_of_run {m m' : Packet} {mem mem' : Ref → Packet}
    (run : Run (Steps (step path)) (start m m' mem mem') h s) (hok : ∀ st ∈ h, Admissible path st.input) :
    ∃ passed taken, Flow path (Lossless h) (arrived h) (forwarded (emitted h)) s passed taken := by
  induction run with
  | start =>
    refine ⟨[], [], carries_init .., ⟨.slnil, fun _ hg => absurd hg List.not_mem_nil, fun _ => rfl⟩, carries_init ..,
      fun _ hg => absurd hg List.not_mem_nil, fun _ hf => absurd hf List.not_mem_nil, fun _ hne => absurd rfl hne⟩
  | @next h s s' a out _ hstep ih =>
    rw [List.forall_mem_cons] at hok
    obtain ⟨passed, taken, hflow⟩ := ih hok.2
    have hkeeps : Lossless (⟨s, a, out⟩ :: h) → Lossless h ∧ a.keeps = true := fun hkept =>
      (List.forall_mem_cons.mp hkept).symm
    have hsent : forwarded (emitted (⟨s, a, out⟩ :: h)) = forwarded (emitted h) ++ forwarded out := by
      rw [emitted, forwarded, List.filter_append, List.map_append, forwarded, forwarded]
    rw [hsent]
    exact hflow.step hok.1 hkeeps hstep

/-- The packet relayed twice. -/
theorem through_of_comp {mac mac' : Mac} {f g : Bytes} (h : Relation.Comp (Relayed mac) (Relayed mac') f g) :
    Through mac' f g := by
  obtain ⟨m, hfm, hmg⟩ := h
  refine ⟨hmg.len.trans hfm.len, hmg.dhost, ?_, hmg.summed, fun k hk h12 hnttl hncheck => ?_⟩
  · rw [← hfm.ttl, ← hmg.ttl]
  · rw [hmg.rest k (hk.trans_eq hfm.len.symm) h12 hnttl hncheck, hfm.rest k hk h12 hnttl hncheck]

/-- Without losses the routers and the link are one stage. -/
theorem Flow.stage (h : Flow path lossless came went s passed taken) (hkept : lossless) : ∃ gone there onLink here,
    came = gone ++ (there ++ (onLink ++ here)) ∧ List.Forall₂ (Through path.second.mac) gone went ∧
      Waiting path s there onLink here := by
  obtain ⟨here, hhold, hstage⟩ := h.first
  obtain ⟨waiting, hhold', hstage'⟩ := h.second
  have hlink : Stage Eq passed taken (packets s.forth) :=
    ⟨taken, (h.wire.whole hkept).symm, List.forall₂_same.mpr fun _ _ => rfl⟩
  obtain ⟨onLink, honLink, hboth⟩ := hstage.comp hlink
  obtain ⟨there, hthere, gone, hcame, hall⟩ := hboth.comp hstage'
  refine ⟨gone, there, onLink, here, hcame, hall.imp fun f g hfg => ?_, ?_, honLink,
    hhold.copies.imp fun _ _ => And.right⟩
  · obtain ⟨m, ⟨m', hfm, rfl⟩, hmg⟩ := hfg
    exact through_of_comp ⟨m', hfm, hmg⟩
  · refine (forall₂_comp hthere hhold'.copies).imp fun f r hfr => ?_
    obtain ⟨m, ⟨m', hfm, rfl⟩, hmr⟩ := hfr
    exact ⟨m', hfm, hmr.2⟩

/-- The first router: `10.0.0.0/8` via `10.0.0.1`, on the interface 1. -/
def firstHop : Hop where
  cfg := { sampleConfig with rtable := [⟨0x0a, 0x0100000a, 0xff, 1⟩] }
  dest := 0x0200000a
  route := ⟨0x0a, 0x0100000a, 0xff, 1⟩
  mac := Vector.replicate 6 0xa0
  best := by decide +kernel

/-- The second one: `10.0.0.1`, with `10.0.0.2` on its interface 1. -/
def secondHop : Hop where
  cfg := { sampleConfig with
    rtable := [⟨0x0200000a, 0x0200000a, 0xffffffff, 1⟩]
    interfaceIp := fun _ => 0x0100000a }
  dest := 0x0200000a
  route := ⟨0x0200000a, 0x0200000a, 0xffffffff, 1⟩
  mac := Vector.replicate 6 0x51
  best := by decide +kernel

def samplePath : Path where
  first := firstHop
  second := secondHop
  far := 0
  dest := rfl
  next := by decide +kernel
  own := by decide
  onward := by decide

/-- Two packets; the second one, a byte longer, comes while the first waits. -/
def sampleActs : List Act :=
  [.arrive ⟨0, sampleFrame 0x0200000a, none⟩, .forth none, .arrive ⟨0, sampleFrame 0x0200000a ++ [1], none⟩,
    .back none, .forth none, .forth none, .hear ⟨1, sampleReply 0x0200000a (Vector.replicate 6 0x51), none⟩,
    .forth none, .back none]

end Pcom.Tema1.Across
