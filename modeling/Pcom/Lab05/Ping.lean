import Pcom.Lab05.Traceroute
import Pcom.Tema1.Acceptance
import Pcom.Tema1.Alignment

/-!
# `ping` of `Lab05/icmp.c`

`time_packet` sends a packet on a raw socket and takes frames from it until one is an ICMP packet for the machine; it
does not look whether the packet answers the one sent.  What arrives between two calls is up to the network, which is
any function of the frames sent.

* `ping_spec` — **the reports are the first ICMP packets to arrive**, in order, and when there are enough of them;
* `ping_router` — `ping` and the router of `Tema1` in a closed loop: each request to the router's own address is
  answered, and each packet that was there before **shifts the reports by one**;
* `address_eq_iff` — the address is printed from its last octet to its first.
-/

namespace Pcom.Lab05.Ping

open Pcom.Lib.Ipv4 Pcom.Lib.Memory Pcom.Lib.OnesComplement Pcom.Lib.Scan Pcom.Lab05.Traceroute Pcom.Tema1.Branches
  Pcom.Tema1.Echo Pcom.Tema1.Route Pcom.Tema1.Router Pcom.Tema1.Skel

/-! ### The code -/

def PACKET_LEN : ℕ := 1500

/-- `relevant_packet`. -/
def relevantPacket (ownMac : Mac) (reply : Buf) : Bool :=
  etherDhost.get reply = ownMac ∧ htons (etherType.get reply) = ETHERTYPE_IP ∧ protocol.get reply = IPPROTO_ICMP

/-- `recv` into `reply->payload`. -/
def recv (reply : Buf) (frame : Bytes) : Buf := overwrite reply (frame.take PACKET_LEN)

/-- The loop of `time_packet`: the reply and the frames that are left, or nothing while it waits. -/
def timePacket (ownMac : Mac) : Buf → List Bytes → Option (Buf × List Bytes)
  | _, [] => none
  | reply, frame :: frames =>
    if relevantPacket ownMac (recv reply frame) then some (recv reply frame, frames)
    else timePacket ownMac (recv reply frame) frames

/-- What is printed of a reply, save the time. -/
structure Report where
  saddr : BitVec 32
  totLen : BitVec 16
  ttl : UInt8
  type : UInt8
  deriving DecidableEq

def reportOf (reply : Buf) : Report := ⟨saddr.get reply, totLen.get reply, ttl.get reply, icmpType.get reply⟩

/-- The text of the address. -/
def Report.address (r : Report) : Bytes :=
  decimal (byteOf r.saddr 3).toNat ++ ascii "." ++ decimal (byteOf r.saddr 2).toNat ++ ascii "." ++
    decimal (byteOf r.saddr 1).toNat ++ ascii "." ++ decimal (byteOf r.saddr 0).toNat

/-- A network: a frame is sent, and some frames arrive before the next one is sent. -/
abbrev World (σ : Type) := σ → Bytes → σ × List Bytes

/-- The loop of `ping`: the reports, and whether it comes to its end.  `unset` is what the local `reply` of a round
holds before anything is received, `waiting` the frames in the socket. -/
def pingLoop {σ : Type} (host : Host) (ipAddr : BitVec 32) (world : World σ) (unset : ℕ → Buf) :
    ℕ → ℕ → σ → List Bytes → List Report × Bool
  | 0, _, _, _ => ([], true)
  | count + 1, i, w, waiting =>
    let arrived := world w (probe host ipAddr 64)
    match timePacket host.mac (unset i) (waiting ++ arrived.2) with
    | none => ([], false)
    | some (reply, waiting) =>
      let more := pingLoop host ipAddr world unset count (i + 1) arrived.1 waiting
      (reportOf reply :: more.1, more.2)

/-- `ping`. -/
def ping {σ : Type} (host : Host) (ipAddr : BitVec 32) (count : ℤ) (world : World σ) (unset : ℕ → Buf) (w : σ)
    (waiting : List Bytes) : List Report × Bool :=
  pingLoop host ipAddr world unset (if count = -1 then 1 else count.toNat) 0 w waiting

/-! ### Frames -/

/-- The frame has the headers that are looked at. -/
def Whole (frame : Bytes) : Prop := 35 ≤ frame.length

/-- The frame is an ICMP packet for the machine. -/
def relevant (ownMac : Mac) (frame : Bytes) : Bool := relevantPacket ownMac (ofBytes frame)

theorem get_recv {frame : Bytes} (hwhole : Whole frame) (reply : Buf) {α : Type} {f : ByteField α}
    (hf : f.off + f.size ≤ 35) : f.get (recv reply frame) = f.get (ofBytes frame) := by
  refine ByteField.get_congr fun k hk => ?_
  have hlt : k < 35 := lt_of_lt_of_le hk.2 hf
  have hmax : k < PACKET_LEN := lt_of_lt_of_le hlt (by decide)
  have hlong : k < (frame.take PACKET_LEN).length := by
    rw [List.length_take]
    exact lt_min hmax (lt_of_lt_of_le hlt hwhole)
  have hframe : ofBytes (frame.take PACKET_LEN) k = ofBytes frame k := by
    simp [ofBytes, hmax]
  exact (overwrite_eq_ofBytes hlong).trans hframe

theorem relevant_recv {frame : Bytes} (hwhole : Whole frame) (ownMac : Mac) (reply : Buf) :
    relevantPacket ownMac (recv reply frame) = relevant ownMac frame := by
  rw [relevant, relevantPacket, relevantPacket, get_recv hwhole reply (by decide), get_recv hwhole reply (by decide),
    get_recv hwhole reply (by decide)]

theorem report_recv {frame : Bytes} (hwhole : Whole frame) (reply : Buf) :
    reportOf (recv reply frame) = reportOf (ofBytes frame) := by
  rw [reportOf, reportOf, get_recv hwhole reply (by decide), get_recv hwhole reply (by decide),
    get_recv hwhole reply (by decide), get_recv hwhole reply (by decide)]

variable {ownMac : Mac} {frames : List Bytes}

/-- Frames that are not relevant are passed over. -/
theorem timePacket_none (hwhole : ∀ f ∈ frames, Whole f) (hnone : ∀ f ∈ frames, relevant ownMac f = false)
    (reply : Buf) : timePacket ownMac reply frames = none := by
  induction frames generalizing reply with
  | nil => rfl
  | cons frame frames ih =>
    rw [List.forall_mem_cons] at hwhole hnone
    rw [timePacket, relevant_recv hwhole.1, hnone.1, if_neg Bool.false_ne_true]
    exact ih hwhole.2 hnone.2 _

/-- **The reply is the first relevant frame**, and the frames behind it stay in the socket. -/
theorem timePacket_some {skipped left : List Bytes} {frame : Bytes} (hframes : frames = skipped ++ frame :: left)
    (hwhole : ∀ f ∈ frames, Whole f) (hskipped : ∀ f ∈ skipped, relevant ownMac f = false)
    (hframe : relevant ownMac frame = true) (reply : Buf) :
    ∃ r, timePacket ownMac reply frames = some (r, left) ∧ reportOf r = reportOf (ofBytes frame) := by
  subst hframes
  induction skipped generalizing reply with
  | nil =>
    have hfirst : Whole frame := hwhole frame List.mem_cons_self
    refine ⟨recv reply frame, ?_, report_recv hfirst reply⟩
    rw [List.nil_append, timePacket, relevant_recv hfirst, hframe, if_pos rfl]
  | cons f skipped ih =>
    rw [List.cons_append, List.forall_mem_cons] at hwhole
    rw [List.forall_mem_cons] at hskipped
    rw [List.cons_append, timePacket, relevant_recv hwhole.1, hskipped.1, if_neg Bool.false_ne_true]
    exact ih hskipped.2 _ hwhole.2

/-! ### The reports -/

variable {σ : Type} {host : Host} {ipAddr : BitVec 32} {world : World σ}

/-- What arrives when the packet is sent some times. -/
def arrivals (host : Host) (ipAddr : BitVec 32) (world : World σ) : ℕ → σ → List Bytes
  | 0, _ => []
  | n + 1, w => (world w (probe host ipAddr 64)).2 ++
      arrivals host ipAddr world n (world w (probe host ipAddr 64)).1

/-- The relevant frames of the stream, those of the first round in front. -/
theorem filter_arrivals (n : ℕ) (w : σ) (waiting : List Bytes) :
    (waiting ++ arrivals host ipAddr world (n + 1) w).filter (relevant host.mac) =
      (waiting ++ (world w (probe host ipAddr 64)).2).filter (relevant host.mac) ++
        (arrivals host ipAddr world n (world w (probe host ipAddr 64)).1).filter (relevant host.mac) := by
  rw [arrivals, ← List.append_assoc, List.filter_append]

/-- A round waits where no relevant frame has arrived. -/
theorem pingLoop_waits {w : σ} {waiting : List Bytes}
    (hwhole : ∀ f ∈ waiting ++ (world w (probe host ipAddr 64)).2, Whole f)
    (hnone : (waiting ++ (world w (probe host ipAddr 64)).2).filter (relevant host.mac) = [])
    (unset : ℕ → Buf) (count i : ℕ) : pingLoop host ipAddr world unset (count + 1) i w waiting = ([], false) := by
  have hskip : ∀ f ∈ waiting ++ (world w (probe host ipAddr 64)).2, relevant host.mac f = false := fun f hf =>
    Bool.eq_false_iff.mpr (List.filter_eq_nil_iff.mp hnone f hf)
  rw [pingLoop]
  dsimp only
  rw [timePacket_none hwhole hskip]

/-- Otherwise it reports the first one, and the next round goes on with the frames behind it. -/
theorem pingLoop_takes {w : σ} {waiting more : List Bytes} {frame : Bytes}
    (hwhole : ∀ f ∈ waiting ++ (world w (probe host ipAddr 64)).2, Whole f)
    (hfirst : (waiting ++ (world w (probe host ipAddr 64)).2).filter (relevant host.mac) = frame :: more)
    (unset : ℕ → Buf) (count i : ℕ) : ∃ left, left.filter (relevant host.mac) = more ∧ (∀ f ∈ left, Whole f) ∧
      pingLoop host ipAddr world unset (count + 1) i w waiting =
        (reportOf (ofBytes frame) ::
            (pingLoop host ipAddr world unset count (i + 1) (world w (probe host ipAddr 64)).1 left).1,
          (pingLoop host ipAddr world unset count (i + 1) (world w (probe host ipAddr 64)).1 left).2) := by
  obtain ⟨skipped, left, hsplit, hskipped, hframe, hleft⟩ := List.filter_eq_cons_iff.mp hfirst
  obtain ⟨r, hr, hreport⟩ := timePacket_some hsplit hwhole
    (fun f hf => Bool.eq_false_iff.mpr (hskipped f hf)) hframe (unset i)
  refine ⟨left, hleft, fun f hf => hwhole f ?_, ?_⟩
  · rw [hsplit]
    exact List.mem_append_right _ (List.mem_cons_of_mem _ hf)
  · rw [pingLoop]
    dsimp only
    rw [hr, ← hreport]

/-- The frames of the first round are complete, and so are all the others. -/
theorem whole_arrivals {n : ℕ} {w : σ} {waiting : List Bytes}
    (hwhole : ∀ f ∈ waiting ++ arrivals host ipAddr world (n + 1) w, Whole f) :
    (∀ f ∈ waiting ++ (world w (probe host ipAddr 64)).2, Whole f) ∧
      ∀ f ∈ arrivals host ipAddr world n (world w (probe host ipAddr 64)).1, Whole f := by
  rwa [arrivals, ← List.append_assoc, List.forall_mem_append] at hwhole

/-- **When `ping` comes to its end**: each round has to find one more relevant frame among all that have arrived. -/
theorem pingLoop_done_iff (unset : ℕ → Buf) (i : ℕ) {count : ℕ} {w : σ} {waiting : List Bytes}
    (hwhole : ∀ f ∈ waiting ++ arrivals host ipAddr world count w, Whole f) :
    (pingLoop host ipAddr world unset count i w waiting).2 = true ↔
      ∀ n < count, n < ((waiting ++ arrivals host ipAddr world (n + 1) w).filter (relevant host.mac)).length := by
  induction count generalizing i w waiting with
  | zero => exact ⟨fun _ n hn => absurd hn (Nat.not_lt_zero n), fun _ => rfl⟩
  | succ count ih =>
    obtain ⟨hnow, hlater⟩ := whole_arrivals hwhole
    simp only [filter_arrivals]
    rcases hfilter : (waiting ++ (world w (probe host ipAddr 64)).2).filter (relevant host.mac) with _ | ⟨frame, more⟩
    · rw [pingLoop_waits hnow hfilter]
      refine iff_of_false Bool.false_ne_true fun h => ?_
      exact absurd (h 0 (Nat.succ_pos count)) (Nat.lt_irrefl 0)
    · obtain ⟨left, hleft, hwholeLeft, hround⟩ := pingLoop_takes hnow hfilter unset count i
      rw [hround, ih (i + 1) (List.forall_mem_append.mpr ⟨hwholeLeft, hlater⟩), Nat.forall_lt_succ_left]
      simp only [List.filter_append, hleft, List.cons_append, List.length_cons, Nat.add_lt_add_iff_right]
      exact (and_iff_right (Nat.succ_pos _)).symm

/-- **What it reports then**: the first relevant frames. -/
theorem pingLoop_reports (unset : ℕ → Buf) (i : ℕ) {count : ℕ} {w : σ} {waiting : List Bytes}
    (hwhole : ∀ f ∈ waiting ++ arrivals host ipAddr world count w, Whole f)
    (hdone : (pingLoop host ipAddr world unset count i w waiting).2 = true) :
    (pingLoop host ipAddr world unset count i w waiting).1 =
      (((waiting ++ arrivals host ipAddr world count w).filter (relevant host.mac)).take count).map
        fun frame => reportOf (ofBytes frame) := by
  induction count generalizing i w waiting with
  | zero =>
    rw [List.take_zero]
    rfl
  | succ count ih =>
    obtain ⟨hnow, hlater⟩ := whole_arrivals hwhole
    rcases hfilter : (waiting ++ (world w (probe host ipAddr 64)).2).filter (relevant host.mac) with _ | ⟨frame, more⟩
    · rw [pingLoop_waits hnow hfilter] at hdone
      exact absurd hdone Bool.false_ne_true
    · obtain ⟨left, hleft, hwholeLeft, hround⟩ := pingLoop_takes hnow hfilter unset count i
      rw [hround] at hdone ⊢
      rw [ih (i + 1) (List.forall_mem_append.mpr ⟨hwholeLeft, hlater⟩) hdone, filter_arrivals, hfilter,
        List.filter_append, hleft, List.cons_append, List.take_succ_cons, List.map_cons]

/-- **What `ping` reports**, for every network.  It comes to its end when each round finds one more relevant frame
among all that have arrived by then, and its reports are those of the first relevant frames. -/
theorem ping_spec (unset : ℕ → Buf) (i : ℕ) {count : ℕ} {w : σ} {waiting : List Bytes}
    (hwhole : ∀ f ∈ waiting ++ arrivals host ipAddr world count w, Whole f) :
    ((pingLoop host ipAddr world unset count i w waiting).2 = true ↔
      ∀ n < count, n < ((waiting ++ arrivals host ipAddr world (n + 1) w).filter (relevant host.mac)).length) ∧
    ((pingLoop host ipAddr world unset count i w waiting).2 = true →
      (pingLoop host ipAddr world unset count i w waiting).1 =
        (((waiting ++ arrivals host ipAddr world count w).filter (relevant host.mac)).take count).map
          fun frame => reportOf (ofBytes frame)) :=
  ⟨pingLoop_done_iff unset i hwhole, pingLoop_reports unset i hwhole⟩

/-- An echo reply for `sampleHost`. -/
def sampleReply : Bytes :=
  [1, 1, 1, 1, 1, 1, 2, 2, 2, 2, 2, 2, 8, 0, 0x45, 0, 0, 28, 0, 0, 0, 0, 64, 1, 0, 0, 10, 0, 0, 9, 10, 0, 0, 2, 0]

/-- Two rounds, and a network that answers the first packet and no other. -/
theorem second_round_waits :
    ¬ (pingLoop sampleHost 0 (fun (n : ℕ) _ => (n + 1, if n = 0 then [sampleReply] else [])) (fun _ _ => 0) 2 0 0
      []).2 = true := by
  have hwhole : ∀ f ∈ [] ++ arrivals sampleHost 0 (fun (n : ℕ) _ => (n + 1, if n = 0 then [sampleReply] else [])) 2 0,
      Whole f := by
    simp only [arrivals, Whole]
    decide
  rw [(ping_spec (fun _ _ => 0) 0 hwhole).1]
  intro h
  have hsecond := h 1 (by decide)
  simp only [arrivals] at hsecond
  revert hsecond
  decide

/-! ### The packet sent -/

/-- The IPv4 header of a packet, with a checksum. -/
def ipHdr (host : Host) (ipAddr : BitVec 32) (currentTTL : UInt8) (check : BitVec 16) : Bytes :=
  [0x45, 0] ++ word (htons 28) ++ word (htons host.pid) ++ word (0 : BitVec 16) ++ [currentTTL, 1] ++ word check ++
    word host.ip ++ word ipAddr

/-- The ICMP header. -/
def echoHdr (host : Host) (checksum : BitVec 16) : Bytes :=
  [8, 0] ++ word checksum ++ word (htons host.pid) ++ word (0 : BitVec 16)

theorem probe_eq (host : Host) (ipAddr : BitVec 32) (t : UInt8) : ∃ ipSum icmpSum, probe host ipAddr t =
    buildEthhdr host.mac host.gateway (htons ETHERTYPE_IP) ++ (ipHdr host ipAddr t ipSum ++ echoHdr host icmpSum) ∧
      ipSum = ipChecksum (host.payload + 14) (ipHdr host ipAddr t 0) :=
  ⟨_, _, rfl, rfl⟩

variable {t : UInt8}

theorem length_ipHdr (c : BitVec 16) : (ipHdr host ipAddr t c).length = 20 := by
  simp [ipHdr, length_word]

theorem length_probe : (probe host ipAddr t).length = 42 := by
  obtain ⟨ipSum, icmpSum, hprobe, -⟩ := probe_eq host ipAddr t
  rw [hprobe, List.length_append, List.length_append, length_buildEthhdr, length_ipHdr]
  simp [echoHdr, length_word]

theorem etherType_probe : etherType.get (ofBytes (probe host ipAddr t)) = htons ETHERTYPE_IP := by
  obtain ⟨ipSum, icmpSum, hprobe, -⟩ := probe_eq host ipAddr t
  rw [hprobe, buildEthhdr, List.append_assoc]
  exact le16_get_ofBytes (by simp) _ _

theorem etherShost_probe : etherShost.get (ofBytes (probe host ipAddr t)) = host.mac := by
  obtain ⟨ipSum, icmpSum, hprobe, -⟩ := probe_eq host ipAddr t
  rw [hprobe, buildEthhdr, List.append_assoc, List.append_assoc]
  exact raw_get_ofBytes (by simp) host.mac _

/-- The packet with its IPv4 header opened in front of the destination. -/
theorem probe_opened (host : Host) (ipAddr : BitVec 32) (t : UInt8) : ∃ front echo : Bytes, front.length = 30 ∧
    probe host ipAddr t = front ++ (word ipAddr ++ ([8, 0] ++ echo)) := by
  obtain ⟨ipSum, icmpSum, hprobe, -⟩ := probe_eq host ipAddr t
  refine ⟨buildEthhdr host.mac host.gateway (htons ETHERTYPE_IP) ++ ([0x45, 0] ++ word (htons 28) ++
    word (htons host.pid) ++ word (0 : BitVec 16) ++ [t, 1] ++ word ipSum ++ word host.ip),
    word icmpSum ++ word (htons host.pid) ++ word (0 : BitVec 16), ?_, ?_⟩
  · simp [length_buildEthhdr, length_word]
  · rw [hprobe, ipHdr, echoHdr]
    simp only [List.append_assoc]

theorem daddr_probe : daddr.get (ofBytes (probe host ipAddr t)) = ipAddr := by
  obtain ⟨front, echo, hlen, hprobe⟩ := probe_opened host ipAddr t
  rw [hprobe]
  exact le32_get_ofBytes hlen ipAddr _

theorem icmpType_probe : icmpType.get (ofBytes (probe host ipAddr t)) = ICMP_ECHO := by
  obtain ⟨front, echo, hlen, hprobe⟩ := probe_opened host ipAddr t
  rw [hprobe, ← List.append_assoc]
  exact u8_get_ofBytes (by rw [List.length_append, hlen, length_word]) 8 _

theorem header_probe (c : BitVec 16) (rest : Bytes) :
    bytes (ofBytes (buildEthhdr host.mac host.gateway (htons ETHERTYPE_IP) ++ (ipHdr host ipAddr t c ++ rest))) 14
      20 = ipHdr host ipAddr t c := by
  have hpiece := bytes_ofBytes_middle (length_buildEthhdr host.mac host.gateway (htons ETHERTYPE_IP))
    (ipHdr host ipAddr t c) rest
  rwa [length_ipHdr] at hpiece

theorem protocol_probe : protocol.get (ofBytes (probe host ipAddr t)) = IPPROTO_ICMP := by
  obtain ⟨ipSum, icmpSum, hprobe, -⟩ := probe_eq host ipAddr t
  rw [hprobe]
  show ofBytes (buildEthhdr host.mac host.gateway (htons ETHERTYPE_IP) ++ _) (14 + 9) = 1
  rw [ofBytes_append (length_buildEthhdr ..)]
  rfl

/-- A checksum does not depend on where the data is. -/
theorem ipChecksum_moved {data : Bytes} (hlen : data.length < 2 ^ 32) (at_ at' : ℕ) :
    ipChecksum at_ data = ipChecksum at' data := by
  obtain ⟨f, hf, hword⟩ := Pcom.Tema1.Alignment.networkWord_ipChecksum at_ hlen
  obtain ⟨f', hf', hword'⟩ := Pcom.Tema1.Alignment.networkWord_ipChecksum at' hlen
  refine Pcom.Tema1.Alignment.networkWord_inj ?_
  rw [hword, hword', hf.unique hf']

/-- The header in front of the checksum, and behind it. -/
theorem ipHdr_opened (host : Host) (ipAddr : BitVec 32) (t : UInt8) : ∃ front back : Bytes, front.length = 10 ∧
    ∀ c, ipHdr host ipAddr t c = front ++ byteOf c 0 :: byteOf c 1 :: back := by
  refine ⟨[0x45, 0] ++ word (htons 28) ++ word (htons host.pid) ++ word (0 : BitVec 16) ++ [t, 1],
    word host.ip ++ word ipAddr, rfl, fun c => ?_⟩
  rw [ipHdr, List.append_assoc _ (word host.ip), List.append_assoc]
  rfl

/-- **The header passes the test of the router.** -/
theorem summed_probe : Summed (ofBytes (probe host ipAddr t)) := by
  obtain ⟨ipSum, icmpSum, hprobe, hsum⟩ := probe_eq host ipAddr t
  obtain ⟨front, back, hlen, hopened⟩ := ipHdr_opened host ipAddr t
  have hheader : bytes (ofBytes (probe host ipAddr t)) 14 20 = ipHdr host ipAddr t ipSum := by
    rw [hprobe]
    exact header_probe ipSum _
  rw [Pcom.Tema1.Acceptance.bytes_header, hopened] at hheader
  obtain ⟨hfront, hrest⟩ := List.append_inj hheader (by rw [length_bytes, hlen])
  obtain ⟨h24, hrest⟩ := List.cons.inj hrest
  obtain ⟨h25, hback⟩ := List.cons.inj hrest
  have hzeroed : bytes (check.set (ofBytes (probe host ipAddr t)) 0) 14 20 = ipHdr host ipAddr t 0 := by
    rw [Pcom.Tema1.Acceptance.bytes_header_zeroed, hopened, hfront, hback]
    rfl
  have hcheck : check.get (ofBytes (probe host ipAddr t)) = ipSum := le16_get_eq h24 h25
  rw [Summed, headerChecksum, hzeroed, hcheck, hsum]
  exact ipChecksum_moved (by rw [length_ipHdr]; decide) _ _

/-- So it is an echo request, for a router with the address. -/
theorem echoRequest_probe {cfg : Config} {interface : ℤ} (hown : cfg.interfaceIp interface = ipAddr)
    (stack : Option Packet) : EchoRequest cfg ⟨interface, probe host ipAddr t, stack⟩ where
  whole := length_probe.ge
  type := etherType_probe
  summed := summed_probe
  protocol := protocol_probe
  icmpType := icmpType_probe
  own := daddr_probe.trans hown.symm

/-! ### The router -/

/-- The router at the other end of the link: what it sends on the interface arrives. -/
def routerWorld (cfg : Config) (interface : ℤ) (stack : Option Packet) : World State := fun s frame =>
  match step cfg s ⟨interface, frame, stack⟩ with
  | none => (s, [])
  | some (s', out) => (s', (out.filter fun o => o.interface = interface).map fun o => o.packet.frame)

/-- The report of an answer of the router. -/
def answered (cfg : Config) (ipAddr : BitVec 32) : Report where
  saddr := ipAddr
  totLen := htons 28
  ttl := 64
  type := if getBestRoute cfg.rtable ipAddr = none then ICMP_DEST_UNREACH else 0

/-- Two more fields of an answer, and the frame it goes out as. -/
theorem totLen_sendIcmp (src dst : BitVec 32) (sha dha : Mac) (type code : UInt8) (interface : ℤ) (id seq : BitVec 32) :
    totLen.get (sendIcmp dst src sha dha type code interface id seq).packet.payload = htons 28 := by
  have hsplit : icmpIpHdr dst src = (icmpIpHdr dst src).take 2 ++ (word (htons 28) ++ (icmpIpHdr dst src).drop 4) :=
    (List.take_append_drop 2 _).symm
  rw [payload_sendIcmp, hsplit]
  simp only [List.append_assoc]
  rw [← List.append_assoc]
  refine le16_get_ofBytes ?_ _ _
  rw [List.length_append, length_buildEthhdr, List.length_take, length_icmpIpHdr]
  rfl

theorem ttl_sendIcmp (src dst : BitVec 32) (sha dha : Mac) (type code : UInt8) (interface : ℤ) (id seq : BitVec 32) :
    ttl.get (sendIcmp dst src sha dha type code interface id seq).packet.payload = 64 := by
  have hsplit : icmpIpHdr dst src = (icmpIpHdr dst src).take 8 ++ 64 :: (icmpIpHdr dst src).drop 9 :=
    (List.take_append_drop 8 _).symm
  rw [payload_sendIcmp, hsplit]
  simp only [List.append_assoc, List.cons_append]
  rw [← List.append_assoc]
  refine u8_get_ofBytes ?_ _ _
  rw [List.length_append, length_buildEthhdr, List.length_take, length_icmpIpHdr]
  rfl

theorem frame_icmpAnswer (m : Packet) (type : UInt8) (id : BitVec 32) :
    (icmpAnswer m type id).packet.frame.length = 42 ∧
      ofBytes (icmpAnswer m type id).packet.frame = (icmpAnswer m type id).packet.payload := by
  have hlen : (icmpAnswer m type id).packet.len = 42 := by
    simp only [icmpAnswer, sendIcmp, localPacket, List.length_append, length_buildEthhdr, length_icmpIpHdr,
      length_icmpHdr]
  constructor
  · rw [Packet.frame, length_bytes, hlen]
  · exact congrArg ofBytes (bytes_ofBytes _)

/-- What the router sends for a packet of `ping`. -/
theorem step_probe {cfg : Config} {interface : ℤ} (hown : cfg.interfaceIp interface = ipAddr) (stack : Option Packet)
    (host : Host) (s : State) : ∃ s' o, step cfg s ⟨interface, probe host ipAddr 64, stack⟩ = some (s', [o]) ∧
      Answers ⟨interface, probe host ipAddr 64, stack⟩ (answered cfg ipAddr).type o ∧
      o.packet.frame.length = 42 ∧ ofBytes o.packet.frame = o.packet.payload ∧
      totLen.get o.packet.payload = htons 28 ∧ ttl.get o.packet.payload = 64 := by
  have hrequest : EchoRequest cfg ⟨interface, probe host ipAddr 64, stack⟩ := echoRequest_probe hown stack
  obtain ⟨id, hstep⟩ := step_echoRequest hrequest s
  have htype : answerType cfg ⟨interface, probe host ipAddr 64, stack⟩ = (answered cfg ipAddr).type := by
    rw [answerType, ttl_probe, if_neg (by decide), daddr_probe]
    rfl
  rw [htype] at hstep
  obtain ⟨hlength, hpayload⟩ := frame_icmpAnswer (getPacket s ⟨interface, probe host ipAddr 64, stack⟩).m
    (answered cfg ipAddr).type id
  exact ⟨_, _, hstep, answers_icmpAnswer hrequest s _ id, hlength, hpayload, totLen_sendIcmp .., ttl_sendIcmp ..⟩

/-- **One round**: the answer of the router is relevant, and reported as what it is. -/
theorem routerWorld_probe {cfg : Config} {interface : ℤ} (hown : cfg.interfaceIp interface = ipAddr)
    (stack : Option Packet) (host : Host) (s : State) : ∃ s' frame,
    routerWorld cfg interface stack s (probe host ipAddr 64) = (s', [frame]) ∧ Whole frame ∧
      relevant host.mac frame = true ∧ reportOf (ofBytes frame) = answered cfg ipAddr := by
  obtain ⟨s', o, hstep, hanswers, hlength, hpayload, htotal, httl⟩ := step_probe hown stack host s
  refine ⟨s', o.packet.frame, ?_, ?_, ?_, ?_⟩
  · rw [routerWorld, hstep]
    dsimp only
    have hback : o.interface = interface := hanswers.interface
    rw [List.filter_cons_of_pos (by simpa using hback)]
    rfl
  · rw [Whole, hlength]
    decide
  · rw [relevant, hpayload, relevantPacket, hanswers.dhost, hanswers.ipv4, hanswers.icmp, etherShost_probe]
    exact decide_eq_true ⟨rfl, by decide, rfl⟩
  · rw [hpayload, reportOf, hanswers.source, hanswers.type, daddr_probe, htotal, httl]
    rfl

/-- What arrives from the router. -/
theorem arrivals_router {cfg : Config} {interface : ℤ} (hown : cfg.interfaceIp interface = ipAddr)
    (stack : Option Packet) (host : Host) (n : ℕ) (s : State) :
    (∀ f ∈ arrivals host ipAddr (routerWorld cfg interface stack) n s, Whole f ∧ relevant host.mac f = true) ∧
      (arrivals host ipAddr (routerWorld cfg interface stack) n s).map (fun frame => reportOf (ofBytes frame)) =
        List.replicate n (answered cfg ipAddr) := by
  induction n generalizing s with
  | zero => exact ⟨fun f hf => (List.not_mem_nil hf).elim, rfl⟩
  | succ n ih =>
    obtain ⟨s', frame, hround, hwhole, hrelevant, hreport⟩ := routerWorld_probe hown stack host s
    obtain ⟨hall, hreports⟩ := ih s'
    rw [arrivals, hround]
    constructor
    · intro f hf
      rcases List.mem_cons.mp hf with rfl | hf
      · exact ⟨hwhole, hrelevant⟩
      · exact hall f hf
    · show reportOf (ofBytes frame) :: List.map _ (arrivals host ipAddr _ n s') = _
      rw [hreports, hreport, List.replicate_succ]

/-- **The closed loop.**  Each packet to the router's own address is answered by one frame that `ping` reports as
`answered`, and `ping` comes to its end with one report for each round; what was in the socket before is reported
first, and the reports of the answers are shifted by it. -/
theorem ping_router {cfg : Config} {interface : ℤ} (hown : cfg.interfaceIp interface = ipAddr) (stack : Option Packet)
    (host : Host) (unset : ℕ → Buf) (count : ℕ) (s : State) {waiting : List Bytes} (hwhole : ∀ f ∈ waiting, Whole f) :
    (∀ r, ∃ r' frame, routerWorld cfg interface stack r (probe host ipAddr 64) = (r', [frame]) ∧ Whole frame ∧
      relevant host.mac frame = true ∧ reportOf (ofBytes frame) = answered cfg ipAddr) ∧
    ping host ipAddr count (routerWorld cfg interface stack) unset s waiting =
      ((((waiting.filter (relevant host.mac)).map fun frame => reportOf (ofBytes frame)) ++
        List.replicate count (answered cfg ipAddr)).take count, true) := by
  refine ⟨routerWorld_probe hown stack host, ?_⟩
  have hfilter : ∀ n, (waiting ++ arrivals host ipAddr (routerWorld cfg interface stack) n s).filter
      (relevant host.mac) = waiting.filter (relevant host.mac) ++
        arrivals host ipAddr (routerWorld cfg interface stack) n s := fun n => by
    rw [List.filter_append, List.filter_eq_self.mpr fun f hf =>
      ((arrivals_router hown stack host n s).1 f hf).2]
  have hlength : ∀ n, (arrivals host ipAddr (routerWorld cfg interface stack) n s).length = n := fun n => by
    have hmap := congrArg List.length (arrivals_router hown stack host n s).2
    rwa [List.length_map, List.length_replicate] at hmap
  have hstream : ∀ f ∈ waiting ++ arrivals host ipAddr (routerWorld cfg interface stack) count s, Whole f :=
    fun f hf => (List.mem_append.mp hf).elim (hwhole f) fun hf => ((arrivals_router hown stack host count s).1 f hf).1
  have hend := (pingLoop_done_iff unset 0 hstream).mpr fun n _ => by
    rw [hfilter, List.length_append, hlength]
    omega
  have hcount : (if (count : ℤ) = -1 then 1 else (count : ℤ).toNat) = count := by
    rw [if_neg (by omega)]
    rfl
  rw [ping, hcount]
  refine Prod.ext ?_ hend
  rw [pingLoop_reports unset 0 hstream hend, hfilter, List.map_take, List.map_append,
    (arrivals_router hown stack host count s).2]

/-- Three rounds with a router; an answer to another packet was in the socket. -/
theorem three_rounds_answered :
    ping sampleHost 0x0200000a (3 : ℕ) (routerWorld echoConfig 0 none) (fun _ _ => 0) sampleInit [sampleReply] =
      (reportOf (ofBytes sampleReply) :: List.replicate 2 (answered echoConfig 0x0200000a), true) := by
  have hown : echoConfig.interfaceIp 0 = 0x0200000a := rfl
  have hrelevant : [sampleReply].filter (relevant sampleHost.mac) = [sampleReply] := by decide
  have hwhole : ∀ f ∈ [sampleReply], Whole f := List.forall_mem_singleton.mpr (by rw [Whole]; decide)
  rw [(ping_router hown none sampleHost (fun _ _ => 0) 3 sampleInit hwhole).2, hrelevant]
  rfl

/-! ### The address -/

theorem byteOf_swapBytes (w : BitVec 32) {k : ℕ} (hk : k < 4) : byteOf (swapBytes w) k = byteOf w (3 - k) := by
  obtain rfl | rfl | rfl | rfl : k = 0 ∨ k = 1 ∨ k = 2 ∨ k = 3 := by omega
  all_goals
    refine congrArg UInt8.ofBitVec ?_
    rw [swapBytes]
    ext i hi
    grind

/-- **The address is printed backwards**: it is the right one exactly when it reads the same from both ends. -/
theorem address_eq_iff (r : Report) : r.address = inetNtoa r.saddr ↔ swapBytes r.saddr = r.saddr := by
  have hswapped : r.address = inetNtoa (swapBytes r.saddr) := by
    rw [inetNtoa, byteOf_swapBytes _ (by decide), byteOf_swapBytes _ (by decide), byteOf_swapBytes _ (by decide),
      byteOf_swapBytes _ (by decide)]
    rfl
  rw [hswapped]
  constructor
  · intro h
    have hread := congrArg inetAton h
    rw [inetAton_inetNtoa, inetAton_inetNtoa] at hread
    exact Option.some.inj hread
  · intro h
    rw [h]

end Pcom.Lab05.Ping
