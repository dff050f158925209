import Pcom.Lib.StepSystem
import Pcom.Lib.Sweep
import Pcom.Tema1.Route
import Pcom.Tema1.Skel

/-!
# The main loop of `Tema1/router.c`

One turn of the loop is a step: a received frame, the state, and the calls of `send_packet`.  The queue holds
references, as the `void *` elements of the code do, and there are two kinds of storage behind them: the copies
made with `malloc`, and the local `firstPacket` of the loop that refills the queue.

* `step` — the loop body; `none` is a null pointer followed or the ARP table written past its end;
* `step_effect` — **everything a step can do**: four cases, from which the run invariants follow.
-/

namespace Pcom.Tema1.Router

open Function Pcom.Lib.Memory Pcom.Lib.Scan Pcom.Lib.Sweep Pcom.Lib.StepSystem Pcom.Tema1.Route
  Pcom.Tema1.Skel

/-! ### State and inputs -/

/-- What the router is started with: the sorted table, and what the kernel answers about it. -/
structure Config where
  rtable : List RouteTableEntry
  interfaceMac : ℤ → Mac
  interfaceIp : ℤ → BitVec 32
  pid : BitVec 32

/-- `struct arp_entry`. -/
structure ArpEntry where
  ip : BitVec 32
  mac : Mac
  deriving DecidableEq

/-- The `void *` elements of the queue. -/
inductive Ref
  | heap (address : ℕ)
  | firstPacket
  deriving DecidableEq

/-- The variables that live across turns; the heap grows from `brk`. -/
structure State where
  m : Packet
  q : List Ref
  mem : Ref → Packet
  brk : ℕ
  arpTable : List ArpEntry

/-- A received frame.  `firstPacket` is a local of a block that has been left when the frame arrives: `stack`
is what its storage holds by then, if it has been used for something else. -/
structure Input where
  interface : ℤ
  frame : Bytes
  stack : Option Packet

/-- The state before the loop; `m` and the storage are uninitialised. -/
def init (m : Packet) (mem : Ref → Packet) : State := ⟨m, [], mem, 0, []⟩

/-- `get_packet`: the frame is read over the start of the buffer that held the previous one. -/
def getPacket (s : State) (i : Input) : State :=
  { s with
    m := ⟨(i.frame.take MAX_LEN).length, overwrite s.m.payload (i.frame.take MAX_LEN), i.interface⟩
    mem := match i.stack with
      | none => s.mem
      | some p => update s.mem .firstPacket p }

/-! ### The branches of the loop body -/

/-- The number of entries allocated for `arp_table`. -/
def ARP_TABLE_SIZE : ℕ := 66000

/-- `get_arp_entry`. -/
def getArpEntry (arpTable : List ArpEntry) (ip : BitVec 32) : Option ArpEntry :=
  arpTable.find? fun entry => ip = entry.ip

/-- `get_interface_ip`. -/
def getInterfaceIp (cfg : Config) (interface : ℤ) : Bytes := inetNtoa (cfg.interfaceIp interface)

/-- `ip_checksum(ip_hdr, sizeof(struct iphdr))`: a packet starts at a multiple of 4, its payload 4 bytes and the
IPv4 header 18 bytes later. -/
def headerChecksum (payload : Buf) : BitVec 16 := ipChecksum 18 (bytes payload 14 20)

/-- `ttl = ttl - 1`, and the checksum anew. -/
def decrementTtl (payload : Buf) : Buf :=
  let payload := ttl.set payload (ttl.get payload - 1)
  let payload := check.set payload 0
  check.set payload (headerChecksum payload)

/-- A packet of the queue as it is sent: rewritten in place. -/
def release (cfg : Config) (bestRoute : RouteTableEntry) (mac : Mac) (p : Packet) : Packet :=
  let payload := decrementTtl p.payload
  let payload := etherDhost.set payload mac
  { p with payload := etherShost.set payload (cfg.interfaceMac bestRoute.interface) }

/-- The first loop of the ARP reply branch: the storage, `q2`, and what is sent. -/
def drain (cfg : Config) (ip : BitVec 32) (mac : Mac) :
    List Ref → (Ref → Packet) → Option ((Ref → Packet) × List Ref × List Sent)
  | [], mem => some (mem, [], [])
  | r :: q, mem =>
    match getBestRoute cfg.rtable (daddr.get (mem r).payload) with
    | none => none
    | some bestRoute =>
      if bestRoute.nextHop ≠ ip then
        (drain cfg ip mac q mem).map fun (mem, q2, out) => (mem, r :: q2, out)
      else
        let p := release cfg bestRoute mac (mem r)
        (drain cfg ip mac q (update mem r p)).map fun (mem, q2, out) =>
          (mem, q2, ⟨.forward, bestRoute.interface, p⟩ :: out)

/-- ARP reply.  The second loop refills `q` through the local `firstPacket`. -/
def onArpReply (cfg : Config) (s : State) : Option (State × List Sent) :=
  let newArp : ArpEntry := ⟨spa.get s.m.payload, sha.get s.m.payload⟩
  if s.arpTable.length < ARP_TABLE_SIZE then
    (drain cfg newArp.ip newArp.mac s.q s.mem).map fun (mem, q2, out) =>
      let (mem, q) := funnel .firstPacket q2 mem
      ({ s with q := q, mem := mem, arpTable := s.arpTable ++ [newArp] }, out)
  else none

/-- ARP request. -/
def onArpRequest (cfg : Config) (s : State) : Option (State × List Sent) := do
  let payload := etherDhost.set s.m.payload (etherShost.get s.m.payload)
  let payload := etherShost.set payload (cfg.interfaceMac s.m.interface)
  let payload := etherType.set payload (htons ETHERTYPE_ARP)
  let ip ← ipToInt (getInterfaceIp cfg s.m.interface)
  some ({ s with m.payload := payload },
    [sendArp (spa.get payload) (Pcom.Lib.Ipv4.swapBytes ip) payload s.m.interface (htons ARPOP_REPLY)])

/-- The echo test: an ICMP echo request to the address of the receiving interface. -/
def ownEcho (cfg : Config) (m : Packet) : Option Bool :=
  if protocol.get m.payload = 1 then
    (inetAton (getInterfaceIp cfg m.interface)).map fun routerIp =>
      decide (icmpType.get m.payload = ICMP_ECHO ∧ routerIp = daddr.get m.payload)
  else some false

/-- The destination has no ARP entry: a copy waits, and the buffer becomes the header of a request. -/
def enqueue (cfg : Config) (s : State) (route : RouteTableEntry) : Option (State × List Sent) := do
  let buff : Ref := .heap s.brk
  let payload := etherShost.set s.m.payload (cfg.interfaceMac route.interface)
  let payload := etherDhost.set payload (Vector.replicate 6 0xff)
  let payload := etherType.set payload 1544
  let x ← inetAton (getInterfaceIp cfg route.interface)
  some ({ s with m.payload := payload, q := s.q ++ [buff], mem := update s.mem buff s.m, brk := s.brk + 1 },
    [sendArp route.nextHop x payload route.interface (htons ARPOP_REQUEST)])

/-- The destination has an ARP entry: sent at once, with the destination MAC rewritten. -/
def forward (s : State) (route : RouteTableEntry) (arpX : ArpEntry) : State × List Sent :=
  let m : Packet := { s.m with payload := etherDhost.set (decrementTtl s.m.payload) arpX.mac }
  ({ s with m := m }, [⟨.forward, route.interface, m⟩])

/-- IPv4. -/
def onIpv4 (cfg : Config) (s : State) : Option (State × List Sent) :=
  let route := getBestRoute cfg.rtable (daddr.get s.m.payload)
  let currSum := check.get s.m.payload
  let payload := check.set s.m.payload 0
  let s := { s with m.payload := payload }
  let newSum := headerChecksum payload
  let icmpError (type : UInt8) : Sent :=
    sendIcmpError (saddr.get payload) (daddr.get payload) (etherDhost.get payload) (etherShost.get payload)
      type ICMP_NET_UNREACH s.m.interface
  if newSum ≠ currSum then some (s, [])
  else if ttl.get payload ≤ 1 then some (s, [icmpError ICMP_TIME_EXCEEDED])
  else
    match route with
    | none => some (s, [icmpError ICMP_DEST_UNREACH])
    | some route =>
      match ownEcho cfg s.m with
      | none => none
      | some true =>
        some (s, [sendIcmp (saddr.get payload) (daddr.get payload) (etherDhost.get payload)
          (etherShost.get payload) 0 0 s.m.interface ((htons (cfg.pid.setWidth 16)).setWidth 32) 0])
      | some false =>
        match getArpEntry s.arpTable (daddr.get payload) with
        | none => enqueue cfg s route
        | some arpX => some (forward s route arpX)

/-- The loop body. -/
def step (cfg : Config) (s : State) (i : Input) : Option (State × List Sent) :=
  let s := getPacket s i
  if etherType.get s.m.payload = htons ETHERTYPE_ARP then
    if op.get s.m.payload = htons ARPOP_REQUEST then onArpRequest cfg s else onArpReply cfg s
  else if etherType.get s.m.payload = htons ETHERTYPE_IP then onIpv4 cfg s
  else some (s, [])

/-! ### Header fields across the rewritings -/

/-- What the checksum field held does not matter to the rewriting. -/
theorem decrementTtl_check (b : Buf) (x : BitVec 16) : decrementTtl (check.set b x) = decrementTtl b := by
  have httl : ttl.get (check.set b x) = ttl.get b := ByteField.get_set_of_apart (by decide)
  have hzero (t : UInt8) : check.set (ttl.set (check.set b x) t) 0 = check.set (ttl.set b t) 0 := by
    funext i
    refine ByteField.set_congr fun hc => ByteField.set_congr fun _ => ByteField.set_of_not_covers hc
  simp only [decrementTtl, httl, hzero]

/-- The rewriting keeps every field apart from the two it sets. -/
theorem get_decrementTtl {α : Type*} {f : ByteField α} (httl : f.Apart ttl) (hcheck : f.Apart check)
    (b : Buf) : f.get (decrementTtl b) = f.get b := by
  rw [decrementTtl, ByteField.get_set_of_apart hcheck, ByteField.get_set_of_apart hcheck,
    ByteField.get_set_of_apart httl]

theorem ttl_decrementTtl (b : Buf) : ttl.get (decrementTtl b) = ttl.get b - 1 := by
  rw [decrementTtl, ByteField.get_set_of_apart (by decide), ByteField.get_set_of_apart (by decide),
    ByteField.get_set]

theorem decrementTtl_of_not_covers {b : Buf} {k : ℕ} (httl : ¬ ttl.Covers k) (hcheck : ¬ check.Covers k) :
    decrementTtl b k = b k := by
  rw [decrementTtl, ByteField.set_of_not_covers hcheck, ByteField.set_of_not_covers hcheck,
    ByteField.set_of_not_covers httl]

/-- A header is a matter of the bytes 14 to 33. -/
theorem headerChecksum_congr {b b' : Buf} (h : ∀ k, 14 ≤ k → k < 34 → b k = b' k) (x : BitVec 16) :
    headerChecksum (check.set b x) = headerChecksum (check.set b' x) :=
  congrArg (ipChecksum 18) (bytes_congr fun k hlo hhi => ByteField.set_congr fun _ => h k hlo hhi)

theorem check_congr {b b' : Buf} (h : ∀ k, 14 ≤ k → k < 34 → b k = b' k) : check.get b = check.get b' :=
  ByteField.get_congr fun k ⟨hlo, hhi⟩ => h k (le_trans (by decide) hlo) (lt_of_lt_of_le hhi (by decide))

theorem ttl_congr {b b' : Buf} (h : ∀ k, 14 ≤ k → k < 34 → b k = b' k) : ttl.get b = ttl.get b' :=
  ByteField.get_congr fun k ⟨hlo, hhi⟩ => h k (le_trans (by decide) hlo) (lt_of_lt_of_le hhi (by decide))

/-- The rewriting keeps buffers equal on a frame that holds the header. -/
theorem decrementTtl_congr {n : ℕ} (hn : 34 ≤ n) {b b' : Buf} (h : ∀ k < n, b k = b' k) :
    ∀ k < n, decrementTtl b k = decrementTtl b' k := by
  have hset (x : UInt8) : ∀ k < n, ttl.set b x k = ttl.set b' x k := fun k hk =>
    ByteField.set_congr fun _ => h k hk
  have hsum (x : UInt8) : headerChecksum (check.set (ttl.set b x) 0) =
      headerChecksum (check.set (ttl.set b' x) 0) :=
    headerChecksum_congr (fun k _ hk => hset x k (by omega)) 0
  have httl : ttl.get b = ttl.get b' := ttl_congr fun k _ hk => h k (by omega)
  intro k hk
  simp only [decrementTtl, httl, hsum]
  exact ByteField.set_congr fun _ => ByteField.set_congr fun _ => hset _ k hk

@[simp] theorem daddr_release (cfg : Config) (bestRoute : RouteTableEntry) (mac : Mac) (p : Packet) :
    daddr.get (release cfg bestRoute mac p).payload = daddr.get p.payload := by
  show daddr.get (etherShost.set (etherDhost.set (decrementTtl p.payload) mac) _) = _
  rw [ByteField.get_set_of_apart (by decide), ByteField.get_set_of_apart (by decide),
    get_decrementTtl (by decide) (by decide)]

theorem ownEcho_check (cfg : Config) (m : Packet) (x : BitVec 16) :
    ownEcho cfg { m with payload := check.set m.payload x } = ownEcho cfg m := by
  simp only [ownEcho, ByteField.get_set_of_apart (f := protocol) (g := check) (by decide),
    ByteField.get_set_of_apart (f := icmpType) (g := check) (by decide),
    ByteField.get_set_of_apart (f := daddr) (g := check) (by decide)]

/-! ### The queue drained -/

/-- What the drain does with one packet: nothing, or rewrite it and send it. -/
def serve (cfg : Config) (ip : BitVec 32) (mac : Mac) (p : Packet) : Option (Packet × Sent) :=
  match getBestRoute cfg.rtable (daddr.get p.payload) with
  | none => none
  | some bestRoute =>
    if bestRoute.nextHop = ip then
      some (release cfg bestRoute mac p, ⟨.forward, bestRoute.interface, release cfg bestRoute mac p⟩)
    else none

/-- The packet has a route. -/
def Routed (cfg : Config) (p : Packet) : Prop :=
  (getBestRoute cfg.rtable (daddr.get p.payload)).isSome

instance (cfg : Config) (p : Packet) : Decidable (Routed cfg p) := inferInstanceAs (Decidable (_ = _))

theorem serve_eq_some {cfg : Config} {ip : BitVec 32} {mac : Mac} {p p' : Packet} {o : Sent} :
    serve cfg ip mac p = some (p', o) ↔ ∃ bestRoute,
      getBestRoute cfg.rtable (daddr.get p.payload) = some bestRoute ∧ bestRoute.nextHop = ip ∧
        p' = release cfg bestRoute mac p ∧ o = ⟨.forward, bestRoute.interface, p'⟩ := by
  rw [serve]
  cases getBestRoute cfg.rtable (daddr.get p.payload) with
  | none => simp
  | some bestRoute =>
    by_cases h : bestRoute.nextHop = ip
    · simp only [h, if_true, Option.some.injEq, Prod.mk.injEq, exists_eq_left', true_and]
      constructor
      · rintro ⟨rfl, rfl⟩; exact ⟨rfl, rfl⟩
      · rintro ⟨rfl, rfl⟩; exact ⟨rfl, rfl⟩
    · simp [h]

theorem routed_release {cfg : Config} {bestRoute : RouteTableEntry} {mac : Mac} {p : Packet} :
    Routed cfg (release cfg bestRoute mac p) ↔ Routed cfg p := by
  rw [Routed, daddr_release, Routed]

theorem serve_stable (cfg : Config) (ip : BitVec 32) (mac : Mac) : Stable (serve cfg ip mac) := by
  intro p p' o h
  obtain ⟨bestRoute, hroute, hnext, rfl, -⟩ := serve_eq_some.mp h
  rw [Option.isSome_iff_exists]
  refine ⟨(_, _), serve_eq_some.mpr ⟨bestRoute, ?_, hnext, rfl, rfl⟩⟩
  rw [daddr_release, hroute]

/-- A computation defined on a condition, with a continuation. -/
theorem map_eq_some_of_iff {α β : Type*} {x : Option α} {y : α} {P : Prop}
    (h : ∀ z, x = some z ↔ P ∧ z = y) {g : α → β} {w : β} : x.map g = some w ↔ P ∧ w = g y := by
  rw [Option.map_eq_some_iff]
  constructor
  · intro ⟨z, hz, hw⟩
    obtain ⟨hP, rfl⟩ := (h z).mp hz
    exact ⟨hP, hw.symm⟩
  · intro ⟨hP, hw⟩
    exact ⟨y, (h y).mpr ⟨hP, rfl⟩, hw.symm⟩

/-- **The drain is a sweep of the queue**, as long as every packet in it has a route; it is undefined
otherwise. -/
theorem drain_eq_some {cfg : Config} {ip : BitVec 32} {mac : Mac} {q : List Ref} {mem : Ref → Packet}
    {res : (Ref → Packet) × List Ref × List Sent} : drain cfg ip mac q mem = some res ↔
      (∀ r ∈ q, Routed cfg (mem r)) ∧ res = sweep (serve cfg ip mac) q mem := by
  induction q generalizing mem res with
  | nil => simp [drain, sweep, eq_comm]
  | cons r q ih =>
    rw [drain, sweep, List.forall_mem_cons]
    cases hroute : getBestRoute cfg.rtable (daddr.get (mem r).payload) with
    | none => simp [Routed, hroute]
    | some bestRoute =>
      have hr : Routed cfg (mem r) := by rw [Routed, hroute]; rfl
      by_cases hnext : bestRoute.nextHop = ip
      · have hserve : serve cfg ip mac (mem r) = some (release cfg bestRoute mac (mem r),
            ⟨.forward, bestRoute.interface, release cfg bestRoute mac (mem r)⟩) :=
          serve_eq_some.mpr ⟨bestRoute, hroute, hnext, rfl, rfl⟩
        have hrouted : ∀ r', Routed cfg (update mem r (release cfg bestRoute mac (mem r)) r') ↔
            Routed cfg (mem r') := by
          intro r'
          by_cases h : r' = r
          · subst h; rw [update_self, routed_release]
          · rw [update_of_ne h]
        dsimp only
        rw [if_neg (not_not.mpr hnext), map_eq_some_of_iff (fun _ => ih), hserve]
        simp only [hrouted, hr, true_and]
      · have hserve : serve cfg ip mac (mem r) = none := by
          rw [serve, hroute]; exact if_neg hnext
        dsimp only
        rw [if_pos hnext, map_eq_some_of_iff (fun _ => ih), hserve]
        simp only [hr, true_and]

/-! ### Everything a step can do -/

/-- The entry an ARP reply in the buffer announces. -/
def announced (s : State) : Option ArpEntry :=
  if etherType.get s.m.payload = htons ETHERTYPE_ARP ∧ op.get s.m.payload ≠ htons ARPOP_REQUEST then
    some ⟨spa.get s.m.payload, sha.get s.m.payload⟩
  else none

/-- The header passes the tests in front of forwarding. -/
structure Accepted (payload : Buf) : Prop where
  checksum : headerChecksum (check.set payload 0) = check.get payload
  ttl : 1 < ttl.get payload

instance (payload : Buf) : Decidable (Accepted payload) :=
  decidable_of_iff (headerChecksum (check.set payload 0) = check.get payload ∧ 1 < ttl.get payload)
    ⟨fun ⟨h, h'⟩ => ⟨h, h'⟩, fun ⟨h, h'⟩ => ⟨h, h'⟩⟩

/-- The route and the ARP entry of a frame that is forwarded at once. -/
def forwardsAtOnce (cfg : Config) (s : State) : Option (RouteTableEntry × ArpEntry) :=
  if etherType.get s.m.payload = htons ETHERTYPE_IP ∧ Accepted s.m.payload ∧
      ownEcho cfg s.m = some false then do
    let route ← getBestRoute cfg.rtable (daddr.get s.m.payload)
    let arpX ← getArpEntry s.arpTable (daddr.get s.m.payload)
    some (route, arpX)
  else none

/-- The sweep of the queue for a reply: the storage, the references kept, what is sent. -/
def swept (cfg : Config) (s : State) (a : ArpEntry) : (Ref → Packet) × List Ref × List Sent :=
  sweep (serve cfg a.ip a.mac) s.q s.mem

/-- The state after a reply. -/
def afterReply (cfg : Config) (s : State) (a : ArpEntry) : State :=
  let refilled := funnel .firstPacket (swept cfg s a).2.1 (swept cfg s a).1
  { s with q := refilled.2, mem := refilled.1, arpTable := s.arpTable ++ [a] }

/-- The outcomes of a step, from the state in which the frame has been read. -/
inductive Effect (cfg : Config) (s : State) : State → List Sent → Prop
  /-- Nothing but the buffer changes, and nothing is forwarded. -/
  | quiet (payload : Buf) {out : List Sent} : announced s = none → forwardsAtOnce cfg s = none →
      (∀ o ∈ out, o.origin ≠ .forward) → Effect cfg s { s with m.payload := payload } out
  /-- A copy of the frame, with its checksum zeroed, waits in fresh storage. -/
  | queued (payload : Buf) {o : Sent} : announced s = none → forwardsAtOnce cfg s = none →
      Accepted s.m.payload → o.origin ≠ .forward →
      Effect cfg s { s with
        m.payload := payload
        q := s.q ++ [.heap s.brk]
        mem := update s.mem (.heap s.brk) { s.m with payload := check.set s.m.payload 0 }
        brk := s.brk + 1 } [o]
  /-- The frame is forwarded at once. -/
  | direct (route : RouteTableEntry) (arpX : ArpEntry) (payload : Buf) : announced s = none →
      forwardsAtOnce cfg s = some (route, arpX) → payload = etherDhost.set (decrementTtl s.m.payload) arpX.mac →
      Effect cfg s { s with m.payload := payload }
        [⟨.forward, route.interface, { s.m with payload := payload }⟩]
  /-- A reply is noted and the queue is swept; what it keeps is copied through `firstPacket`. -/
  | reply (a : ArpEntry) : announced s = some a → forwardsAtOnce cfg s = none →
      s.arpTable.length < ARP_TABLE_SIZE → (∀ r ∈ s.q, Routed cfg (s.mem r)) →
      Effect cfg s (afterReply cfg s a) (swept cfg s a).2.2

theorem announced_eq_some {s : State} {a : ArpEntry} : announced s = some a ↔
    etherType.get s.m.payload = htons ETHERTYPE_ARP ∧ op.get s.m.payload ≠ htons ARPOP_REQUEST ∧
      (⟨spa.get s.m.payload, sha.get s.m.payload⟩ : ArpEntry) = a := by
  rw [announced, Option.ite_none_right_eq_some, Option.some.injEq, and_assoc]

theorem announced_of_ipv4 {s : State} (h : etherType.get s.m.payload = htons ETHERTYPE_IP) :
    announced s = none := by
  rw [announced, h, if_neg]
  rintro ⟨h', -⟩
  exact absurd h' (by decide)

theorem forwardsAtOnce_of_arp {cfg : Config} {s : State}
    (h : etherType.get s.m.payload = htons ETHERTYPE_ARP) : forwardsAtOnce cfg s = none := by
  rw [forwardsAtOnce, h, if_neg]
  rintro ⟨h', -⟩
  exact absurd h' (by decide)

theorem forwardsAtOnce_eq_some {cfg : Config} {s : State} {route : RouteTableEntry} {arpX : ArpEntry}
    (h : forwardsAtOnce cfg s = some (route, arpX)) : Accepted s.m.payload ∧
      getBestRoute cfg.rtable (daddr.get s.m.payload) = some route ∧
        getArpEntry s.arpTable (daddr.get s.m.payload) = some arpX := by
  rw [forwardsAtOnce, Option.ite_none_right_eq_some] at h
  obtain ⟨⟨-, hacc, -⟩, h⟩ := h
  simp only [Option.bind_eq_bind, Option.bind_eq_some_iff, Option.some.injEq, Prod.mk.injEq] at h
  obtain ⟨_, hroute, _, harp, rfl, rfl⟩ := h
  exact ⟨hacc, hroute, harp⟩

theorem enqueue_eq_some {cfg : Config} {s s' : State} {route : RouteTableEntry} {out : List Sent}
    (h : enqueue cfg s route = some (s', out)) : ∃ payload o, o.origin ≠ .forward ∧ out = [o] ∧
      s' = { s with
        m.payload := payload
        q := s.q ++ [.heap s.brk]
        mem := update s.mem (.heap s.brk) s.m
        brk := s.brk + 1 } := by
  simp only [enqueue, Option.bind_eq_bind, Option.bind_eq_some_iff, Option.some.injEq,
    Prod.mk.injEq] at h
  obtain ⟨x, -, rfl, rfl⟩ := h
  exact ⟨_, _, by rintro ⟨⟩, rfl, rfl⟩

theorem onIpv4_effect {cfg : Config} {s s' : State} {out : List Sent}
    (htype : etherType.get s.m.payload = htons ETHERTYPE_IP) (h : onIpv4 cfg s = some (s', out)) :
    Effect cfg s s' out := by
  have hann := announced_of_ipv4 htype
  simp only [onIpv4, ByteField.get_set_of_apart (f := ttl) (g := check) (by decide),
    ByteField.get_set_of_apart (f := daddr) (g := check) (by decide), ownEcho_check] at h
  -- a frame that is not forwarded at once leaves the queue alone, whatever is answered
  have hquiet {out' : List Sent} (hfwd : forwardsAtOnce cfg s = none)
      (hout : ∀ o ∈ out', o.origin ≠ .forward)
      (h : some ({ s with m.payload := check.set s.m.payload 0 }, out') = some (s', out)) :
      Effect cfg s s' out := by
    obtain ⟨rfl, rfl⟩ := Prod.mk.inj (Option.some.inj h)
    exact .quiet _ hann hfwd hout
  by_cases hsum : headerChecksum (check.set s.m.payload 0) = check.get s.m.payload
  swap
  · rw [if_pos hsum] at h
    exact hquiet (if_neg fun hc => hsum hc.2.1.checksum) (by simp) h
  rw [if_neg (not_not.mpr hsum)] at h
  by_cases httl : ttl.get s.m.payload ≤ 1
  · rw [if_pos httl] at h
    refine hquiet (if_neg fun hc => ?_) (by simp [sendIcmpError, sendIcmp]) h
    exact absurd hc.2.1.ttl (UInt8.not_lt.mpr httl)
  rw [if_neg httl] at h
  have hacc : Accepted s.m.payload := ⟨hsum, UInt8.not_le.mp httl⟩
  cases hroute : getBestRoute cfg.rtable (daddr.get s.m.payload) with
  | none =>
    rw [hroute] at h
    refine hquiet ?_ (by simp [sendIcmpError, sendIcmp]) h
    simp [forwardsAtOnce, hroute]
  | some route =>
    simp only [hroute] at h
    cases hecho : ownEcho cfg s.m with
    | none => rw [hecho] at h; cases h
    | some own =>
      rw [hecho] at h
      cases own with
      | true =>
        refine hquiet (if_neg fun hc => ?_) (by simp [sendIcmp]) h
        rw [hecho] at hc
        exact absurd hc.2.2 (by simp)
      | false =>
        cases harp : getArpEntry s.arpTable (daddr.get s.m.payload) with
        | none =>
          simp only [harp] at h
          obtain ⟨payload, o, ho, rfl, rfl⟩ := enqueue_eq_some h
          refine .queued payload hann ?_ hacc ho
          simp [forwardsAtOnce, harp]
        | some arpX =>
          simp only [harp, Option.some.injEq, forward, Prod.mk.injEq, decrementTtl_check] at h
          obtain ⟨rfl, rfl⟩ := h
          refine .direct route arpX _ hann ?_ rfl
          simp [forwardsAtOnce, htype, hacc, hecho, hroute, harp]

/-- A reply is processed exactly when the table has room and no queued packet is without a route. -/
theorem step_of_reply {cfg : Config} {s : State} {i : Input} {a : ArpEntry}
    (ha : announced (getPacket s i) = some a) {res : State × List Sent} :
    step cfg s i = some res ↔ s.arpTable.length < ARP_TABLE_SIZE ∧
      (∀ r ∈ s.q, Routed cfg ((getPacket s i).mem r)) ∧
        res = (afterReply cfg (getPacket s i) a, (swept cfg (getPacket s i) a).2.2) := by
  obtain ⟨harp, hop, rfl⟩ := announced_eq_some.mp ha
  simp only [step, if_pos harp, if_neg hop, onArpReply]
  show (if s.arpTable.length < ARP_TABLE_SIZE then _ else none) = some res ↔ _
  by_cases hroom : s.arpTable.length < ARP_TABLE_SIZE
  · rw [if_pos hroom, map_eq_some_of_iff (fun _ => drain_eq_some)]
    exact (and_iff_right hroom).symm
  · simp [hroom]

/-- A frame that is no ARP reply: which branch it takes. -/
theorem step_of_none {cfg : Config} {s s' : State} {i : Input} {out : List Sent}
    (ha : announced (getPacket s i) = none) (h : step cfg s i = some (s', out)) :
    (etherType.get (getPacket s i).m.payload = htons ETHERTYPE_ARP ∧
      onArpRequest cfg (getPacket s i) = some (s', out)) ∨
    (etherType.get (getPacket s i).m.payload = htons ETHERTYPE_IP ∧
      onIpv4 cfg (getPacket s i) = some (s', out)) ∨
    (etherType.get (getPacket s i).m.payload ≠ htons ETHERTYPE_IP ∧ s' = getPacket s i ∧ out = []) := by
  simp only [step] at h
  by_cases harp : etherType.get (getPacket s i).m.payload = htons ETHERTYPE_ARP
  · have hop : op.get (getPacket s i).m.payload = htons ARPOP_REQUEST := by
      by_contra hop
      rw [announced, if_pos ⟨harp, hop⟩] at ha
      cases ha
    rw [if_pos harp, if_pos hop] at h
    exact .inl ⟨harp, h⟩
  · rw [if_neg harp] at h
    by_cases hip : etherType.get (getPacket s i).m.payload = htons ETHERTYPE_IP
    · rw [if_pos hip] at h
      exact .inr (.inl ⟨hip, h⟩)
    · rw [if_neg hip] at h
      obtain ⟨rfl, rfl⟩ := Prod.mk.inj (Option.some.inj h)
      exact .inr (.inr ⟨hip, rfl, rfl⟩)

/-- **Everything a step can do.** -/
theorem step_effect {cfg : Config} {s s' : State} {i : Input} {out : List Sent}
    (h : step cfg s i = some (s', out)) : Effect cfg (getPacket s i) s' out := by
  cases ha : announced (getPacket s i) with
  | some a =>
    obtain ⟨hroom, hrouted, heq⟩ := (step_of_reply ha).mp h
    obtain ⟨rfl, rfl⟩ := Prod.mk.inj heq
    exact .reply a ha (forwardsAtOnce_of_arp (announced_eq_some.mp ha).1) hroom hrouted
  | none =>
    obtain ⟨harp, h⟩ | ⟨hip, h⟩ | ⟨hip, rfl, rfl⟩ := step_of_none ha h
    · simp only [onArpRequest, Option.bind_eq_bind, Option.bind_eq_some_iff, Option.some.injEq,
        Prod.mk.injEq] at h
      obtain ⟨ip, -, rfl, rfl⟩ := h
      exact .quiet _ ha (forwardsAtOnce_of_arp harp) (by simp [sendArp])
    · exact onIpv4_effect hip h
    · exact .quiet _ ha (if_neg fun hc => hip hc.1) (by simp)

/-! ### A sample network -/

/-- Two networks behind two gateways: `10.0.0.0/8` via `10.0.0.1` and `20.0.0.0/8` via `20.0.0.1`. -/
def sampleConfig : Config where
  rtable := [⟨0x14, 0x01000014, 0xff, 2⟩, ⟨0x0a, 0x0100000a, 0xff, 1⟩]
  interfaceMac i := Vector.replicate 6 (0xa0 + i.toNat.toUInt8)
  interfaceIp i := BitVec.ofNat 32 (i.toNat + 1)
  pid := 1

/-- A correct IPv4 frame without payload, from `30.0.0.1`, with TTL 64. -/
def sampleFrame (dest : BitVec 32) : Bytes :=
  let header (sum : BitVec 16) : Bytes := [0x45, 0] ++ word (htons 20) ++ word (htons 1) ++
    word (0 : BitVec 16) ++ [64, 17] ++ word sum ++ word (0x0100001e : BitVec 32) ++ word dest
  buildEthhdr (Vector.replicate 6 0x30) (Vector.replicate 6 0xa0) (htons ETHERTYPE_IP) ++
    header (ipChecksum 18 (header 0))

/-- An ARP reply. -/
def sampleReply (sender : BitVec 32) (mac : Mac) : Bytes :=
  buildEthhdr mac (Vector.replicate 6 0xa1) (htons ETHERTYPE_ARP) ++ word (htons ARPHRD_ETHER) ++
    word (htons 2048) ++ [6, 4] ++ word (htons ARPOP_REPLY) ++ mac.toList ++ word sender ++
    List.replicate 10 0

/-- An uninitialised packet. -/
def blank : Packet := ⟨0, fun _ => 0, 0⟩

/-- Before the first frame. -/
def sampleInit : State := init blank fun _ => blank

end Pcom.Tema1.Router
