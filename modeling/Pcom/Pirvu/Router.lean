import Pcom.Lib.StepSystem
import Pcom.Pirvu.RTable
import Pcom.Tema1.Router

/-!
# The main loop of the trie router

One turn of the loop of `pc pirvu/router.cpp` is a step: a received frame, the state, and the calls of
`send_packet`.  `packet`, the headers, `ip_checksum` and the way a packet is rewritten for forwarding are the
ones of the other router and are taken from there.

The packets the router builds itself start from memory nobody has written: `new packet`, or a local
`packet`.  What that memory holds is an input of the step (`fresh`), and so is visible where it is sent.

* `step` — the loop body;
* `step_effect` — **everything a step can do**, from the state in which the frame has been read.

The texts printed for dropped packets are left out, and `inet_aton(get_interface_ip(i))` is the address of
the interface.
-/

namespace Pcom.Pirvu.Router

open Function Pcom.Lib.Memory Pcom.Lib.Scan Pcom.Lib.StepSystem Pcom.Pirvu.RTable
open Pcom.Tema1.Skel (MAX_LEN Mac Packet htons etherDhost etherShost etherType ttl protocol check saddr
  daddr icmpType op sha spa ETHERTYPE_IP ETHERTYPE_ARP ipChecksum)
open Pcom.Tema1.Router (headerChecksum decrementTtl decrementTtl_check get_decrementTtl
  ttl_decrementTtl)

/-! ### Headers -/

/-- The fields of `ether_arp` that only this router writes. -/
def arHrd : ByteField (BitVec 16) := le16 14
def arPro : ByteField (BitVec 16) := le16 16
def arHln : ByteField UInt8 := u8 18
def arPln : ByteField UInt8 := u8 19
def tha : ByteField Mac := raw 32 6
def tpa : ByteField (BitVec 32) := le32 38

/-- All of `ether_arp`. -/
def etherArp : ByteField (Vector UInt8 28) := raw 14 28

/-- The fields of `iphdr` that only this router writes; `version` and `ihl` share a byte. -/
def versionIhl : ByteField UInt8 := u8 14
def tos : ByteField UInt8 := u8 15
def totLen : ByteField (BitVec 16) := le16 16
def ipId : ByteField (BitVec 16) := le16 18
def fragOff : ByteField (BitVec 16) := le16 20

/-- The fields of `icmphdr` that only this router writes. -/
def icmpCode : ByteField UInt8 := u8 35
def icmpCheck : ByteField (BitVec 16) := le16 36
def echoId : ByteField (BitVec 16) := le16 38
def echoSequence : ByteField (BitVec 16) := le16 40

def ARP_REQUEST_CODE : BitVec 16 := 1
def ARP_REPLY_CODE : BitVec 16 := 2
def ARP_P_IP : BitVec 16 := 0x0800
def ARP_HW_ETHER : BitVec 16 := 1

/-! ### State and inputs -/

/-- What the router is started with: the routing table, and what the kernel answers about it. -/
structure Config where
  rtable : List Row
  interfaceMac : ℤ → Mac
  interfaceIp : ℤ → BitVec 32
  pid : BitVec 32

/-- `struct ARPEntry`. -/
structure ArpEntry where
  ip : BitVec 32
  mac : Mac
  deriving DecidableEq

/-- `ARPEntry()`. -/
def placeholder : ArpEntry := ⟨0, Vector.replicate 6 0⟩

/-- `unordered_map<uint32_t, ARPEntry> arpTable`. -/
abbrev ArpTable := BitVec 32 → Option ArpEntry

/-- `arpTable[ip]`: the entry, which is made if it does not exist, and the table after that. -/
def index (arpTable : ArpTable) (ip : BitVec 32) : ArpTable × ArpEntry :=
  match arpTable ip with
  | some entry => (arpTable, entry)
  | none => (update arpTable ip (some placeholder), placeholder)

/-- The variables that live across turns. -/
structure State where
  m : Packet
  q : List Packet
  arpTable : ArpTable

/-- A received frame, and what the storage of a packet made while it is handled holds. -/
structure Input where
  interface : ℤ
  frame : Bytes
  fresh : Buf

/-- The bytes `read` returns. -/
def Input.received (i : Input) : Bytes := i.frame.take MAX_LEN

/-- The state before the loop; `m` is uninitialised. -/
def init (m : Packet) : State := ⟨m, [], fun _ => none⟩

/-- `get_packet`: the frame is read over the start of the buffer that held the previous one. -/
def getPacket (s : State) (i : Input) : State :=
  { s with m := ⟨i.received.length, overwrite s.m.payload i.received, i.interface⟩ }

@[simp] theorem getPacket_q (s : State) (i : Input) : (getPacket s i).q = s.q := rfl

@[simp] theorem getPacket_arpTable (s : State) (i : Input) : (getPacket s i).arpTable = s.arpTable := rfl

/-- The frame alone, in a buffer that nothing was in before. -/
def packetOf (i : Input) : Packet := ⟨i.received.length, ofBytes i.received, i.interface⟩

/-- What the headers of a frame say is read from its own bytes as far as they go. -/
theorem get_getPacket {α : Type*} {f : ByteField α} {i : Input} (h : f.off + f.size ≤ i.received.length)
    (s : State) : f.get (getPacket s i).m.payload = f.get (packetOf i).payload :=
  ByteField.get_overwrite h

/-! ### Frames the router builds -/

/-- Which code called `send_packet`; the reply to an ARP request has two callers. -/
inductive Origin
  | forward
  | ownReply
  | proxyReply
  | arpRequest
  | icmp
  deriving DecidableEq

/-- A call of `send_packet`. -/
structure Sent where
  origin : Origin
  interface : ℤ
  packet : Packet

/-- `sendARPReply`: the packet is as long as the request. -/
def sendARPReply (origin : Origin) (arpRequest : Packet) (newMac : Mac) (fresh : Buf) : Sent :=
  let sent := etherDhost.set fresh (etherShost.get arpRequest.payload)
  let sent := etherShost.set sent newMac
  let sent := etherType.set sent (etherType.get arpRequest.payload)
  let sent := etherArp.set sent (etherArp.get arpRequest.payload)
  let sent := op.set sent (htons ARP_REPLY_CODE)
  let sent := tpa.set sent (spa.get arpRequest.payload)
  let sent := tha.set sent (sha.get arpRequest.payload)
  let sent := spa.set sent (tpa.get arpRequest.payload)
  let sent := sha.set sent newMac
  ⟨origin, arpRequest.interface, ⟨arpRequest.len, sent, arpRequest.interface⟩⟩

/-- `sendARPRequest`. -/
def sendARPRequest (cfg : Config) (entry : RTableEntry) (dest : BitVec 32) (fresh : Buf) : Sent :=
  let sent := etherType.set fresh (htons ETHERTYPE_ARP)
  let sent := etherDhost.set sent (Vector.replicate 6 0xff)
  let sent := etherShost.set sent (cfg.interfaceMac entry.interface)
  let sent := arHrd.set sent (htons ARP_HW_ETHER)
  let sent := arPro.set sent (htons ARP_P_IP)
  let sent := arPln.set sent 4
  let sent := arHln.set sent 6
  let sent := op.set sent (htons ARP_REQUEST_CODE)
  let sent := spa.set sent (cfg.interfaceIp entry.interface)
  let sent := sha.set sent (cfg.interfaceMac entry.interface)
  let sent := tpa.set sent dest
  let sent := tha.set sent (Vector.replicate 6 0)
  ⟨.arpRequest, entry.interface, ⟨42, sent, entry.interface⟩⟩

/-- `ip_checksum(icmp_hdr, sizeof(icmphdr))`: the header starts 38 bytes into the packet. -/
def icmpHeaderChecksum (payload : Buf) : BitVec 16 := ipChecksum 38 (bytes payload 34 8)

/-- `sendICMPReply`: the received packet, rewritten in place. -/
def sendICMPReply (m : Packet) : Packet :=
  let payload := icmpType.set m.payload 0
  let payload := icmpCode.set payload 0
  let payload := saddr.set (daddr.set payload (saddr.get payload)) (daddr.get payload)
  let payload := ttl.set payload 64
  let payload := check.set payload 0
  let payload := check.set payload (headerChecksum payload)
  let payload := icmpCheck.set payload 0
  let payload := icmpCheck.set payload (icmpHeaderChecksum payload)
  { m with payload := payload }

/-- `sendICMPscratch`. -/
def sendICMPscratch (cfg : Config) (m : Packet) (type code : UInt8) (fresh : Buf) : Sent :=
  let sent := etherType.set fresh (htons ETHERTYPE_IP)
  let sent := etherDhost.set sent (etherShost.get m.payload)
  let sent := etherShost.set sent (etherDhost.get m.payload)
  let sent := versionIhl.set sent 0x45
  let sent := tos.set sent 0
  let sent := totLen.set sent (htons 28)
  let sent := ipId.set sent (htons (cfg.pid.setWidth 16))
  let sent := fragOff.set sent 0
  let sent := ttl.set sent 64
  let sent := protocol.set sent 1
  let sent := saddr.set sent (daddr.get m.payload)
  let sent := daddr.set sent (saddr.get m.payload)
  let sent := check.set sent 0
  let sent := check.set sent (headerChecksum sent)
  let sent := icmpCode.set sent code
  let sent := icmpType.set sent type
  let sent := echoId.set sent (htons (cfg.pid.setWidth 16))
  let sent := echoSequence.set sent 0
  let sent := icmpCheck.set sent 0
  let sent := icmpCheck.set sent (icmpHeaderChecksum sent)
  ⟨.icmp, m.interface, ⟨42, sent, m.interface⟩⟩

/-! ### The branches of the loop body -/

/-- The MAC an ARP request for `ip` on an interface is answered with, and by which call. -/
def answer (cfg : Config) (arpTable : ArpTable) (interface : ℤ) (ip : BitVec 32) :
    Option (Origin × Mac) :=
  if cfg.interfaceIp interface = ip then some (.ownReply, cfg.interfaceMac interface)
  else (arpTable ip).map fun entry => (.proxyReply, entry.mac)

/-- ARP request. -/
def onArpRequest (cfg : Config) (s : State) (fresh : Buf) : State × List Sent :=
  match answer cfg s.arpTable s.m.interface (tpa.get s.m.payload) with
  | none => (s, [])
  | some (origin, newMac) => (s, [sendARPReply origin s.m newMac fresh])

/-- A packet rewritten for forwarding to a MAC. -/
def rewrite (mac : Mac) (p : Packet) : Packet :=
  { p with payload := etherDhost.set (decrementTtl p.payload) mac }

/-- The loop that empties the queue. -/
def flush (cfg : Config) : List Packet → ArpTable → ArpTable × List Sent
  | [], arpTable => (arpTable, [])
  | currentPacket :: q, arpTable =>
    let (arpTable, entry) := index arpTable (daddr.get currentPacket.payload)
    let bestMatch := findBestEntry cfg.rtable (daddr.get currentPacket.payload)
    let (arpTable, out) := flush cfg q arpTable
    (arpTable, ⟨.forward, bestMatch.interface, rewrite entry.mac currentPacket⟩ :: out)

/-- ARP reply. -/
def onArpReply (cfg : Config) (s : State) : State × List Sent :=
  let newArpEntry : ArpEntry := ⟨spa.get s.m.payload, sha.get s.m.payload⟩
  let (arpTable, out) := flush cfg s.q (update s.arpTable newArpEntry.ip (some newArpEntry))
  ({ s with q := [], arpTable := arpTable }, out)

/-- The packet is an ICMP echo request for the address of the interface it came from. -/
def ownEcho (cfg : Config) (m : Packet) : Bool :=
  protocol.get m.payload = 1 ∧ icmpType.get m.payload = 8 ∧
    cfg.interfaceIp m.interface = daddr.get m.payload

/-- IPv4. -/
def onIpv4 (cfg : Config) (s : State) (fresh : Buf) : State × List Sent :=
  let bestMatch := findBestEntry cfg.rtable (daddr.get s.m.payload)
  let oldChecksum := check.get s.m.payload
  let s := { s with m.payload := check.set s.m.payload 0 }
  let dest := daddr.get s.m.payload
  if headerChecksum s.m.payload ≠ oldChecksum then (s, [])
  else if ttl.get s.m.payload < 1 then (s, [])
  else if ttl.get s.m.payload = 1 then (s, [sendICMPscratch cfg s.m 11 0 fresh])
  else if bestMatch.pfx = 0 then (s, [sendICMPscratch cfg s.m 3 0 fresh])
  else if ownEcho cfg s.m then
    let m := sendICMPReply s.m
    ({ s with m := m }, [⟨.icmp, m.interface, m⟩])
  else
    match s.arpTable dest with
    | none =>
      ({ s with q := s.q ++ [s.m], arpTable := update s.arpTable dest (some placeholder) },
        [sendARPRequest cfg bestMatch dest fresh])
    | some entry =>
      let m := rewrite entry.mac s.m
      ({ s with m := m }, [⟨.forward, bestMatch.interface, m⟩])

/-- The loop body, on a frame that has been read. -/
def handle (cfg : Config) (s : State) (fresh : Buf) : State × List Sent :=
  if etherType.get s.m.payload = htons ETHERTYPE_ARP then
    if op.get s.m.payload = htons ARP_REQUEST_CODE then onArpRequest cfg s fresh
    else if op.get s.m.payload = htons ARP_REPLY_CODE then onArpReply cfg s
    else (s, [])
  else if etherType.get s.m.payload = htons ETHERTYPE_IP then onIpv4 cfg s fresh
  else (s, [])

/-- One turn of the loop. -/
def step (cfg : Config) (s : State) (i : Input) : Option (State × List Sent) :=
  some (handle cfg (getPacket s i) i.fresh)

/-! ### Packets of the queue -/

/-- `arpTable[ip].mac`. -/
def macOf (arpTable : ArpTable) (ip : BitVec 32) : Mac := ((arpTable ip).getD placeholder).mac

theorem index_snd (arpTable : ArpTable) (ip : BitVec 32) :
    (index arpTable ip).2.mac = macOf arpTable ip := by
  unfold index macOf
  cases arpTable ip <;> rfl

/-- An entry that `arpTable[ip]` makes reads as the missing entry read before. -/
theorem macOf_index (arpTable : ArpTable) (ip ip' : BitVec 32) :
    macOf (index arpTable ip).1 ip' = macOf arpTable ip' := by
  cases h : arpTable ip with
  | some entry => rw [index, h]
  | none =>
    have hindex : (index arpTable ip).1 = update arpTable ip (some placeholder) := by rw [index, h]
    by_cases heq : ip' = ip
    · subst heq
      rw [macOf, macOf, hindex, update_self, h]
      rfl
    · rw [macOf, macOf, hindex, update_of_ne heq]

/-- The packet of the queue as it is sent. -/
def released (cfg : Config) (arpTable : ArpTable) (p : Packet) : Sent :=
  ⟨.forward, (findBestEntry cfg.rtable (daddr.get p.payload)).interface,
    rewrite (macOf arpTable (daddr.get p.payload)) p⟩

/-- **The flush sends every packet of the queue once**, in order, each to the MAC the table has for its
destination. -/
theorem flush_snd (cfg : Config) (q : List Packet) (arpTable : ArpTable) :
    (flush cfg q arpTable).2 = q.map (released cfg arpTable) := by
  induction q generalizing arpTable with
  | nil => rfl
  | cons p q ih =>
    simp only [flush, ih, List.map_cons, index_snd]
    refine congrArg _ (List.map_congr_left fun p' _ => ?_)
    rw [released, released, macOf_index]

/-- What the flush does to the table: destinations of queued packets that had no entry get a
placeholder. -/
theorem flush_fst (cfg : Config) (q : List Packet) (arpTable : ArpTable) (ip : BitVec 32) :
    (flush cfg q arpTable).1 ip = arpTable ip ∨
      (arpTable ip = none ∧ (flush cfg q arpTable).1 ip = some placeholder ∧
        ∃ p ∈ q, daddr.get p.payload = ip) := by
  induction q generalizing arpTable with
  | nil => exact Or.inl rfl
  | cons p q ih =>
    simp only [flush]
    have hindex : (index arpTable (daddr.get p.payload)).1 ip = arpTable ip ∨
        (arpTable ip = none ∧ (index arpTable (daddr.get p.payload)).1 ip = some placeholder ∧
          daddr.get p.payload = ip) := by
      unfold index
      cases h : arpTable (daddr.get p.payload) with
      | some entry => exact Or.inl rfl
      | none =>
        by_cases heq : ip = daddr.get p.payload
        · subst heq
          exact Or.inr ⟨h, update_self .., rfl⟩
        · exact Or.inl (update_of_ne heq ..)
    rcases ih (index arpTable (daddr.get p.payload)).1 with h | ⟨hnone, hsome, p', hp', hd⟩
    · rcases hindex with h' | ⟨hnone, hsome, hd⟩
      · exact Or.inl (h.trans h')
      · exact Or.inr ⟨hnone, h.trans hsome, p, List.mem_cons_self, hd⟩
    · rcases hindex with h' | ⟨hnone', hsome', -⟩
      · exact Or.inr ⟨h'.symm.trans hnone, hsome, p', List.mem_cons_of_mem _ hp', hd⟩
      · rw [hsome'] at hnone
        cases hnone

/-! ### Everything a step can do -/

/-- The packet in the buffer passes all tests in front of forwarding. -/
structure Accepts (cfg : Config) (m : Packet) : Prop where
  type : etherType.get m.payload = htons ETHERTYPE_IP
  checksum : headerChecksum (check.set m.payload 0) = check.get m.payload
  ttl : 1 < ttl.get m.payload
  routed : (findBestEntry cfg.rtable (daddr.get m.payload)).pfx ≠ 0
  notOurs : ownEcho cfg m = false

instance (cfg : Config) (m : Packet) : Decidable (Accepts cfg m) :=
  decidable_of_iff (etherType.get m.payload = htons ETHERTYPE_IP ∧
      headerChecksum (check.set m.payload 0) = check.get m.payload ∧ 1 < ttl.get m.payload ∧
      (findBestEntry cfg.rtable (daddr.get m.payload)).pfx ≠ 0 ∧ ownEcho cfg m = false)
    ⟨fun ⟨h₁, h₂, h₃, h₄, h₅⟩ => ⟨h₁, h₂, h₃, h₄, h₅⟩, fun ⟨h₁, h₂, h₃, h₄, h₅⟩ => ⟨h₁, h₂, h₃, h₄, h₅⟩⟩

/-- The packet in the buffer is read as an ARP request. -/
def IsRequest (m : Packet) : Prop :=
  etherType.get m.payload = htons ETHERTYPE_ARP ∧ op.get m.payload = htons ARP_REQUEST_CODE

instance (m : Packet) : Decidable (IsRequest m) := inferInstanceAs (Decidable (_ ∧ _))

/-- The packet in the buffer is read as an ARP reply. -/
def IsReply (m : Packet) : Prop :=
  etherType.get m.payload = htons ETHERTYPE_ARP ∧ op.get m.payload = htons ARP_REPLY_CODE

instance (m : Packet) : Decidable (IsReply m) := inferInstanceAs (Decidable (_ ∧ _))

/-- The packet in the buffer with its checksum zeroed. -/
def unchecked (m : Packet) : Packet := { m with payload := check.set m.payload 0 }

/-- The outcomes of a step, from the state in which the frame has been read. -/
inductive Effect (cfg : Config) (s : State) : State → List Sent → Prop
  /-- Nothing but the buffer changes; at most a frame about the router itself is sent. -/
  | quiet (payload : Buf) {out : List Sent} : ¬ Accepts cfg s.m → ¬ IsReply s.m →
      (∀ o ∈ out, o.origin = .ownReply ∨ o.origin = .icmp) →
      Effect cfg s { s with m.payload := payload } out
  /-- An ARP request for another host is answered from the table. -/
  | proxied (entry : ArpEntry) (fresh : Buf) : IsRequest s.m →
      cfg.interfaceIp s.m.interface ≠ tpa.get s.m.payload →
      s.arpTable (tpa.get s.m.payload) = some entry →
      Effect cfg s s [sendARPReply .proxyReply s.m entry.mac fresh]
  /-- A reply is noted and the queue is flushed. -/
  | reply : ¬ Accepts cfg s.m → IsReply s.m → Effect cfg s (onArpReply cfg s).1 (onArpReply cfg s).2
  /-- The packet waits, and its destination is asked for. -/
  | queued (fresh : Buf) : Accepts cfg s.m → ¬ IsReply s.m → s.arpTable (daddr.get s.m.payload) = none →
      Effect cfg s ⟨unchecked s.m, s.q ++ [unchecked s.m],
          update s.arpTable (daddr.get s.m.payload) (some placeholder)⟩
        [sendARPRequest cfg (findBestEntry cfg.rtable (daddr.get s.m.payload)) (daddr.get s.m.payload)
          fresh]
  /-- The packet is forwarded at once. -/
  | direct (entry : ArpEntry) : Accepts cfg s.m → ¬ IsReply s.m →
      s.arpTable (daddr.get s.m.payload) = some entry →
      Effect cfg s { s with m := rewrite entry.mac s.m }
        [⟨.forward, (findBestEntry cfg.rtable (daddr.get s.m.payload)).interface, rewrite entry.mac s.m⟩]

theorem not_accepts_of_arp {cfg : Config} {m : Packet}
    (h : etherType.get m.payload = htons ETHERTYPE_ARP) : ¬ Accepts cfg m := fun hc => by
  have htype := hc.type
  rw [h] at htype
  exact absurd htype (by decide)

theorem not_reply_of_ipv4 {m : Packet} (h : etherType.get m.payload = htons ETHERTYPE_IP) :
    ¬ IsReply m := fun hc => by
  have htype := hc.1
  rw [h] at htype
  exact absurd htype (by decide)

theorem daddr_unchecked (m : Packet) : daddr.get (unchecked m).payload = daddr.get m.payload :=
  ByteField.get_set_of_apart (by decide)

theorem ttl_unchecked (m : Packet) : ttl.get (unchecked m).payload = ttl.get m.payload :=
  ByteField.get_set_of_apart (by decide)

theorem ownEcho_unchecked (cfg : Config) (m : Packet) : ownEcho cfg (unchecked m) = ownEcho cfg m := by
  simp only [ownEcho, unchecked, ByteField.get_set_of_apart (f := protocol) (g := check) (by decide),
    ByteField.get_set_of_apart (f := icmpType) (g := check) (by decide),
    ByteField.get_set_of_apart (f := daddr) (g := check) (by decide)]

theorem rewrite_unchecked (mac : Mac) (m : Packet) : rewrite mac (unchecked m) = rewrite mac m := by
  rw [rewrite, rewrite, unchecked, decrementTtl_check]

theorem onIpv4_effect {cfg : Config} {s s' : State} {fresh : Buf} {out : List Sent}
    (htype : etherType.get s.m.payload = htons ETHERTYPE_IP)
    (h : onIpv4 cfg s fresh = (s', out)) : Effect cfg s s' out := by
  have hreply := not_reply_of_ipv4 htype
  have hquiet {out' : List Sent} (payload : Buf) (hacc : ¬ Accepts cfg s.m)
      (hout : ∀ o ∈ out', o.origin = .ownReply ∨ o.origin = .icmp)
      (h : (({ s with m.payload := payload } : State), out') = (s', out)) : Effect cfg s s' out := by
    obtain ⟨rfl, rfl⟩ := Prod.mk.inj h
    exact .quiet _ hacc hreply hout
  have httl' := ttl_unchecked s.m
  have hdaddr' := daddr_unchecked s.m
  have hecho' := ownEcho_unchecked cfg s.m
  simp only [unchecked] at httl' hdaddr' hecho'
  simp only [onIpv4, httl', hdaddr', hecho'] at h
  by_cases hsum : headerChecksum (check.set s.m.payload 0) = check.get s.m.payload
  swap
  · rw [if_pos hsum] at h
    exact hquiet _ (fun hc => hsum hc.checksum) (by simp) h
  rw [if_neg (not_not.mpr hsum)] at h
  by_cases hdead : ttl.get s.m.payload < 1
  · rw [if_pos hdead] at h
    refine hquiet _ (fun hc => ?_) (by simp) h
    exact absurd (UInt8.lt_trans hdead hc.ttl) (UInt8.lt_irrefl _)
  rw [if_neg hdead] at h
  by_cases hlast : ttl.get s.m.payload = 1
  · rw [if_pos hlast] at h
    refine hquiet _ (fun hc => ?_) (by simp [sendICMPscratch]) h
    exact absurd hc.ttl (by rw [hlast]; decide)
  rw [if_neg hlast] at h
  have httl : 1 < ttl.get s.m.payload := UInt8.lt_of_le_of_ne (UInt8.not_lt.mp hdead) (Ne.symm hlast)
  by_cases hroute : (findBestEntry cfg.rtable (daddr.get s.m.payload)).pfx = 0
  · rw [if_pos hroute] at h
    exact hquiet _ (fun hc => hc.routed hroute) (by simp [sendICMPscratch]) h
  rw [if_neg hroute] at h
  cases hecho : ownEcho cfg s.m with
  | true =>
    rw [hecho, if_pos rfl] at h
    refine hquiet (sendICMPReply (unchecked s.m)).payload (fun hc => ?_) (by simp) h
    exact absurd (hecho.symm.trans hc.notOurs) (by decide)
  | false =>
    rw [hecho, if_neg (by decide)] at h
    have hacc : Accepts cfg s.m := ⟨htype, hsum, httl, hroute, hecho⟩
    cases harp : s.arpTable (daddr.get s.m.payload) with
    | none =>
      simp only [harp] at h
      obtain ⟨rfl, rfl⟩ := Prod.mk.inj h
      exact .queued fresh hacc hreply harp
    | some entry =>
      have hrewrite := rewrite_unchecked entry.mac s.m
      simp only [unchecked] at hrewrite
      simp only [harp, hrewrite] at h
      obtain ⟨rfl, rfl⟩ := Prod.mk.inj h
      exact .direct entry hacc hreply harp

theorem onArpRequest_effect {cfg : Config} {s s' : State} {fresh : Buf} {out : List Sent}
    (hreq : IsRequest s.m) (h : onArpRequest cfg s fresh = (s', out)) : Effect cfg s s' out := by
  have hacc : ¬ Accepts cfg s.m := not_accepts_of_arp hreq.1
  have hreply : ¬ IsReply s.m := fun hc => absurd (hreq.2.symm.trans hc.2) (by decide)
  unfold onArpRequest answer at h
  by_cases hown : cfg.interfaceIp s.m.interface = tpa.get s.m.payload
  · rw [if_pos hown] at h
    obtain ⟨rfl, rfl⟩ := Prod.mk.inj h
    exact .quiet _ hacc hreply (by simp [sendARPReply])
  · rw [if_neg hown] at h
    cases harp : s.arpTable (tpa.get s.m.payload) with
    | none =>
      rw [harp] at h
      obtain ⟨rfl, rfl⟩ := Prod.mk.inj h
      exact .quiet _ hacc hreply (by simp)
    | some entry =>
      rw [harp] at h
      obtain ⟨rfl, rfl⟩ := Prod.mk.inj h
      exact .proxied entry fresh hreq hown harp

/-- **Everything a step can do.** -/
theorem handle_effect {cfg : Config} {s s' : State} {fresh : Buf} {out : List Sent}
    (h : handle cfg s fresh = (s', out)) : Effect cfg s s' out := by
  unfold handle at h
  by_cases harp : etherType.get s.m.payload = htons ETHERTYPE_ARP
  · have hacc : ¬ Accepts cfg s.m := not_accepts_of_arp harp
    rw [if_pos harp] at h
    by_cases hreq : op.get s.m.payload = htons ARP_REQUEST_CODE
    · rw [if_pos hreq] at h
      exact onArpRequest_effect ⟨harp, hreq⟩ h
    rw [if_neg hreq] at h
    by_cases hrep : op.get s.m.payload = htons ARP_REPLY_CODE
    · rw [if_pos hrep] at h
      obtain ⟨rfl, rfl⟩ : (onArpReply cfg s).1 = s' ∧ (onArpReply cfg s).2 = out := by simp [h]
      exact .reply hacc ⟨harp, hrep⟩
    · rw [if_neg hrep] at h
      obtain ⟨rfl, rfl⟩ := Prod.mk.inj h
      exact .quiet _ hacc (fun hc => hrep hc.2) (by simp)
  rw [if_neg harp] at h
  by_cases hip : etherType.get s.m.payload = htons ETHERTYPE_IP
  · rw [if_pos hip] at h
    exact onIpv4_effect hip h
  · rw [if_neg hip] at h
    obtain ⟨rfl, rfl⟩ := Prod.mk.inj h
    exact .quiet _ (fun hc => hip hc.type) (fun hc => harp hc.1) (by simp)

theorem step_effect {cfg : Config} {s s' : State} {i : Input} {out : List Sent}
    (h : step cfg s i = some (s', out)) : Effect cfg (getPacket s i) s' out :=
  handle_effect (Option.some.inj h)

/-! ### A sample network -/

/-- Two networks: `10.0.0.0/8` behind interface 1, where the router is `10.0.0.1`, and `20.0.0.0/8` behind
interface 2, where it is `20.0.0.1`. -/
def sampleConfig : Config where
  rtable := [⟨0x0a, 0x0100000a, 0xff, 1⟩, ⟨0x14, 0x01000014, 0xff, 2⟩]
  interfaceMac i := Vector.replicate 6 (0xa0 + i.toNat.toUInt8)
  interfaceIp i := if i = 1 then 0x0100000a else if i = 2 then 0x01000014 else 0x0100001e
  pid := 1

end Pcom.Pirvu.Router
