import Pcom.Tema1.Branches

/-!
# `traceroute` of `Lab05/icmp.c`

Each round sends an echo request with the current TTL, waits for a reply, counts the TTL up and prints the number
and the sender of the reply; the rounds go on while the reply is of type 11.  The TTL is an 8-bit counter that
starts at 2, and the number printed is the counter minus 1, as an `int`.

* `loop_eq_some`, `of_loop_eq_some` — what the rounds are: up to the first reply of another type;
* `path_trace` — **the rounds along a path**: TTL 2 and not TTL 1 comes first, and hop 255 is numbered -1;
* `traceroute_iff` — no path is visited from its first hop on, and **the exact condition** for the loop to end
  before the counter wraps: one of the first 253 replies is of another type.
-/

namespace Pcom.Lab05.Traceroute

open Pcom.Lib.Memory Pcom.Lib.Scan Pcom.Tema1.Branches Pcom.Tema1.Skel

/-- What the packets are made from: the addresses of the interface and of the gateway, the process id and the place
of the packet in memory. -/
structure Host where
  mac : Mac
  gateway : Mac
  ip : BitVec 32
  pid : BitVec 16
  payload : ℕ

/-- The packet sent with a TTL. -/
def probe (host : Host) (ipAddr : BitVec 32) (currentTTL : UInt8) : Bytes :=
  let ipHdr (check : BitVec 16) : Bytes :=
    [0x45, 0] ++ word (htons 28) ++ word (htons host.pid) ++ word (0 : BitVec 16) ++ [currentTTL, 1] ++
      word check ++ word host.ip ++ word ipAddr
  let icmpHdr (checksum : BitVec 16) : Bytes :=
    [8, 0] ++ word checksum ++ word (htons host.pid) ++ word (0 : BitVec 16)
  buildEthhdr host.mac host.gateway (htons ETHERTYPE_IP) ++ (ipHdr (ipChecksum (host.payload + 14) (ipHdr 0)) ++
    icmpHdr (ipChecksum (host.payload + 34) (icmpHdr 0)))

/-- A round: the packet sent, and what is printed of the reply. -/
structure Round where
  packet : Bytes
  hop : ℤ
  saddr : BitVec 32

/-- The text printed. -/
def Round.text (r : Round) : Bytes :=
  ascii "Hop " ++ printInt r.hop ++ ascii ": IP: " ++ decimal (byteOf r.saddr 3).toNat ++ ascii "." ++
    decimal (byteOf r.saddr 2).toNat ++ ascii "." ++ decimal (byteOf r.saddr 1).toNat ++ ascii "." ++
      decimal (byteOf r.saddr 0).toNat ++ ascii ";\n"

/-- The network: the reply buffer after `time_packet` has sent its packet for the `i`-th time. -/
abbrev Network := ℕ → Bytes → Buf

/-- A round with a TTL. -/
def round (host : Host) (ipAddr : BitVec 32) (network : Network) (i : ℕ) (currentTTL : UInt8) : Round :=
  ⟨probe host ipAddr currentTTL, ((currentTTL + 1).toNat : ℤ) - 1,
    saddr.get (network i (probe host ipAddr currentTTL))⟩

/-- The type of the reply. -/
def replyType (host : Host) (ipAddr : BitVec 32) (network : Network) (i : ℕ) (currentTTL : UInt8) : UInt8 :=
  icmpType.get (network i (probe host ipAddr currentTTL))

/-- The loop from its `i`-th round on, for a number of rounds: the rounds, and the counter after them. -/
def loop (host : Host) (ipAddr : BitVec 32) (network : Network) : ℕ → ℕ → UInt8 → Option (List Round × UInt8)
  | 0, _, _ => none
  | rounds + 1, i, currentTTL =>
    let r := round host ipAddr network i currentTTL
    if replyType host ipAddr network i currentTTL = 11 then
      (loop host ipAddr network rounds (i + 1) (currentTTL + 1)).map fun rest => (r :: rest.1, rest.2)
    else some ([r], currentTTL + 1)

/-- `traceroute`, ended after a number of rounds. -/
def traceroute (host : Host) (ipAddr : BitVec 32) (network : Network) (rounds : ℕ) : Option (List Round × UInt8) :=
  loop host ipAddr network rounds 0 2

/-! ### The rounds -/

variable {host : Host} {ipAddr : BitVec 32} {network : Network} {i : ℕ} {t : UInt8}

theorem ttl_probe (host : Host) (ipAddr : BitVec 32) (t : UInt8) : ttl.get (ofBytes (probe host ipAddr t)) = t := by
  show ofBytes (buildEthhdr host.mac host.gateway (htons ETHERTYPE_IP) ++ _) (14 + 8) = t
  rw [ofBytes_append (length_buildEthhdr ..)]
  rfl

theorem probe_inj {t t' : UInt8} (h : probe host ipAddr t = probe host ipAddr t') : t = t' := by
  rw [← ttl_probe host ipAddr t, h, ttl_probe]

theorem add_ofNat_succ (t : UInt8) (j : ℕ) : t + UInt8.ofNat (j + 1) = t + 1 + UInt8.ofNat j := by
  rw [Nat.add_comm, UInt8.ofNat_add, ← UInt8.add_assoc]
  rfl

/-- **The rounds up to the first reply of another type.** -/
theorem loop_eq_some {m rounds : ℕ} (hrounds : m < rounds)
    (hgo : ∀ j < m, replyType host ipAddr network (i + j) (t + UInt8.ofNat j) = 11)
    (hstop : replyType host ipAddr network (i + m) (t + UInt8.ofNat m) ≠ 11) :
    loop host ipAddr network rounds i t = some ((List.range (m + 1)).map fun j =>
      round host ipAddr network (i + j) (t + UInt8.ofNat j), t + UInt8.ofNat (m + 1)) := by
  induction m generalizing rounds i t with
  | zero =>
    obtain ⟨rounds, rfl⟩ := Nat.exists_eq_add_of_lt hrounds
    rw [Nat.zero_add, loop, if_neg (by simpa using hstop)]
    simp
  | succ m ih =>
    obtain ⟨rounds, rfl⟩ := Nat.exists_eq_add_of_lt hrounds
    have hfirst : replyType host ipAddr network i t = 11 := by simpa using hgo 0 (Nat.succ_pos m)
    have hrest := @ih (i + 1) (t + 1) (m + 1 + rounds) (by omega)
      (fun j hj => by
        rw [← add_ofNat_succ, Nat.add_right_comm]
        exact hgo (j + 1) (by omega))
      (by
        rw [← add_ofNat_succ, Nat.add_right_comm]
        exact hstop)
    have hcons : (List.range (m + 1 + 1)).map (fun j => round host ipAddr network (i + j) (t + UInt8.ofNat j)) =
        round host ipAddr network i t :: (List.range (m + 1)).map fun j =>
          round host ipAddr network (i + 1 + j) (t + 1 + UInt8.ofNat j) := by
      rw [List.range_succ_eq_map, List.map_cons, List.map_map]
      refine congrArg₂ List.cons (by simp) (List.map_congr_left fun j _ => ?_)
      show round host ipAddr network (i + (j + 1)) (t + UInt8.ofNat (j + 1)) = _
      rw [add_ofNat_succ, Nat.add_right_comm, Nat.add_assoc]
    rw [loop, if_pos hfirst, hrest, Option.map_some, hcons, add_ofNat_succ t (m + 1)]

/-- A loop that ends does so at the first reply of another type. -/
theorem of_loop_eq_some {rounds : ℕ} {rs : List Round} {last : UInt8}
    (h : loop host ipAddr network rounds i t = some (rs, last)) :
    ∃ m, replyType host ipAddr network (i + m) (t + UInt8.ofNat m) ≠ 11 ∧
      rs.head? = some (round host ipAddr network i t) ∧ rs.length = m + 1 ∧ last = t + UInt8.ofNat (m + 1) := by
  induction rounds generalizing i t rs last with
  | zero => cases h
  | succ rounds ih =>
    rw [loop] at h
    by_cases hgo : replyType host ipAddr network i t = 11
    · rw [if_pos hgo, Option.map_eq_some_iff] at h
      obtain ⟨⟨rest, last'⟩, hrest, heq⟩ := h
      obtain ⟨rfl, rfl⟩ := Prod.mk.inj heq
      obtain ⟨m, hstop, -, hlen, hlast⟩ := ih hrest
      refine ⟨m + 1, ?_, rfl, ?_, ?_⟩
      · rw [add_ofNat_succ, ← Nat.add_assoc, Nat.add_right_comm]
        exact hstop
      · rw [List.length_cons, hlen]
      · rw [hlast, add_ofNat_succ t (m + 1)]
    · rw [if_neg hgo] at h
      obtain ⟨rfl, rfl⟩ := Prod.mk.inj (Option.some.inj h)
      refine ⟨0, ?_, rfl, rfl, rfl⟩
      simpa using hgo

/-! ### Paths -/

/-- A path of `n` hops: a packet with TTL `k < n` is answered by hop `k` with type 11, one with TTL `n` or more by
the destination with another type. -/
structure Path (network : Network) (n : ℕ) (hop : ℕ → BitVec 32) (dest : BitVec 32) : Prop where
  exceeded : ∀ i frame, 1 ≤ (ttl.get (ofBytes frame)).toNat → (ttl.get (ofBytes frame)).toNat < n →
    icmpType.get (network i frame) = 11 ∧ saddr.get (network i frame) = hop (ttl.get (ofBytes frame)).toNat
  arrived : ∀ i frame, n ≤ (ttl.get (ofBytes frame)).toNat →
    icmpType.get (network i frame) ≠ 11 ∧ saddr.get (network i frame) = dest

/-- The hops are visited once, in order, each with its number, and the loop ends behind the last. -/
def Visits (host : Host) (ipAddr : BitVec 32) (network : Network) (n : ℕ) (hop : ℕ → BitVec 32) (dest : BitVec 32) :
    Prop :=
  ∃ rounds last, traceroute host ipAddr network rounds = some ((List.range n).map fun k =>
    ⟨probe host ipAddr (UInt8.ofNat (k + 1)), k + 1, if k + 1 < n then hop (k + 1) else dest⟩, last)

/-- **The rounds along a path**: they start with TTL 2, and the counter wraps at hop 255. -/
theorem path_trace {n : ℕ} {hop : ℕ → BitVec 32} {dest : BitVec 32} (hn : n ≤ 255)
    (hpath : Path network n hop dest) : ∃ rounds last, traceroute host ipAddr network rounds =
      some ((List.range (max n 2 - 1)).map fun k => ⟨probe host ipAddr (UInt8.ofNat (k + 2)),
        if k + 2 = 255 then -1 else k + 2, if k + 2 < n then hop (k + 2) else dest⟩, last) := by
  have httl (j : ℕ) (hj : j ≤ 253) : (ttl.get (ofBytes (probe host ipAddr (2 + UInt8.ofNat j)))).toNat = j + 2 := by
    have htwo : (2 : UInt8).toNat = 2 := rfl
    rw [ttl_probe, UInt8.toNat_add, UInt8.toNat_ofNat', htwo]
    omega
  have hrun := @loop_eq_some host ipAddr network 0 2 (max n 2 - 2) (max n 2 - 1) (by omega)
    (fun j hj => (hpath.exceeded _ _ (by rw [httl j (by omega)]; omega) (by rw [httl j (by omega)]; omega)).1)
    (hpath.arrived _ _ (by rw [httl _ (by omega)]; omega)).1
  rw [show max n 2 - 2 + 1 = max n 2 - 1 by omega] at hrun
  refine ⟨max n 2 - 1, _, hrun.trans (congrArg (fun rs => some (rs, _)) (List.map_congr_left fun j hj => ?_))⟩
  have hj' : j < max n 2 - 1 := List.mem_range.mp hj
  have hprobe : (2 : UInt8) + UInt8.ofNat j = UInt8.ofNat (j + 2) := by
    rw [UInt8.ofNat_add, UInt8.add_comm]
    rfl
  rw [round, ← hprobe, Round.mk.injEq]
  refine ⟨rfl, ?_, ?_⟩
  · have hnext : (2 + UInt8.ofNat j + 1 : UInt8).toNat = (j + 3) % 256 := by
      have htwo : (2 : UInt8).toNat = 2 := rfl
      have hone : (1 : UInt8).toNat = 1 := rfl
      rw [UInt8.toNat_add, UInt8.toNat_add, UInt8.toNat_ofNat', htwo, hone]
      omega
    rw [hnext]
    split
    · omega
    · omega
  · have hj2 := httl j (by omega)
    by_cases hlt : j + 2 < n
    · rw [if_pos hlt, (hpath.exceeded _ _ (by omega) (by omega)).2, hj2]
    · rw [if_neg hlt, (hpath.arrived _ _ (by omega)).2]

/-- The first packet has TTL 2, whatever the network. -/
theorem not_visits {n : ℕ} (hn : 1 ≤ n) (hop : ℕ → BitVec 32) (dest : BitVec 32) :
    ¬ Visits host ipAddr network n hop dest := by
  intro ⟨rounds, last, hrun⟩
  obtain ⟨m, -, hhead, -, -⟩ := of_loop_eq_some hrun
  obtain ⟨n, rfl⟩ := Nat.exists_eq_add_of_le' hn
  rw [List.range_succ_eq_map, List.map_cons, List.head?_cons, Option.some.injEq] at hhead
  have hfirst := probe_inj (congrArg Round.packet hhead)
  revert hfirst
  decide

/-! ### The counter -/

/-- The loop ends, and the counter has not wrapped around. -/
def EndsBeforeWrap (host : Host) (ipAddr : BitVec 32) (network : Network) : Prop :=
  ∃ rounds rs last, traceroute host ipAddr network rounds = some (rs, last) ∧ last.toNat = 2 + rs.length

/-- **When the loop ends in time.** -/
theorem endsBeforeWrap_iff (host : Host) (ipAddr : BitVec 32) (replies : ℕ → Buf) :
    EndsBeforeWrap host ipAddr (fun i _ => replies i) ↔ ∃ i < 253, icmpType.get (replies i) ≠ 11 := by
  have hcount (m : ℕ) : (2 + UInt8.ofNat (m + 1) : UInt8).toNat = (m + 3) % 256 := by
    have htwo : (2 : UInt8).toNat = 2 := rfl
    rw [UInt8.toNat_add, UInt8.toNat_ofNat', htwo]
    omega
  constructor
  · intro ⟨rounds, rs, last, hrun, hlast⟩
    obtain ⟨m, hstop, -, hlen, rfl⟩ := of_loop_eq_some hrun
    rw [hcount, hlen] at hlast
    rw [Nat.zero_add] at hstop
    exact ⟨m, by omega, hstop⟩
  · intro hex
    classical
    have hfirst := Nat.find_spec hex
    have hrun := @loop_eq_some host ipAddr (fun i _ => replies i) 0 2 (Nat.find hex) _ (Nat.lt_succ_self _)
      (fun j hj => by
        by_contra hne
        rw [Nat.zero_add] at hne
        exact Nat.find_min hex hj ⟨by omega, hne⟩)
      (by
        rw [Nat.zero_add]
        exact hfirst.2)
    refine ⟨_, _, _, hrun, ?_⟩
    rw [hcount, List.length_map, List.length_range]
    omega

/-- **What `traceroute` does of what it is for**: no path is visited from its first hop on, and the loop ends in
time when one of the first 253 replies is of another type. -/
theorem traceroute_iff (host : Host) (ipAddr : BitVec 32) :
    (∀ network n hop dest, 1 ≤ n → n ≤ 255 → Path network n hop dest →
      ¬ Visits host ipAddr network n hop dest) ∧
    ∀ replies : ℕ → Buf, EndsBeforeWrap host ipAddr (fun i _ => replies i) ↔
      ∃ i < 253, icmpType.get (replies i) ≠ 11 :=
  ⟨fun _ _ hop dest hn _ _ => not_visits hn hop dest, endsBeforeWrap_iff host ipAddr⟩

/-! ### Networks that are paths -/

/-- A reply of a type from an address. -/
def answer (type : UInt8) (addr : BitVec 32) : Buf := saddr.set (icmpType.set (fun _ => 0) type) addr

/-- The network that is a path. -/
def pathNetwork (n : ℕ) (hop : ℕ → BitVec 32) (dest : BitVec 32) : Network := fun _ frame =>
  if (ttl.get (ofBytes frame)).toNat < n then answer 11 (hop (ttl.get (ofBytes frame)).toNat) else answer 0 dest

theorem icmpType_answer (type : UInt8) (addr : BitVec 32) : icmpType.get (answer type addr) = type := by
  rw [answer, ByteField.get_set_of_apart (by decide), ByteField.get_set]

theorem saddr_answer (type : UInt8) (addr : BitVec 32) : saddr.get (answer type addr) = addr :=
  ByteField.get_set ..

theorem path_pathNetwork (n : ℕ) (hop : ℕ → BitVec 32) (dest : BitVec 32) :
    Path (pathNetwork n hop dest) n hop dest where
  exceeded := fun i frame _ hlt => by
    rw [pathNetwork, if_pos hlt]
    exact ⟨icmpType_answer .., saddr_answer ..⟩
  arrived := fun i frame hle => by
    rw [pathNetwork, if_neg (Nat.not_lt.mpr hle), icmpType_answer, saddr_answer]
    exact ⟨by decide, rfl⟩

def sampleHost : Host where
  mac := Vector.replicate 6 1
  gateway := Vector.replicate 6 2
  ip := 0x0200000A
  pid := 77
  payload := 64

/-- Three hops, and a destination that answers at once. -/
theorem three_hops_not_visited :
    ¬ Visits sampleHost 0x08080808 (pathNetwork 3 (BitVec.ofNat 32) 0x08080808) 3 (BitVec.ofNat 32) 0x08080808 ∧
      EndsBeforeWrap sampleHost 0x08080808 fun _ _ => answer 0 0x08080808 :=
  ⟨(traceroute_iff sampleHost 0x08080808).1 _ 3 _ _ (by decide) (by decide) (path_pathNetwork 3 _ _),
    ((traceroute_iff sampleHost 0x08080808).2 fun _ => answer 0 0x08080808).mpr
      ⟨0, by decide, by rw [icmpType_answer]; decide⟩⟩

/-- **A destination behind the first hop**: it is sent a packet with TTL 2. -/
theorem first_hop_skipped : ¬ ∀ host ipAddr,
    (∀ network n hop dest, 1 ≤ n → n ≤ 255 → Path network n hop dest → Visits host ipAddr network n hop dest) ∧
      ∀ replies : ℕ → Buf, EndsBeforeWrap host ipAddr fun i _ => replies i := by
  intro h
  exact not_visits (Nat.le_refl 1) _ _ ((h sampleHost 0x08080808).1 _ 1 _ _ (by decide) (by decide)
    (path_pathNetwork 1 (BitVec.ofNat 32) 0x08080808))

end Pcom.Lab05.Traceroute
