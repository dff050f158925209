import Pcom.Lab04.HeaderTest
import Pcom.Lab04.Router

/-!
# The main loop of `Lab04/router.c`

One buffer serves all frames: `read` overwrites as many of its bytes as have arrived, and the headers are looked at
in it whatever the length.  A frame is dropped on a wrong checksum or a TTL of at most one; otherwise the TTL and
the checksum are renewed and the frame is sent on with the hardware address of its *destination*.  Neither
`get_best_route` nor `get_arp_entry` is checked for the null pointer, nor is the interface for its range.  The
interface a frame arrives on is stored and never read.

* `round_eq` — what a round does, with the exact condition for it to be defined;
* `relayed` — for frames with complete headers the buffer has no memory: a whole run sends what the frames, taken one
  by one, call for, and it goes through exactly when each of them can be served.
-/

namespace Pcom.Lab04.Forwarding

open Pcom.Lab04.HeaderTest Pcom.Lab04.Router Pcom.Lib.Memory Pcom.Lib.OnesComplement Pcom.Lib.Scan
  Pcom.Lib.StepSystem Pcom.Tema1.Alignment
open Pcom.Tema1.Route (RouteTableEntry)
open Pcom.Tema1.Router (ArpEntry)
open Pcom.Tema1.Skel hiding Sent
open Pcom.Tema1.Acceptance (bytes_header bytes_header_zeroed)

/-- `#define ROUTER_NUM_INTERFACES 4`. -/
def ROUTER_NUM_INTERFACES : ℤ := 4

/-- `get_arp_entry`; `none` for the null pointer. -/
def getArpEntry (arpTable : List ArpEntry) (ip : BitVec 32) : Option ArpEntry := arpTable.find? fun e => ip = e.ip

/-- The two tables. -/
structure Tables where
  rtable : List RouteTableEntry
  arpTable : List ArpEntry

/-- What `send_packet` is given. -/
structure Sent where
  interface : ℤ
  frame : Bytes
  deriving DecidableEq

/-- What `read` puts into the buffer. -/
def received (frame : Bytes) : Bytes := frame.take MAX_LEN

/-- Update TTL and recalculate the checksum, for a header at the address `ipHdr`. -/
def renew (ipHdr : ℕ) (payload : Buf) : Buf :=
  let payload := ttl.set payload (ttl.get payload - 1)
  let payload := check.set payload 0
  check.set payload (ipChecksum ipHdr (bytes payload 14 20))

/-- A round of the loop, from the contents of the buffer: `none` where a null pointer is followed or an interface does
not exist. -/
def round (ipHdr : ℕ) (t : Tables) (payload : Buf) (frame : Bytes) : Option (Buf × List Sent) :=
  let len := (received frame).length
  let payload := overwrite payload (received frame)
  if ipChecksum ipHdr (bytes payload 14 20) ≠ 0 then some (payload, [])
  else if ttl.get payload ≤ 1 then some (payload, [])
  else
    let route := getBestRoute t.rtable (daddr.get payload)
    let payload := renew ipHdr payload
    match getArpEntry t.arpTable (daddr.get payload) with
    | none => none
    | some entry =>
      let payload := etherDhost.set payload entry.mac
      match route with
      | none => none
      | some route =>
        if 0 ≤ route.interface ∧ route.interface < ROUTER_NUM_INTERFACES then
          some (payload, [⟨route.interface, bytes payload 0 len⟩])
        else none

/-! ### What a round does -/

/-- The tests of the loop. -/
def Passes (ipHdr : ℕ) (payload : Buf) : Prop := ZeroSum ipHdr payload ∧ 1 < ttl.get payload

instance (ipHdr : ℕ) (payload : Buf) : Decidable (ZeroSum ipHdr payload) := inferInstanceAs (Decidable (_ = _))

instance (ipHdr : ℕ) (payload : Buf) : Decidable (Passes ipHdr payload) := inferInstanceAs (Decidable (_ ∧ _))

/-- Where the tables send a frame for `dest`: the interface and the hardware address. -/
def target (t : Tables) (dest : BitVec 32) : Option (ℤ × Mac) :=
  match getArpEntry t.arpTable dest, getBestRoute t.rtable dest with
  | some entry, some route =>
    if 0 ≤ route.interface ∧ route.interface < ROUTER_NUM_INTERFACES then some (route.interface, entry.mac) else none
  | _, _ => none

/-- The buffer of a frame that is sent on. -/
def readdressed (ipHdr : ℕ) (payload : Buf) (mac : Mac) : Buf := etherDhost.set (renew ipHdr payload) mac

theorem get_renew {α : Type*} {f : ByteField α} (httl : f.Apart ttl) (hcheck : f.Apart check) (ipHdr : ℕ)
    (payload : Buf) : f.get (renew ipHdr payload) = f.get payload := by
  rw [renew, ByteField.get_set_of_apart hcheck, ByteField.get_set_of_apart hcheck, ByteField.get_set_of_apart httl]

/-- **What a round does.** -/
theorem round_eq (ipHdr : ℕ) (t : Tables) (payload : Buf) (frame : Bytes) : round ipHdr t payload frame =
    if Passes ipHdr (overwrite payload (received frame)) then
      (target t (daddr.get (overwrite payload (received frame)))).map fun p =>
        (readdressed ipHdr (overwrite payload (received frame)) p.2,
          [⟨p.1, bytes (readdressed ipHdr (overwrite payload (received frame)) p.2) 0 (received frame).length⟩])
    else some (overwrite payload (received frame), []) := by
  generalize hb : overwrite payload (received frame) = b
  have hdaddr : daddr.get (renew ipHdr b) = daddr.get b := get_renew (by decide) (by decide) ipHdr b
  simp only [round, hb, hdaddr]
  by_cases hsum : ipChecksum ipHdr (bytes b 14 20) = 0
  · by_cases httl : ttl.get b ≤ 1
    · have hnot : ¬ Passes ipHdr b := fun h => absurd h.2 (UInt8.not_lt.mpr httl)
      rw [if_neg (not_not_intro hsum), if_pos httl, if_neg hnot]
    · have hpass : Passes ipHdr b := ⟨hsum, UInt8.not_le.mp httl⟩
      rw [if_neg (not_not_intro hsum), if_neg httl, if_pos hpass, target]
      cases getArpEntry t.arpTable (daddr.get b) with
      | none => rfl
      | some entry =>
        cases getBestRoute t.rtable (daddr.get b) with
        | none => rfl
        | some route =>
          show (if _ then _ else _) = Option.map _ (if _ then _ else _)
          rw [apply_ite (Option.map _)]
          rfl
  · have hnot : ¬ Passes ipHdr b := fun h => hsum h.1
    rw [if_pos hsum, if_neg hnot]

/-! ### The renewed header -/

/-- Outside the destination address, the TTL and the checksum nothing changes. -/
theorem readdressed_of_not_covers {ipHdr : ℕ} {payload : Buf} {mac : Mac} {k : ℕ} (hdhost : ¬ etherDhost.Covers k)
    (httl : ¬ ttl.Covers k) (hcheck : ¬ check.Covers k) : readdressed ipHdr payload mac k = payload k := by
  rw [readdressed, renew, ByteField.set_of_not_covers hdhost, ByteField.set_of_not_covers hcheck,
    ByteField.set_of_not_covers hcheck, ByteField.set_of_not_covers httl]

theorem ttl_readdressed (ipHdr : ℕ) (payload : Buf) (mac : Mac) :
    ttl.get (readdressed ipHdr payload mac) = ttl.get payload - 1 := by
  rw [readdressed, ByteField.get_set_of_apart (by decide), renew, ByteField.get_set_of_apart (by decide),
    ByteField.get_set_of_apart (by decide), ByteField.get_set]

theorem toNat_ttl_readdressed {ipHdr : ℕ} {payload : Buf} (hpass : Passes ipHdr payload) (mac : Mac) :
    (ttl.get (readdressed ipHdr payload mac)).toNat + 1 = (ttl.get payload).toNat ∧
      0 < (ttl.get (readdressed ipHdr payload mac)).toNat := by
  have hone : (1 : UInt8).toNat = 1 := rfl
  have hlt := UInt8.lt_iff_toNat_lt.mp hpass.2
  rw [ttl_readdressed, UInt8.toNat_sub_of_le _ _ (by rw [UInt8.le_iff_toNat_le]; omega)]
  omega

/-- The header is looked at between the bytes 14 and 34 only. -/
theorem zeroSum_congr {ipHdr : ℕ} {b b' : Buf} (h : ∀ k, 14 ≤ k → k < 34 → b k = b' k) :
    ZeroSum ipHdr b ↔ ZeroSum ipHdr b' := by
  rw [ZeroSum, ZeroSum, bytes_congr fun k hlo hhi => h k hlo (by omega)]

/-- **The renewed checksum is right**, so that the next router finds it right. -/
theorem zeroSum_readdressed (ipHdr : ℕ) (payload : Buf) (mac : Mac) :
    ZeroSum ipHdr (readdressed ipHdr payload mac) := by
  have hdhost : ∀ k, 14 ≤ k → k < 34 → readdressed ipHdr payload mac k = renew ipHdr payload k := fun k hk _ =>
    ByteField.set_of_not_covers fun hc => absurd hc.2 (not_lt.mpr (le_trans (by decide) hk))
  rw [zeroSum_congr hdhost, zeroSum_iff]
  -- what the field holds is the complement of the sum of the rest
  generalize hzeroed : check.set (ttl.set payload (ttl.get payload - 1)) 0 = zeroed
  have hrenew : renew ipHdr payload = check.set zeroed (ipChecksum ipHdr (bytes zeroed 14 20)) := by
    rw [renew, hzeroed]
  have hrest : restSum (renew ipHdr payload) = onesSum (bytes zeroed 14 20) := by
    rw [restSum, hrenew, ByteField.set_set, ← hzeroed, ByteField.set_set]
  have hlen : (bytes zeroed 14 20).length < 2 ^ 32 := by
    rw [length_bytes]
    decide
  obtain ⟨f, ⟨hpos, hle, hmod⟩, hword⟩ := networkWord_ipChecksum ipHdr hlen
  have hfirst : renew ipHdr payload 24 = byteOf (ipChecksum ipHdr (bytes zeroed 14 20)) 0 := by
    rw [hrenew]
    exact ByteField.set_of_covers (f := check) (i := 0) (by decide)
  have hsecond : renew ipHdr payload 25 = byteOf (ipChecksum ipHdr (bytes zeroed 14 20)) 1 := by
    rw [hrenew]
    exact ByteField.set_of_covers (f := check) (i := 1) (by decide)
  have hfield : field (renew ipHdr payload) = 0xFFFF - f := by rw [← hword, field, networkWord, hfirst, hsecond]
  rw [hrest, hfield]
  omega

/-! ### Runs -/

/-- The headers are complete, and the frame fits the buffer. -/
def Whole (frame : Bytes) : Prop := 34 ≤ frame.length ∧ frame.length ≤ MAX_LEN

instance (frame : Bytes) : Decidable (Whole frame) := inferInstanceAs (Decidable (_ ∧ _))

theorem Whole.received {frame : Bytes} (h : Whole frame) : received frame = frame := List.take_of_length_le h.2

/-- A router without a memory: what one frame calls for. -/
def relay (ipHdr : ℕ) (t : Tables) (frame : Bytes) : Option (List Sent) :=
  if Passes ipHdr (ofBytes frame) then
    (target t (daddr.get (ofBytes frame))).map fun p =>
      [⟨p.1, bytes (readdressed ipHdr (ofBytes frame) p.2) 0 frame.length⟩]
  else some []

theorem readdressed_congr {ipHdr n : ℕ} (hn : 34 ≤ n) {b b' : Buf} (h : ∀ k < n, b k = b' k) (mac : Mac) :
    ∀ k < n, readdressed ipHdr b mac k = readdressed ipHdr b' mac k := by
  have httl : ttl.get b = ttl.get b' := ByteField.get_congr fun k hk =>
    h k (lt_of_lt_of_le hk.2 (le_trans (by decide) hn))
  have hzeroed : ∀ k < n, check.set (ttl.set b (ttl.get b - 1)) 0 k = check.set (ttl.set b' (ttl.get b' - 1)) 0 k := by
    intro k hk
    rw [httl]
    exact ByteField.set_congr fun _ => ByteField.set_congr fun _ => h k hk
  intro k hk
  rw [readdressed, readdressed, renew, renew, bytes_congr fun i _ hi => hzeroed i (by omega)]
  exact ByteField.set_congr fun _ => ByteField.set_congr fun _ => hzeroed k hk

/-- **A complete frame hides the buffer**: what is sent does not depend on what the buffer held. -/
theorem round_whole {frame : Bytes} (hwhole : Whole frame) (ipHdr : ℕ) (t : Tables) (payload : Buf) :
    (round ipHdr t payload frame).map Prod.snd = relay ipHdr t frame := by
  have hsame : ∀ k < frame.length, overwrite payload frame k = ofBytes frame k := fun k hk => overwrite_eq_ofBytes hk
  have hpass : Passes ipHdr (overwrite payload frame) ↔ Passes ipHdr (ofBytes frame) := by
    refine and_congr (zeroSum_congr fun k _ hk => hsame k (lt_of_lt_of_le hk hwhole.1)) ?_
    rw [ByteField.get_overwrite (f := ttl) (le_trans (by decide) hwhole.1)]
  have hdaddr : daddr.get (overwrite payload frame) = daddr.get (ofBytes frame) :=
    ByteField.get_overwrite (f := daddr) (le_trans (by decide) hwhole.1)
  rw [round_eq, hwhole.received, relay, hdaddr]
  by_cases hp : Passes ipHdr (ofBytes frame)
  · rw [if_pos (hpass.mpr hp), if_pos hp, Option.map_map]
    refine congrArg (fun f => Option.map f _) ?_
    funext p
    show [_] = [_]
    rw [bytes_congr fun k _ hk => readdressed_congr hwhole.1 hsame p.2 k (by omega)]
  · rw [if_neg fun h => hp (hpass.mp h), if_neg hp]
    rfl

/-- The frames of a run, from any buffer. -/
theorem exec_round {frames : List Bytes} (hwhole : ∀ f ∈ frames, Whole f) (ipHdr : ℕ) (t : Tables) (payload : Buf)
    (h : List (Step Buf Bytes Sent)) :
    (exec (round ipHdr t) payload h frames).map (fun r => emitted r.1) =
      (frames.mapM (relay ipHdr t)).map fun out => emitted h ++ out.flatten := by
  induction frames generalizing payload h with
  | nil =>
    show some (emitted h) = some (emitted h ++ [])
    rw [List.append_nil]
  | cons frame frames ih =>
    have hone := round_whole (hwhole frame List.mem_cons_self) ipHdr t payload
    rw [exec, List.mapM_cons, ← hone]
    cases round ipHdr t payload frame with
    | none => rfl
    | some r =>
      obtain ⟨payload', out⟩ := r
      show Option.map _ (exec (round ipHdr t) payload' (⟨payload, frame, out⟩ :: h) frames) = _
      rw [ih fun f hf => hwhole f (List.mem_cons_of_mem _ hf)]
      show _ = Option.map _ (Option.bind (frames.mapM (relay ipHdr t)) fun outs => some (out :: outs))
      cases frames.mapM (relay ipHdr t) with
      | none => rfl
      | some outs =>
        show some ((emitted h ++ out) ++ outs.flatten) = some (emitted h ++ (out ++ outs.flatten))
        rw [List.append_assoc]

/-- **The router has no memory**: a run over complete frames is defined exactly when every one of them can be served,
and sends, in order, what each of them calls for. -/
theorem relayed {frames : List Bytes} (hwhole : ∀ f ∈ frames, Whole f) (ipHdr : ℕ) (t : Tables) (payload : Buf) :
    (exec (round ipHdr t) payload [] frames).map (fun r => emitted r.1) =
      (frames.mapM (relay ipHdr t)).map List.flatten := exec_round hwhole ipHdr t payload []

/-! ### When the router stops -/

/-- The tables know where to send a frame: its *destination* is in the ARP table, it matches a route with a mask that
is not zero, and the best of these goes through an interface that exists. -/
structure Known (t : Tables) (dest : BitVec 32) : Prop where
  address : ∃ e ∈ t.arpTable, e.ip = dest
  route : ∃ e ∈ t.rtable, e.Matches dest ∧ e.mask ≠ 0
  interface : ∀ e, getBestRoute t.rtable dest = some e → 0 ≤ e.interface ∧ e.interface < ROUTER_NUM_INTERFACES

theorem getArpEntry_isSome {arpTable : List ArpEntry} {ip : BitVec 32} :
    (getArpEntry arpTable ip).isSome ↔ ∃ e ∈ arpTable, e.ip = ip := by
  rw [getArpEntry, List.find?_isSome]
  simp [eq_comm]

theorem getBestRoute_isSome {rtable : List RouteTableEntry} {dest : BitVec 32} :
    (getBestRoute rtable dest).isSome ↔ ∃ e ∈ rtable, e.Matches dest ∧ e.mask ≠ 0 := by
  rw [Option.isSome_iff_ne_none, ne_eq, getBestRoute_eq_none_iff]
  push Not
  rfl

/-- The exact condition for no null pointer to be followed. -/
theorem target_isSome {t : Tables} {dest : BitVec 32} : (target t dest).isSome ↔ Known t dest := by
  rw [target]
  cases harp : getArpEntry t.arpTable dest with
  | none =>
    refine iff_of_false (by simp) fun hk => ?_
    have hsome := getArpEntry_isSome.mpr hk.address
    rw [harp] at hsome
    cases hsome
  | some entry =>
    have haddress := getArpEntry_isSome.mp (by rw [harp]; rfl : (getArpEntry t.arpTable dest).isSome)
    cases hroute : getBestRoute t.rtable dest with
    | none =>
      refine iff_of_false (by simp) fun hk => ?_
      have hsome := getBestRoute_isSome.mpr hk.route
      rw [hroute] at hsome
      cases hsome
    | some route =>
      have hmatch := getBestRoute_isSome.mp (by rw [hroute]; rfl : (getBestRoute t.rtable dest).isSome)
      show (if _ then _ else _ : Option (ℤ × Mac)).isSome ↔ _
      by_cases hin : 0 ≤ route.interface ∧ route.interface < ROUTER_NUM_INTERFACES
      · rw [if_pos hin]
        refine iff_of_true rfl ⟨haddress, hmatch, fun e he => ?_⟩
        obtain rfl := Option.some.inj (hroute.symm.trans he)
        exact hin
      · rw [if_neg hin]
        exact iff_of_false (by simp) fun hk => hin (hk.interface route hroute)

theorem relay_isSome {ipHdr : ℕ} {t : Tables} {frame : Bytes} : (relay ipHdr t frame).isSome ↔
    (Passes ipHdr (ofBytes frame) → Known t (daddr.get (ofBytes frame))) := by
  rw [relay]
  by_cases hpass : Passes ipHdr (ofBytes frame)
  · rw [if_pos hpass, Option.isSome_map, target_isSome, imp_iff_right hpass]
  · rw [if_neg hpass]
    exact iff_of_true rfl fun h => absurd h hpass

theorem mapM_isSome {α β : Type*} {f : α → Option β} {xs : List α} :
    (xs.mapM f).isSome ↔ ∀ x ∈ xs, (f x).isSome := by
  induction xs with
  | nil => simp
  | cons x xs ih =>
    rw [List.forall_mem_cons, ← ih, List.mapM_cons]
    cases f x with
    | none => simp
    | some y => cases xs.mapM f <;> simp

/-- **When the router stops**: a run over complete frames goes through exactly when the tables know the destination
of every frame that passes the two tests. -/
theorem comes_through_iff {frames : List Bytes} (hwhole : ∀ f ∈ frames, Whole f) (ipHdr : ℕ) (t : Tables)
    (payload : Buf) :
    (exec (round ipHdr t) payload [] frames).isSome ↔
      ∀ f ∈ frames, Passes ipHdr (ofBytes f) → Known t (daddr.get (ofBytes f)) := by
  have hrun := congrArg Option.isSome (exec_round hwhole ipHdr t payload [])
  rw [Option.isSome_map, Option.isSome_map] at hrun
  rw [hrun, mapM_isSome]
  exact forall₂_congr fun _ _ => relay_isSome

/-- `10.0.0.1` is reached through interface 1, and known by its hardware address. -/
def sampleTables : Tables where
  rtable := [⟨0x0000000a, 0, Pcom.Lib.Ipv4.netmask 8, 1⟩]
  arpTable := [⟨0x0100000a, Vector.replicate 6 0x51⟩]

/-- A frame for `10.0.0.1`, and one for `10.0.0.2`. -/
def known : Bytes := Pcom.Tema1.Router.sampleFrame 0x0100000a
def unknown : Bytes := Pcom.Tema1.Router.sampleFrame 0x0200000a

/-- The first of them is sent on, twice. -/
theorem known_relayed : (exec (round 18 sampleTables) (ofBytes []) [] [known, known]).map (fun r => emitted r.1) =
    ([known, known].mapM (relay 18 sampleTables)).map List.flatten := relayed (by decide +kernel) 18 _ _

/-- The second one stops the router: it is routed, and its hardware address is not known. -/
theorem unknown_stops : ¬ (exec (round 18 sampleTables) (ofBytes []) [] [known, unknown]).isSome := fun h => by
  have hknown := (comes_through_iff (by decide +kernel) 18 _ _).mp h unknown (by simp) (by decide +kernel)
  obtain ⟨e, he, hip⟩ := hknown.address
  rw [List.mem_singleton.mp he] at hip
  exact absurd hip (by decide +kernel)

end Pcom.Lab04.Forwarding
