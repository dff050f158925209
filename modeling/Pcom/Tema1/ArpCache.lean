import Pcom.Tema1.Addressing

/-!
# The ARP table as a cache

Every ARP reply is appended to the table, whether or not its sender has replied before, and the number of entries
is not compared with the number allocated.  A lookup takes the first match.

* `binding_kept` — once an address has an entry, no later step changes what a lookup returns for it;
* `cache_iff_of_run` — **at the end of a run** of any frames, the table is a cache of the latest bindings exactly
  when no address has replied twice;
* `cache_iff` — **for a sequence of replies of any length**: all of them are noted within the allocated entries, and
  the table is a cache of the latest bindings, exactly when they come from different addresses and there are no
  more of them than entries.
-/

namespace Pcom.Tema1.ArpCache

open Pcom.Lib.Memory Pcom.Lib.StepSystem Pcom.Lib.Sweep Pcom.Tema1.Route Pcom.Tema1.Router Pcom.Tema1.Skel
  Pcom.Tema1.Addressing

/-- The table is a cache of the latest bindings: within the allocated entries, one entry for each address, and a
lookup gives the hardware address of the most recent reply, or nothing if there was none. -/
structure Cache (h : List (Step State Input Sent)) (s : State) : Prop where
  bounded : s.arpTable.length ≤ ARP_TABLE_SIZE
  unique : (s.arpTable.map ArpEntry.ip).Nodup
  latest : ∀ ip, (getArpEntry s.arpTable ip).map ArpEntry.mac = lastReply h ip

/-! ### Lookups -/

theorem getArpEntry_append (t t' : List ArpEntry) (ip : BitVec 32) :
    getArpEntry (t ++ t') ip = (getArpEntry t ip).or (getArpEntry t' ip) :=
  List.find?_append

theorem getArpEntry_of_not_mem {t : List ArpEntry} {ip : BitVec 32} (h : ip ∉ t.map ArpEntry.ip) :
    getArpEntry t ip = none := by
  refine List.find?_eq_none.mpr fun a ha hip => h ?_
  rw [of_decide_eq_true hip]
  exact List.mem_map_of_mem ha

/-- With one entry for each address, the first match is the last. -/
theorem getArpEntry_reverse {t : List ArpEntry} (h : (t.map ArpEntry.ip).Nodup) (ip : BitVec 32) :
    getArpEntry t.reverse ip = getArpEntry t ip := by
  induction t with
  | nil => rfl
  | cons a t ih =>
    obtain ⟨hnew, hrest⟩ := List.nodup_cons.mp h
    have hcons : getArpEntry (a :: t) ip = (getArpEntry [a] ip).or (getArpEntry t ip) :=
      getArpEntry_append [a] t ip
    rw [List.reverse_cons, getArpEntry_append, ih hrest, hcons]
    by_cases hip : ip = a.ip
    · subst hip
      rw [getArpEntry_of_not_mem hnew, Option.none_or, Option.or_none]
    · have hother : getArpEntry [a] ip = none :=
        getArpEntry_of_not_mem fun hc => hip (List.mem_singleton.mp hc)
      rw [hother, Option.or_none, Option.none_or]

/-- **The first binding stays**: what the later replies of the address say is never looked up. -/
theorem binding_kept {cfg : Config} {s s' : State} {i : Input} {out : List Sent} {ip : BitVec 32} {a : ArpEntry}
    (hstep : step cfg s i = some (s', out)) (ha : getArpEntry s.arpTable ip = some a) :
    getArpEntry s'.arpTable ip = some a := by
  rw [arpTable_step hstep, getArpEntry_append, ha]
  exact Option.some_or

/-! ### Runs of any frames -/

/-- No step of a run writes past the allocated entries: the one that would has no outcome. -/
theorem bounded_of_run {cfg : Config} {m : Packet} {mem : Ref → Packet} {h : List (Step State Input Sent)}
    {s : State} (run : Run (Steps (step cfg)) (init m mem) h s) : s.arpTable.length ≤ ARP_TABLE_SIZE := by
  induction run with
  | start => exact Nat.zero_le _
  | @next _ s _ i _ _ hstep ih =>
    cases step_effect hstep with
    | quiet => exact ih
    | queued => exact ih
    | direct => exact ih
    | reply a _ _ hroom =>
      show (s.arpTable ++ [a]).length ≤ _
      rw [List.length_append]
      exact hroom

/-- **At the end of a run the table is a cache of the latest bindings exactly when no address has replied twice.** -/
theorem cache_iff_of_run {cfg : Config} {m : Packet} {mem : Ref → Packet} {h : List (Step State Input Sent)}
    {s : State} (run : Run (Steps (step cfg)) (init m mem) h s) :
    Cache h s ↔ ((announcements h).map ArpEntry.ip).Nodup := by
  rw [← table_eq_announcements run, List.map_reverse, List.nodup_reverse]
  constructor
  · exact Cache.unique
  · intro hnodup
    refine ⟨bounded_of_run run, hnodup, fun ip => ?_⟩
    rw [lastReply, ← table_eq_announcements run, getArpEntry_reverse hnodup]

/-! ### Sequences of replies -/

/-- The entries announced by a sequence of frames, if each of them is an ARP reply when it has been read into the
buffer. -/
def heard : State → List Input → Option (List ArpEntry)
  | _, [] => some []
  | s, i :: is => do
    let a ← announced (getPacket s i)
    let as ← heard (getPacket s i) is
    some (a :: as)

/-- Only the buffer matters to what the frames announce. -/
theorem heard_congr {s s' : State} (h : s.m = s'.m) (is : List Input) : heard s is = heard s' is := by
  induction is generalizing s s' with
  | nil => rfl
  | cons i is ih =>
    have hm : (getPacket s i).m = (getPacket s' i).m := by
      simp only [getPacket, h]
    have ha : announced (getPacket s i) = announced (getPacket s' i) := by
      simp only [announced, hm]
    rw [heard, heard, ha, ih hm]

theorem heard_cons {s : State} {i : Input} {is : List Input} {as : List ArpEntry}
    (h : heard s (i :: is) = some as) : ∃ a as', announced (getPacket s i) = some a ∧
      heard (getPacket s i) is = some as' ∧ as = a :: as' := by
  simp only [heard, Option.bind_eq_bind, Option.bind_eq_some_iff, Option.some.injEq] at h
  obtain ⟨a, ha, as', has, rfl⟩ := h
  exact ⟨a, as', ha, has, rfl⟩

/-- A reply that finds nothing in the queue is noted if there is room. -/
theorem step_of_reply_empty {cfg : Config} {s : State} {i : Input} {a : ArpEntry} (hq : s.q = [])
    (ha : announced (getPacket s i) = some a) {res : State × List Sent} :
    step cfg s i = some res ↔ s.arpTable.length < ARP_TABLE_SIZE ∧
      res = ({ getPacket s i with arpTable := s.arpTable ++ [a] }, []) := by
  have hread : (getPacket s i).q = [] := hq
  have hswept : swept cfg (getPacket s i) a = ((getPacket s i).mem, [], []) := by
    rw [swept, hread]
    rfl
  have hafter : afterReply cfg (getPacket s i) a = { getPacket s i with arpTable := s.arpTable ++ [a] } := by
    rw [afterReply, hswept]
    show State.mk _ [] _ _ _ = State.mk _ (getPacket s i).q _ _ _
    rw [hread]
    rfl
  rw [step_of_reply ha, hq, hafter, hswept]
  simp

/-- The history of a sequence of replies ends with what they announce. -/
theorem announcements_of_exec {cfg : Config} {s s' : State} {h h' : List (Step State Input Sent)}
    {is : List Input} {as : List ArpEntry} (has : heard s is = some as)
    (he : exec (step cfg) s h is = some (h', s')) : announcements h' = as.reverse ++ announcements h := by
  induction is generalizing s h as with
  | nil =>
    obtain rfl : [] = as := Option.some.inj has
    obtain ⟨rfl, -⟩ := Prod.mk.inj (Option.some.inj he)
    rfl
  | cons i is ih =>
    obtain ⟨a, as, ha, hlater, rfl⟩ := heard_cons has
    rw [exec] at he
    cases hstep : step cfg s i with
    | none => rw [hstep] at he; cases he
    | some res =>
      rw [hstep] at he
      obtain ⟨-, -, rfl⟩ := (step_of_reply ha).mp hstep
      have hbuffer : heard (afterReply cfg (getPacket s i) a) is = some as := by
        refine (heard_congr ?_ is).trans hlater
        rfl
      rw [ih hbuffer he, announcements_cons, ha, List.reverse_cons, List.append_assoc]
      rfl

/-- **A sequence of replies is processed to its end exactly when the table has room for all of them.** -/
theorem exec_heard {cfg : Config} {s : State} {h : List (Step State Input Sent)} {is : List Input}
    {as : List ArpEntry} (hq : s.q = []) (hroom : s.arpTable.length ≤ ARP_TABLE_SIZE)
    (has : heard s is = some as) :
    (exec (step cfg) s h is).isSome ↔ s.arpTable.length + as.length ≤ ARP_TABLE_SIZE := by
  induction is generalizing s h as with
  | nil =>
    obtain rfl : [] = as := Option.some.inj has
    exact iff_of_true rfl hroom
  | cons i is ih =>
    obtain ⟨a, as, ha, hlater, rfl⟩ := heard_cons has
    have hstep (res : State × List Sent) : step cfg s i = some res ↔ s.arpTable.length < ARP_TABLE_SIZE ∧
        res = ({ getPacket s i with arpTable := s.arpTable ++ [a] }, []) := step_of_reply_empty hq ha
    rw [exec, List.length_cons]
    by_cases hlt : s.arpTable.length < ARP_TABLE_SIZE
    · have hlen : (s.arpTable ++ [a]).length = s.arpTable.length + 1 := by simp
      have hbuffer : heard { getPacket s i with arpTable := s.arpTable ++ [a] } is = some as := by
        refine (heard_congr ?_ is).trans hlater
        rfl
      have hrest := ih (s := { getPacket s i with arpTable := s.arpTable ++ [a] }) (h := ⟨s, i, []⟩ :: h) hq
        (hlen.trans_le hlt) hbuffer
      rw [(hstep _).mpr ⟨hlt, rfl⟩, hrest, hlen]
      omega
    · -- the entry would be written past the end of the table
      have hnone : step cfg s i = none :=
        Option.eq_none_iff_forall_ne_some.mpr fun res hres => hlt ((hstep res).mp hres).1
      rw [hnone]
      refine iff_of_false Bool.false_ne_true ?_
      omega

/-- **For a sequence of ARP replies of any length**: the table holds the latest binding of every sender, once, within
the allocated entries, exactly when no two replies come from one address and there are no more replies than
entries. -/
theorem cache_iff {cfg : Config} {m : Packet} {mem : Ref → Packet} {is : List Input} {as : List ArpEntry}
    (has : heard (init m mem) is = some as) :
    (∃ h s, exec (step cfg) (init m mem) [] is = some (h, s) ∧ Cache h s) ↔
      as.length ≤ ARP_TABLE_SIZE ∧ (as.map ArpEntry.ip).Nodup := by
  have hlen : (init m mem).arpTable.length + as.length = as.length := Nat.zero_add _
  have hroom : (exec (step cfg) (init m mem) [] is).isSome ↔
      (init m mem).arpTable.length + as.length ≤ ARP_TABLE_SIZE := exec_heard rfl (Nat.zero_le _) has
  have hcache {h : List (Step State Input Sent)} {s : State}
      (he : exec (step cfg) (init m mem) [] is = some (h, s)) :
      Cache h s ↔ (as.map ArpEntry.ip).Nodup := by
    rw [cache_iff_of_run (Run.of_exec he), announcements_of_exec has he]
    show ((as.reverse ++ []).map ArpEntry.ip).Nodup ↔ _
    rw [List.append_nil, List.map_reverse, List.nodup_reverse]
  rw [hlen] at hroom
  rw [← hroom, Option.isSome_iff_exists]
  constructor
  · intro ⟨h, s, he, hok⟩
    exact ⟨⟨(h, s), he⟩, (hcache he).mp hok⟩
  · intro ⟨⟨(h, s), he⟩, hnodup⟩
    exact ⟨h, s, he, (hcache he).mpr hnodup⟩

/-- Two neighbours reply once each. -/
theorem two_neighbours_cached :
    ∃ h s, exec (step sampleConfig) sampleInit [] [⟨1, sampleReply 0x0100000a (Vector.replicate 6 0x51), none⟩,
      ⟨2, sampleReply 0x01000014 (Vector.replicate 6 0x52), none⟩] = some (h, s) ∧ Cache h s :=
  (cache_iff (show heard _ _ = some [⟨0x0100000a, Vector.replicate 6 0x51⟩,
    ⟨0x01000014, Vector.replicate 6 0x52⟩] from by decide +kernel)).mpr (by decide)

/-- **A changed hardware address goes unnoticed**: `10.0.0.1` replies from a second address, and the lookup still
gives the first. -/
theorem changed_address_unnoticed : ∃ h s, exec (step sampleConfig) sampleInit []
      [⟨1, sampleReply 0x0100000a (Vector.replicate 6 0x51), none⟩,
        ⟨1, sampleReply 0x0100000a (Vector.replicate 6 0x52), none⟩] = some (h, s) ∧
    (getArpEntry s.arpTable 0x0100000a).map ArpEntry.mac = some (Vector.replicate 6 0x51) ∧
      lastReply h 0x0100000a = some (Vector.replicate 6 0x52) ∧ ¬ Cache h s := by
  obtain ⟨⟨h, s⟩, he, hcheck⟩ := (Option.any_eq_true _ (exec (step sampleConfig) sampleInit []
      [⟨1, sampleReply 0x0100000a (Vector.replicate 6 0x51), none⟩,
        ⟨1, sampleReply 0x0100000a (Vector.replicate 6 0x52), none⟩])).mp
    (show Option.any (fun r => decide (
      (getArpEntry r.2.arpTable 0x0100000a).map ArpEntry.mac = some (Vector.replicate 6 0x51) ∧
        lastReply r.1 0x0100000a = some (Vector.replicate 6 0x52))) _ = true from by decide +kernel)
  obtain ⟨hlookup, hlast⟩ := of_decide_eq_true hcheck
  refine ⟨h, s, he, hlookup, hlast, fun hok => ?_⟩
  have hsame := hok.latest 0x0100000a
  rw [hlookup, hlast] at hsame
  exact absurd hsame (by decide)

end Pcom.Tema1.ArpCache
