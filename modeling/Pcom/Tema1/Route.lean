import Pcom.Lib.Bisect

/-!
# The routing table of `Tema1/router.c`

`get_best_route` bisects the table: at each midpoint it compares the destination, masked with the mask of
the entry found there, with the prefix of that entry.  Addresses are `uint32_t` in network byte order on a
little-endian machine, and are compared as such.
-/

namespace Pcom.Tema1.Route

open Pcom.Lib.Bisect

/-- `struct route_table_entry`. -/
structure RouteTableEntry where
  pfx : BitVec 32
  nextHop : BitVec 32
  mask : BitVec 32
  interface : ℤ
  deriving DecidableEq

/-- The three comparisons at `mid`; the bounds keep `mid` inside the table. -/
def compareAt (rtable : List RouteTableEntry) (destIp : BitVec 32) (mid : ℤ) : Ordering :=
  match rtable[mid.toNat]? with
  | none => .lt
  | some entry =>
    if destIp &&& entry.mask = entry.pfx then .eq
    else if entry.pfx < destIp &&& entry.mask then .gt
    else .lt

/-- The loop of `get_best_route`: `finalId`, or `none` for `-1`. -/
def finalId (rtable : List RouteTableEntry) (destIp : BitVec 32) : Option ℤ :=
  bisect (compareAt rtable destIp) rtable.length 0 (rtable.length - 1)

/-- `get_best_route`; `none` for the null pointer. -/
def getBestRoute (rtable : List RouteTableEntry) (destIp : BitVec 32) : Option RouteTableEntry :=
  (finalId rtable destIp).bind fun id => rtable[id.toNat]?

/-- The entry matches the destination. -/
def RouteTableEntry.Matches (entry : RouteTableEntry) (destIp : BitVec 32) : Prop :=
  destIp &&& entry.mask = entry.pfx

instance (entry : RouteTableEntry) (destIp : BitVec 32) : Decidable (entry.Matches destIp) :=
  inferInstanceAs (Decidable (_ = _))

theorem compareAt_eq {rtable : List RouteTableEntry} {destIp : BitVec 32} {id : ℕ} :
    compareAt rtable destIp id = .eq ↔ ∃ entry, rtable[id]? = some entry ∧ entry.Matches destIp := by
  rw [compareAt, Int.toNat_natCast]
  cases rtable[id]? with
  | none => simp
  | some entry =>
    by_cases h : destIp &&& entry.mask = entry.pfx
    · simp [h, RouteTableEntry.Matches]
    · simp only [if_neg h, Option.some.injEq, exists_eq_left', RouteTableEntry.Matches]
      split <;> simp [h]

/-- The entry returned is the one at an index the search ends at. -/
theorem getBestRoute_eq_some {rtable : List RouteTableEntry} {destIp : BitVec 32}
    {entry : RouteTableEntry} : getBestRoute rtable destIp = some entry ↔
      ∃ id : ℕ, finalId rtable destIp = some (id : ℤ) ∧ rtable[id]? = some entry := by
  rw [getBestRoute, Option.bind_eq_some_iff]
  constructor
  · intro ⟨id, hid, hentry⟩
    obtain ⟨hl, -, -⟩ := of_bisect_eq_some hid
    exact ⟨id.toNat, by rw [hid, Int.toNat_of_nonneg hl], hentry⟩
  · intro ⟨id, hid, hentry⟩
    exact ⟨id, hid, by rwa [Int.toNat_natCast]⟩

/-- What is returned is in the table and matches. -/
theorem getBestRoute_matches {rtable : List RouteTableEntry} {destIp : BitVec 32}
    {entry : RouteTableEntry} (h : getBestRoute rtable destIp = some entry) :
    entry ∈ rtable ∧ entry.Matches destIp := by
  obtain ⟨id, hid, hentry⟩ := getBestRoute_eq_some.mp h
  obtain ⟨-, -, heq⟩ := of_bisect_eq_some hid
  obtain ⟨entry', hentry', hmatch⟩ := compareAt_eq.mp heq
  obtain rfl := Option.some.inj (hentry.symm.trans hentry')
  exact ⟨List.mem_of_getElem? hentry, hmatch⟩

/-- The null pointer is returned only where the search ends nowhere. -/
theorem getBestRoute_eq_none {rtable : List RouteTableEntry} {destIp : BitVec 32} :
    getBestRoute rtable destIp = none ↔ finalId rtable destIp = none := by
  rw [getBestRoute, Option.bind_eq_none_iff]
  constructor
  · intro h
    by_contra hne
    obtain ⟨id, hid⟩ := Option.ne_none_iff_exists'.mp hne
    obtain ⟨hl, -, heq⟩ := of_bisect_eq_some hid
    rw [← Int.toNat_of_nonneg hl] at heq
    obtain ⟨entry, hentry, -⟩ := compareAt_eq.mp heq
    rw [h id hid] at hentry
    cases hentry
  · intro h id hid
    rw [h] at hid
    cases hid

end Pcom.Tema1.Route
