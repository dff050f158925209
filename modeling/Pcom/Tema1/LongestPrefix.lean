import Pcom.Lib.Ipv4
import Pcom.Tema1.Route

/-!
# Longest-prefix match of `get_best_route`

The table is sorted by prefix alone, and the bisection stops at the first entry that matches.

* `longest_prefix_iff` — **the exact condition** for the answer to be the longest match: nothing matches,
  or a longest match sits at an index such that every midpoint probed on the way to it points towards it;
* `uniform_masks` — tables with one mask meet it, as long as the comparator does not overflow;
* `nested_prefix_lost` — a `/8` next to a more specific `/24` hides it.
-/

namespace Pcom.Tema1.LongestPrefix

open Pcom.Lib.Bisect Pcom.Lib.Ipv4 Pcom.Tema1.Route

/-! ### Well-formed tables and sorting -/

/-- An entry with a contiguous mask and no bits outside it. -/
structure WellFormed (entry : RouteTableEntry) : Prop where
  contiguous : ∃ length ≤ 32, entry.mask = netmask length
  masked : entry.pfx &&& entry.mask = entry.pfx

/-- `comparator`: the `int` difference of the prefixes, wrapped to 32 bits. -/
def comparator (o1 o2 : RouteTableEntry) : ℤ := (o2.pfx - o1.pfx).toInt

/-- The comparator is a consistent total preorder on the table. -/
structure Consistent (table : List RouteTableEntry) : Prop where
  antisymm : ∀ a ∈ table, ∀ b ∈ table, comparator a b < 0 ↔ 0 < comparator b a
  trans : ∀ a ∈ table, ∀ b ∈ table, ∀ c ∈ table,
    comparator a b ≤ 0 → comparator b c ≤ 0 → comparator a c ≤ 0

/-- What `qsort` may make of a table. -/
structure QSorted (table rtable : List RouteTableEntry) : Prop where
  perm : rtable.Perm table
  sorted : Consistent table → rtable.Pairwise fun a b => comparator a b ≤ 0

/-! ### The exact condition -/

/-- A longest match of the table. -/
structure Longest (table : List RouteTableEntry) (destIp : BitVec 32) (entry : RouteTableEntry) :
    Prop where
  mem : entry ∈ table
  matches_ : entry.Matches destIp
  longest : ∀ e ∈ table, e.Matches destIp → maskLength e.mask ≤ maskLength entry.mask

/-- A correct answer: the null pointer exactly when nothing matches, otherwise a longest match. -/
def Correct (table : List RouteTableEntry) (destIp : BitVec 32) : Option RouteTableEntry → Prop
  | none => ∀ e ∈ table, ¬ e.Matches destIp
  | some entry => Longest table destIp entry

/-- Nothing matches, or the bisection is led to a longest match. -/
def Led (rtable : List RouteTableEntry) (destIp : BitVec 32) : Prop :=
  (∀ e ∈ rtable, ¬ e.Matches destIp) ∨
    ∃ (id : ℕ) (entry : RouteTableEntry), rtable[id]? = some entry ∧ Longest rtable destIp entry ∧
      ∀ p ∈ path id rtable.length 0 (rtable.length - 1), compareAt rtable destIp p = towards id p

theorem Longest.perm {table rtable : List RouteTableEntry} (h : rtable.Perm table) {destIp : BitVec 32}
    {entry : RouteTableEntry} : Longest table destIp entry ↔ Longest rtable destIp entry :=
  ⟨fun ⟨h1, h2, h3⟩ => ⟨h.mem_iff.mpr h1, h2, fun e he => h3 e (h.mem_iff.mp he)⟩,
    fun ⟨h1, h2, h3⟩ => ⟨h.mem_iff.mp h1, h2, fun e he => h3 e (h.mem_iff.mpr he)⟩⟩

theorem correct_perm {table rtable : List RouteTableEntry} (h : rtable.Perm table)
    (destIp : BitVec 32) (result : Option RouteTableEntry) :
    Correct table destIp result ↔ Correct rtable destIp result := by
  cases result with
  | none => exact forall_congr' fun e => by rw [h.mem_iff]
  | some entry => exact Longest.perm h

/-- Where the search ends at an index. -/
theorem finalId_eq_some_iff {rtable : List RouteTableEntry} {destIp : BitVec 32} {id : ℕ}
    {entry : RouteTableEntry} (hentry : rtable[id]? = some entry) :
    finalId rtable destIp = some (id : ℤ) ↔ entry.Matches destIp ∧
      ∀ p ∈ path id rtable.length 0 (rtable.length - 1), compareAt rtable destIp p = towards id p := by
  have hlt : id < rtable.length := (List.getElem?_eq_some_iff.mp hentry).1
  rw [finalId, bisect_eq_some_iff (by omega) (by omega) (by omega), compareAt_eq]
  simp only [hentry, Option.some.injEq, exists_eq_left']

/-- **The exact condition for the longest match.** -/
theorem longest_prefix_iff {table rtable : List RouteTableEntry} (hsort : QSorted table rtable)
    (destIp : BitVec 32) :
    Correct table destIp (getBestRoute rtable destIp) ↔ Led rtable destIp := by
  rw [correct_perm hsort.perm]
  constructor
  · intro h
    cases hres : getBestRoute rtable destIp with
    | none =>
      rw [hres] at h
      exact Or.inl h
    | some entry =>
      rw [hres] at h
      obtain ⟨id, hid, hentry⟩ := getBestRoute_eq_some.mp hres
      exact Or.inr ⟨id, entry, hentry, h, ((finalId_eq_some_iff hentry).mp hid).2⟩
  · rintro (hnone | ⟨id, entry, hentry, hlongest, hpath⟩)
    · cases hres : getBestRoute rtable destIp with
      | none => exact hnone
      | some entry =>
        obtain ⟨hmem, hmatch⟩ := getBestRoute_matches hres
        exact absurd hmatch (hnone entry hmem)
    · have hid := (finalId_eq_some_iff hentry).mpr ⟨hlongest.matches_, hpath⟩
      rw [getBestRoute_eq_some.mpr ⟨id, hid, hentry⟩]
      exact hlongest

/-! ### One mask for all entries -/

/-- Below the sign bit the comparator is the difference of the prefixes. -/
theorem comparator_eq {a b : RouteTableEntry} (ha : a.pfx.toNat < 2 ^ 31) (hb : b.pfx.toNat < 2 ^ 31) :
    comparator a b = (b.pfx.toNat : ℤ) - a.pfx.toNat := by
  rw [comparator, BitVec.toInt_sub, BitVec.toInt_eq_toNat_of_lt (by omega),
    BitVec.toInt_eq_toNat_of_lt (by omega), Int.bmod_eq_iff (by decide)]
  omega

theorem consistent_of_small {table : List RouteTableEntry}
    (hsmall : ∀ e ∈ table, e.pfx.toNat < 2 ^ 31) : Consistent table where
  antisymm := fun a ha b hb => by
    rw [comparator_eq (hsmall a ha) (hsmall b hb), comparator_eq (hsmall b hb) (hsmall a ha)]
    omega
  trans := fun a ha b hb c hc => by
    rw [comparator_eq (hsmall a ha) (hsmall b hb), comparator_eq (hsmall b hb) (hsmall c hc),
      comparator_eq (hsmall a ha) (hsmall c hc)]
    omega

theorem compare_gt {d x : BitVec 32} :
    (if d = x then Ordering.eq else if x < d then .gt else .lt) = .gt ↔ x.toNat < d.toNat := by
  rw [← BitVec.lt_def]
  by_cases heq : d = x
  · simp [heq]
  · by_cases hlt : x < d <;> simp [heq, hlt]

theorem compare_lt {d x : BitVec 32} :
    (if d = x then Ordering.eq else if x < d then .gt else .lt) = .lt ↔ d.toNat < x.toNat := by
  by_cases heq : d = x
  · simp [heq]
  · have hne : d.toNat ≠ x.toNat := fun h => heq (BitVec.eq_of_toNat_eq h)
    by_cases hlt : x < d
    · have := BitVec.lt_def.mp hlt
      simp only [heq, hlt, if_true, if_false, reduceCtorEq, false_iff]
      omega
    · have := mt BitVec.lt_def.mpr hlt
      simp only [heq, hlt, if_false, true_iff]
      omega

/-- **Uniform masks**: with one mask, and prefixes below the sign bit, the answer is always correct. -/
theorem uniform_masks {table rtable : List RouteTableEntry} (hsort : QSorted table rtable)
    {mask : BitVec 32} (hmask : ∀ e ∈ table, e.mask = mask)
    (hsmall : ∀ e ∈ table, e.pfx.toNat < 2 ^ 31) (destIp : BitVec 32) :
    Correct table destIp (getBestRoute rtable destIp) := by
  rw [correct_perm hsort.perm]
  have hmask' : ∀ e ∈ rtable, e.mask = mask := fun e he => hmask e (hsort.perm.mem_iff.mp he)
  have hlongest : ∀ e ∈ rtable, e.Matches destIp → Longest rtable destIp e := fun e he hm =>
    ⟨he, hm, fun e' he' _ => by rw [hmask' e he, hmask' e' he']⟩
  -- later entries have smaller prefixes
  have hdesc : ∀ p q : ℤ, 0 ≤ p → p ≤ q → ∀ a b, rtable[p.toNat]? = some a →
      rtable[q.toNat]? = some b → b.pfx.toNat ≤ a.pfx.toNat := by
    intro p q hp hpq a b ha hb
    have hsa := hsmall a (hsort.perm.mem_iff.mp (List.mem_of_getElem? ha))
    have hsb := hsmall b (hsort.perm.mem_iff.mp (List.mem_of_getElem? hb))
    obtain hlt | heq := (show p.toNat < q.toNat ∨ p.toNat = q.toNat by omega)
    · obtain ⟨hpl, rfl⟩ := List.getElem?_eq_some_iff.mp ha
      obtain ⟨hql, rfl⟩ := List.getElem?_eq_some_iff.mp hb
      have hle := List.pairwise_iff_getElem.mp (hsort.sorted (consistent_of_small hsmall))
        p.toNat q.toNat hpl hql hlt
      rw [comparator_eq hsa hsb] at hle
      omega
    · rw [heq, hb] at ha
      rw [Option.some.inj ha]
  have hat : ∀ p : ℤ, 0 ≤ p → p ≤ rtable.length - 1 → ∃ e, rtable[p.toNat]? = some e ∧
      compareAt rtable destIp p = if destIp &&& mask = e.pfx then .eq
        else if e.pfx < destIp &&& mask then .gt else .lt := by
    intro p h0 hp
    have hlt : p.toNat < rtable.length := by omega
    refine ⟨rtable[p.toNat], List.getElem?_eq_getElem hlt, ?_⟩
    rw [compareAt, List.getElem?_eq_getElem hlt]
    simp only [hmask' _ (List.getElem_mem hlt)]
  cases hres : getBestRoute rtable destIp with
  | some entry =>
    obtain ⟨hmem, hmatch⟩ := getBestRoute_matches hres
    exact hlongest entry hmem hmatch
  | none =>
    intro e he hmatch
    obtain ⟨id, hid⟩ := List.getElem?_of_mem he
    have hlt : id < rtable.length := (List.getElem?_eq_some_iff.mp hid).1
    refine bisect_ne_none (m := id) (by omega) (by omega) (by omega)
      (compareAt_eq.mpr ⟨e, hid, hmatch⟩) ?_ ?_ (getBestRoute_eq_none.mp hres)
    · intro p q hp hpq hq hgt
      obtain ⟨a, ha, hca⟩ := hat p hp (by omega)
      obtain ⟨b, hb, hcb⟩ := hat q (by omega) hq
      have hle := hdesc p q hp hpq a b ha hb
      rw [hca, compare_gt] at hgt
      rw [hcb, compare_gt]
      omega
    · intro p q hp hpq hq hless
      obtain ⟨a, ha, hca⟩ := hat p hp (by omega)
      obtain ⟨b, hb, hcb⟩ := hat q (by omega) hq
      have hle := hdesc p q hp hpq a b ha hb
      rw [hcb, compare_lt] at hless
      rw [hca, compare_lt]
      omega

/-! ### Nested prefixes -/

/-- `10.1.1.0/24`, `10.0.0.0/8` and `9.0.0.0/8`. -/
def nestedTable : List RouteTableEntry :=
  [⟨0x0001010A, 1, netmask 24, 0⟩, ⟨0x0000000A, 2, netmask 8, 1⟩, ⟨0x00000009, 3, netmask 8, 2⟩]

theorem nestedTable_wellFormed : ∀ e ∈ nestedTable, WellFormed e := by
  simp only [nestedTable, List.forall_mem_cons]
  exact ⟨⟨⟨24, by decide, rfl⟩, by decide⟩, ⟨⟨8, by decide, rfl⟩, by decide⟩,
    ⟨⟨8, by decide, rfl⟩, by decide⟩, by simp⟩

theorem nestedTable_sorted : QSorted nestedTable nestedTable :=
  ⟨.refl _, fun _ => by decide⟩

/-- **Nested prefixes**: for `10.1.1.1` the search stops at the `/8` in the middle. -/
theorem nested_prefix_lost :
    ∃ table rtable destIp, (∀ e ∈ table, WellFormed e) ∧ QSorted table rtable ∧
      ¬ Correct table destIp (getBestRoute rtable destIp) := by
  refine ⟨nestedTable, nestedTable, 0x0101010A, nestedTable_wellFormed, nestedTable_sorted, ?_⟩
  have hres : getBestRoute nestedTable 0x0101010A = some ⟨0x0000000A, 2, netmask 8, 1⟩ := by decide
  rw [hres]
  intro hlongest
  have hlen := hlongest.longest ⟨0x0001010A, 1, netmask 24, 0⟩ (by decide) (by decide)
  revert hlen
  decide

/-- For `9.0.0.1` the search is led to the one entry that matches. -/
theorem nestedTable_led : Correct nestedTable 0x01000009 (getBestRoute nestedTable 0x01000009) := by
  refine (longest_prefix_iff nestedTable_sorted 0x01000009).mpr
    (Or.inr ⟨2, ⟨0x00000009, 3, netmask 8, 2⟩, rfl, ⟨by decide, by decide, by decide⟩, ?_⟩)
  decide

end Pcom.Tema1.LongestPrefix
