import Pcom.Lib.Champion
import Pcom.Tema1.LongestPrefix

/-!
# The routing table of `Lab04/router.c`

`get_best_route` goes over the table once and keeps the matching entry with the largest mask.  Masks are
`uint32_t` in network byte order on a little-endian machine; the largest so far is kept in a signed `int`, which
the comparison converts back, and starts at `0`.  Entries have the fields of `struct route_table_entry`, as in
`Tema1`.

* `getBestRoute_eq_none_iff` — the null pointer stands for no matching entry *with a non-zero mask*;
* `longest_prefix_lab04_iff` — **the exact condition** for the longest match: there is no default route, or
  something more specific matches as well;
* `default_route_lost` — a table that holds nothing but a default route routes nothing.
-/

namespace Pcom.Lab04.Router

open Pcom.Lib.Champion Pcom.Lib.Ipv4 Pcom.Tema1.Route Pcom.Tema1.LongestPrefix

/-! ### The loop -/

/-- The locals of `get_best_route`, both `int`. -/
structure Best where
  id : ℤ
  maskMax : ℤ
  deriving DecidableEq

/-- `rtable[i].mask > maskMax`: the `int` is converted to unsigned. -/
def maskAbove (mask : BitVec 32) (maskMax : ℤ) : Prop := BitVec.ofInt 32 maskMax < mask

instance (mask : BitVec 32) (maskMax : ℤ) : Decidable (maskAbove mask maskMax) :=
  inferInstanceAs (Decidable (_ < _))

/-- One round of the loop; the assignment to `maskMax` converts the mask to `int`. -/
def round (destIp : BitVec 32) (best : Best) (row : RouteTableEntry × ℕ) : Best :=
  if destIp &&& row.1.mask = row.1.pfx ∧ maskAbove row.1.mask best.maskMax then
    ⟨row.2, row.1.mask.toInt⟩
  else best

def search (rtable : List RouteTableEntry) (destIp : BitVec 32) : Best :=
  rtable.zipIdx.foldl (round destIp) ⟨-1, 0⟩

/-- `get_best_route`; `none` for the null pointer. -/
def getBestRoute (rtable : List RouteTableEntry) (destIp : BitVec 32) : Option RouteTableEntry :=
  if (search rtable destIp).id = -1 then none else rtable[(search rtable destIp).id.toNat]?

/-! ### The loop is a scan for the largest mask -/

/-- The locals that stand for a champion and its key. -/
def Holds (best : Best) (kept : Option (RouteTableEntry × ℕ) × ℕ) : Prop :=
  best.id = (kept.1.elim (-1) fun row => (row.2 : ℤ)) ∧ (BitVec.ofInt 32 best.maskMax).toNat = kept.2

theorem Holds.round {destIp : BitVec 32} {best : Best} {kept : Option (RouteTableEntry × ℕ) × ℕ}
    (h : Holds best kept) (row : RouteTableEntry × ℕ) :
    Holds (round destIp best row)
      (challenge (fun row => row.1.Matches destIp) (fun row => row.1.mask.toNat) kept row) := by
  have habove : maskAbove row.1.mask best.maskMax ↔ kept.2 < row.1.mask.toNat := by
    rw [maskAbove, BitVec.lt_def, h.2]
  rw [Router.round, challenge]
  by_cases hc : row.1.Matches destIp ∧ kept.2 < row.1.mask.toNat
  · rw [if_pos ⟨hc.1, habove.mpr hc.2⟩, if_pos hc]
    exact ⟨rfl, by rw [BitVec.ofInt_toInt]⟩
  · rw [if_neg fun hp => hc ⟨hp.1, habove.mp hp.2⟩, if_neg hc]
    exact h

theorem holds_foldl {destIp : BitVec 32} (rows : List (RouteTableEntry × ℕ)) {best : Best}
    {kept : Option (RouteTableEntry × ℕ) × ℕ} (h : Holds best kept) :
    Holds (rows.foldl (round destIp) best) (rows.foldl
      (challenge (fun row => row.1.Matches destIp) fun row => row.1.mask.toNat) kept) := by
  induction rows generalizing best kept with
  | nil => exact h
  | cons row rows ih => exact ih (h.round row)

/-- The scan that the loop carries out. -/
def champion (rtable : List RouteTableEntry) (destIp : BitVec 32) : Option (RouteTableEntry × ℕ) :=
  (scan (fun row => row.1.Matches destIp) (fun row => row.1.mask.toNat) 0 rtable.zipIdx).1

theorem getBestRoute_eq (rtable : List RouteTableEntry) (destIp : BitVec 32) :
    getBestRoute rtable destIp = (champion rtable destIp).map fun row => row.1 := by
  have hid : (search rtable destIp).id = ((champion rtable destIp).elim (-1) fun row => (row.2 : ℤ)) :=
    (holds_foldl rtable.zipIdx (show Holds ⟨-1, 0⟩ (none, 0) from ⟨rfl, rfl⟩)).1
  rw [getBestRoute, hid]
  cases hc : champion rtable destIp with
  | none => rfl
  | some row =>
    have hmem := (champion_some hc).1
    rw [Option.elim_some, if_neg (by omega), Int.toNat_natCast, Option.map_some]
    exact List.mem_zipIdx_iff_getElem?.mp hmem

/-- The null pointer stands for no matching entry with a non-zero mask. -/
theorem getBestRoute_eq_none_iff {rtable : List RouteTableEntry} {destIp : BitVec 32} :
    getBestRoute rtable destIp = none ↔ ∀ e ∈ rtable, e.Matches destIp → e.mask = 0 := by
  rw [getBestRoute_eq, Option.map_eq_none_iff, champion, champion_none_iff]
  constructor
  · intro h e he hm
    obtain ⟨i, hi⟩ := List.getElem?_of_mem he
    have hle : e.mask.toNat ≤ 0 := h (e, i) (List.mem_zipIdx_iff_getElem?.mpr hi) hm
    exact BitVec.eq_of_toNat_eq (Nat.le_zero.mp hle)
  · intro h row hrow hm
    have hmem := List.mem_of_getElem? (List.mem_zipIdx_iff_getElem?.mp hrow)
    rw [h row.1 hmem hm]
    exact le_rfl

/-- What is returned matches, and no matching entry has a larger mask. -/
theorem getBestRoute_some {rtable : List RouteTableEntry} {destIp : BitVec 32} {entry : RouteTableEntry}
    (h : getBestRoute rtable destIp = some entry) : entry ∈ rtable ∧ entry.Matches destIp ∧
      ∀ e ∈ rtable, e.Matches destIp → e.mask.toNat ≤ entry.mask.toNat := by
  rw [getBestRoute_eq, Option.map_eq_some_iff] at h
  obtain ⟨row, hrow, rfl⟩ := h
  obtain ⟨hmem, hmatch, -, hmax⟩ := champion_some hrow
  refine ⟨List.mem_of_getElem? (List.mem_zipIdx_iff_getElem?.mp hmem), hmatch, ?_⟩
  intro e he hm
  obtain ⟨i, hi⟩ := List.getElem?_of_mem he
  exact hmax (e, i) (List.mem_zipIdx_iff_getElem?.mpr hi) hm

/-! ### Longest-prefix match -/

/-- The order of the words is the order of the prefix lengths. -/
theorem maskLength_le_iff {e e' : RouteTableEntry} (he : WellFormed e) (he' : WellFormed e') :
    maskLength e.mask ≤ maskLength e'.mask ↔ e.mask.toNat ≤ e'.mask.toNat := by
  obtain ⟨m, hm, hmask⟩ := he.contiguous
  obtain ⟨n, hn, hmask'⟩ := he'.contiguous
  rw [hmask, hmask', maskLength_netmask m hm, maskLength_netmask n hn]
  constructor
  · intro hle
    rcases Nat.lt_or_eq_of_le hle with hlt | rfl
    · exact (netmask_strictMono hlt hn).le
    · exact le_rfl
  · intro hle
    by_contra hlt
    exact absurd hle (not_le.mpr (netmask_strictMono (by omega) hm))

/-- A default route matches everything. -/
theorem matches_of_mask_zero {e : RouteTableEntry} (he : WellFormed e) (h0 : e.mask = 0)
    (destIp : BitVec 32) : e.Matches destIp := by
  have hmasked := he.masked
  rw [h0] at hmasked
  rw [RouteTableEntry.Matches, h0, ← hmasked]
  exact BitVec.and_zero.trans BitVec.and_zero.symm

/-- **The exact condition for the longest match.** -/
theorem longest_prefix_lab04_iff {rtable : List RouteTableEntry} (hwf : ∀ e ∈ rtable, WellFormed e)
    (destIp : BitVec 32) : Correct rtable destIp (getBestRoute rtable destIp) ↔
      (∀ e ∈ rtable, e.mask ≠ 0) ∨ ∃ e ∈ rtable, e.Matches destIp ∧ e.mask ≠ 0 := by
  cases hres : getBestRoute rtable destIp with
  | none =>
    have hzero := getBestRoute_eq_none_iff.mp hres
    constructor
    · intro hnone
      exact Or.inl fun e he h0 => hnone e he (matches_of_mask_zero (hwf e he) h0 destIp)
    · rintro (hne | ⟨e, he, hm, h0⟩)
      · exact fun e he hm => hne e he (hzero e he hm)
      · exact absurd (hzero e he hm) h0
  | some entry =>
    obtain ⟨hmem, hmatch, hmax⟩ := getBestRoute_some hres
    have hne : ¬ ∀ e ∈ rtable, e.Matches destIp → e.mask = 0 := fun h => by
      rw [← getBestRoute_eq_none_iff, hres] at h
      cases h
    push Not at hne
    have hlongest : Longest rtable destIp entry := ⟨hmem, hmatch, fun e he hm =>
      (maskLength_le_iff (hwf e he) (hwf entry hmem)).mpr (hmax e he hm)⟩
    exact iff_of_true hlongest (Or.inr hne)

/-- A default route and `10.0.0.0/8`. -/
def defaultTable : List RouteTableEntry := [⟨0, 1, netmask 0, 0⟩, ⟨0x0000000A, 2, netmask 8, 1⟩]

theorem defaultTable_wellFormed : ∀ e ∈ defaultTable, WellFormed e := by
  simp only [defaultTable, List.forall_mem_cons]
  exact ⟨⟨⟨0, by decide, rfl⟩, by decide⟩, ⟨⟨8, by decide, rfl⟩, by decide⟩, by simp⟩

/-- `10.0.0.1` gets the longer of the two. -/
theorem defaultTable_specific :
    Correct defaultTable 0x0100000A (getBestRoute defaultTable 0x0100000A) :=
  (longest_prefix_lab04_iff defaultTable_wellFormed 0x0100000A).mpr
    (Or.inr ⟨⟨0x0000000A, 2, netmask 8, 1⟩, by decide, by decide, by decide⟩)

/-- **The default route is lost**: `9.0.0.1` matches it and gets the null pointer. -/
theorem default_route_lost : ∃ rtable destIp, (∀ e ∈ rtable, WellFormed e) ∧
    getBestRoute rtable destIp = none ∧ ¬ Correct rtable destIp (getBestRoute rtable destIp) := by
  have hres : getBestRoute defaultTable 0x01000009 = none := by decide
  refine ⟨defaultTable, 0x01000009, defaultTable_wellFormed, hres, ?_⟩
  rw [hres]
  intro hnone
  exact hnone ⟨0, 1, netmask 0, 0⟩ (by decide) (by decide)

end Pcom.Lab04.Router
