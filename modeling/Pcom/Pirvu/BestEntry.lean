import Pcom.Pirvu.RTable

/-!
# Longest-prefix match of the trie router

The walk stores the value of every node it passes, falls back to the `0`-child for a `1`-bit, and follows
the bits of each address byte from its low end.

* `findBestEntry_eq_iff` — **which entry is returned**: the one whose stored bits the walk follows to their
  end and no further, and which came last on these bits (`Selected`);
* `best_entry_iff` — **the exact condition** for the answer to be the longest match: every longest match
  is selected and has a prefix other than `0`;
* `fallback_misleads` — `10.1.0.0/16` is returned for `10.3.0.1`, which only `10.0.0.0/8` matches.
-/

namespace Pcom.Pirvu.BestEntry

open Pcom.Lib.BitTrie Pcom.Lib.BitTrie.Trie Pcom.Lib.Ipv4 Pcom.Pirvu.RTable

/-! ### The entry returned -/

/-- The walk for `ip` follows the bits of `e` and ends with them, and `e` is the last entry on them. -/
structure Selected (entries : List RTableEntry) (ip : BitVec 32) (e : RTableEntry) : Prop where
  nonzero : ip ≠ 0
  first : (path e)[0]? = some (ip.getLsbD 0)
  guided : ∀ p b, 1 ≤ p → (path e)[p]? = some b →
    Choice (Through path entries) (fun i => ip.getLsbD i) ((path e).take p) b
  ends : ∀ b, ¬ Choice (Through path entries) (fun i => ip.getLsbD i) (path e) b
  last : lastOn path entries (path e) = some e

theorem mem_of_lastOn {entries : List RTableEntry} {π : List Bool} {e : RTableEntry}
    (h : lastOn path entries π = some e) : e ∈ entries ∧ path e = π :=
  ⟨List.mem_reverse.mp (List.mem_of_find?_eq_some h), by simpa using List.find?_some h⟩

theorem singleton_prefix_iff {b : Bool} {π : List Bool} : [b] <+: π ↔ π[0]? = some b := by
  cases π with
  | nil => simp
  | cons c π => simp [List.cons_prefix_cons, eq_comm]

/-- What a node below the root holds. -/
theorem lookup_child (rows : List Row) (b : Bool) (σ : List Bool) : ((parseRTable rows).child b).lookup σ =
    if Through path (rows.map Row.entry) (b :: σ) then some ((lastOn path (rows.map Row.entry) (b :: σ)).getD empty)
    else none := by
  rw [← lookup_cons, parseRTable_eq,
    (lookup_insertAll empty path id (rows.map Row.entry) (List.cons_ne_nil b σ)).2, Option.map_id]
  rfl

theorem isSome_lookup_child (rows : List Row) (b : Bool) (σ : List Bool) :
    (((parseRTable rows).child b).lookup σ).isSome = true ↔ Through path (rows.map Row.entry) (b :: σ) := by
  rw [lookup_child]
  split
  · exact iff_of_true rfl ‹_›
  · exact iff_of_false (by simp) ‹_›

/-- **Which entry is returned.** -/
theorem findBestEntry_eq_iff {rows : List Row} {ip : BitVec 32} {e : RTableEntry} (he : e.pfx ≠ 0) :
    findBestEntry rows ip = e ↔ Selected (rows.map Row.entry) ip e := by
  have hempty : empty ≠ e := fun h => he (h ▸ rfl)
  have hsome := isSome_lookup_child rows (ip.getLsbD 0)
  by_cases hip : ip = 0
  · have hres : findBestEntry rows ip = empty := by
      rw [findBestEntry, getPrefix, hip, if_neg (by decide)]
    rw [hres]
    exact iff_of_false hempty fun h => h.nonzero hip
  · have hpos : (0 : BitVec 32) < ip := by
      have hne : ip.toNat ≠ 0 := fun h => hip (BitVec.eq_of_toNat_eq h)
      exact BitVec.lt_def.mpr (Nat.pos_of_ne_zero hne)
    have hres : findBestEntry rows ip = descend 32 (fun i => ip.getLsbD i)
        ((parseRTable rows).child (ip.getLsbD 0)) 1 empty := by
      rw [findBestEntry, getPrefix, if_pos hpos]
    cases hnull : ((parseRTable rows).child (ip.getLsbD 0)).isNull with
    | true =>
      have hnone : ¬ Through path (rows.map Row.entry) [ip.getLsbD 0] := by
        rw [← hsome, ← Option.not_isNone, ← isNull_eq, hnull]
        simp
      have hempty' : findBestEntry rows ip = empty := by
        rw [hres]
        cases hchild : (parseRTable rows).child (ip.getLsbD 0) with
        | null => rfl
        | node d c0 c1 =>
          rw [hchild] at hnull
          cases hnull
      rw [hempty']
      refine iff_of_false hempty fun h => hnone ?_
      exact ⟨e, (mem_of_lastOn h.last).1, singleton_prefix_iff.mpr h.first⟩
    | false =>
      obtain ⟨π, hleads, hthrough, hdesc⟩ := descend_spec 32 (fun i => ip.getLsbD i)
        (Through path (rows.map Row.entry)) (fun π => (lastOn path (rows.map Row.entry) π).getD empty)
        [ip.getLsbD 0] hnull (fun σ => (hsome σ).symm)
        (fun σ d hd => by
          rw [lookup_child] at hd
          split at hd
          · exact Option.some.inj hd
          · cases hd)
        (fun σ hσ => by
          obtain ⟨e', -, hpre⟩ := (hsome σ).mp hσ
          have hle := hpre.length_le
          have hlen := getMaskLength_le e'.mask
          rw [length_path, RTableEntry.maskLen] at hle
          rw [List.length_cons] at hle
          rw [List.length_singleton]
          omega) empty
      have hval : findBestEntry rows ip = (lastOn path (rows.map Row.entry) π).getD empty := by
        rw [hres]
        exact hdesc
      rw [hval]
      constructor
      · intro h
        cases hlast : lastOn path (rows.map Row.entry) π with
        | none =>
          rw [hlast] at h
          exact absurd h hempty
        | some e' =>
          rw [hlast, Option.getD_some] at h
          subst h
          obtain ⟨-, rfl⟩ := mem_of_lastOn hlast
          exact ⟨hip, singleton_prefix_iff.mp hleads.below, fun p b hp hb => hleads.choices p b hp hb,
            hleads.ends, hlast⟩
      · intro h
        have hleads' : Leads (Through path (rows.map Row.entry)) (fun i => ip.getLsbD i) [ip.getLsbD 0]
            (path e) :=
          ⟨singleton_prefix_iff.mpr h.first, fun p b hp hb => h.guided p b hp hb, h.ends⟩
        rw [hleads.unique hleads', h.last, Option.getD_some]

/-! ### The exact condition -/

/-- The entry matches the destination. -/
def Matches (e : RTableEntry) (ip : BitVec 32) : Prop := ip &&& swapBytes e.mask = e.pfx

instance (e : RTableEntry) (ip : BitVec 32) : Decidable (Matches e ip) :=
  inferInstanceAs (Decidable (_ = _))

/-- A longest match. -/
structure Longest (entries : List RTableEntry) (ip : BitVec 32) (e : RTableEntry) : Prop where
  mem : e ∈ entries
  matches_ : Matches e ip
  longest : ∀ e' ∈ entries, Matches e' ip → maskLength e'.mask ≤ maskLength e.mask

/-- The longest match is returned if something matches, and an entry with prefix `0`, which `main` takes
for none, only if nothing does. -/
structure Correct (entries : List RTableEntry) (ip : BitVec 32) (result : RTableEntry) : Prop where
  longest : ∀ e, Longest entries ip e → result = e
  missing : result.pfx = 0 → ∀ e ∈ entries, ¬ Matches e ip

/-- Where nothing matches, `main` sees no entry. -/
def NoFalseMatch (entries : List RTableEntry) (ip : BitVec 32) (result : RTableEntry) : Prop :=
  (∀ e ∈ entries, ¬ Matches e ip) → result.pfx = 0

theorem exists_longest {entries : List RTableEntry} {ip : BitVec 32} {e : RTableEntry}
    (he : e ∈ entries) (hm : Matches e ip) : ∃ e', Longest entries ip e' := by
  induction entries generalizing e with
  | nil => exact absurd he List.not_mem_nil
  | cons a entries ih =>
    by_cases htail : ∃ e' ∈ entries, Matches e' ip
    · obtain ⟨e', he', hm'⟩ := htail
      obtain ⟨b, hb⟩ := ih he' hm'
      by_cases ha : Matches a ip ∧ maskLength b.mask < maskLength a.mask
      · refine ⟨a, List.mem_cons_self, ha.1, ?_⟩
        rw [List.forall_mem_cons]
        exact ⟨fun _ => Nat.le_refl _, fun c hc hmc => Nat.le_trans (hb.longest c hc hmc) (Nat.le_of_lt ha.2)⟩
      · refine ⟨b, List.mem_cons_of_mem a hb.mem, hb.matches_, ?_⟩
        rw [List.forall_mem_cons]
        exact ⟨fun hma => Nat.not_lt.mp fun hlt => ha ⟨hma, hlt⟩, hb.longest⟩
    · have hall : ∀ e' ∈ entries, ¬ Matches e' ip := fun e' he' hm' => htail ⟨e', he', hm'⟩
      rcases List.mem_cons.mp he with rfl | he
      · refine ⟨e, List.mem_cons_self, hm, ?_⟩
        rw [List.forall_mem_cons]
        exact ⟨fun _ => Nat.le_refl _, fun c hc hmc => absurd hmc (hall c hc)⟩
      · exact absurd hm (hall e he)

/-- What is returned is an entry of the table or the empty entry. -/
theorem selected_of_pfx {rows : List Row} {ip : BitVec 32} (h : (findBestEntry rows ip).pfx ≠ 0) :
    Selected (rows.map Row.entry) ip (findBestEntry rows ip) :=
  (findBestEntry_eq_iff h).mp rfl

/-- **The exact condition for the longest match**: every longest match is selected and has a prefix other
than `0`; and for the answer where nothing matches: no other entry is selected. -/
theorem best_entry_iff (rows : List Row) (ip : BitVec 32) :
    (Correct (rows.map Row.entry) ip (findBestEntry rows ip) ↔
      ∀ e, Longest (rows.map Row.entry) ip e → e.pfx ≠ 0 ∧ Selected (rows.map Row.entry) ip e) ∧
    (NoFalseMatch (rows.map Row.entry) ip (findBestEntry rows ip) ↔
      ((∀ e ∈ rows.map Row.entry, ¬ Matches e ip) →
        ∀ e, e.pfx ≠ 0 → ¬ Selected (rows.map Row.entry) ip e)) := by
  constructor
  · constructor
    · intro h e he
      have hres := h.longest e he
      have hne : e.pfx ≠ 0 := by
        intro hzero
        exact h.missing (by rw [hres, hzero]) e he.mem he.matches_
      exact ⟨hne, (findBestEntry_eq_iff hne).mp hres⟩
    · intro h
      refine ⟨fun e he => (findBestEntry_eq_iff (h e he).1).mpr (h e he).2, ?_⟩
      intro hzero e hmem hm
      obtain ⟨e', he'⟩ := exists_longest hmem hm
      have hres := (findBestEntry_eq_iff (h e' he').1).mpr (h e' he').2
      exact (h e' he').1 (by rw [← hres, hzero])
  · refine forall_congr' fun _ => ?_
    constructor
    · intro hzero e hne hsel
      rw [(findBestEntry_eq_iff hne).mpr hsel] at hzero
      exact hne hzero
    · intro h
      by_contra hne
      exact h _ hne (selected_of_pfx hne)

/-! ### A fallback onto another network -/

/-- `10.0.0.0/8` and `10.1.0.0/16`. -/
def twoRows : List Row := [⟨0x0000000A, 1, netmask 8, 0⟩, ⟨0x0000010A, 2, netmask 16, 1⟩]

theorem twoRows_wellFormed : (∀ row ∈ twoRows, ∃ length ≤ 32, row.mask = netmask length ∧
    row.pfx &&& row.mask = row.pfx) ∧ (twoRows.map fun row => (row.pfx, row.mask)).Nodup := by
  constructor
  · simp only [twoRows, List.forall_mem_cons]
    exact ⟨⟨8, by decide, rfl, by decide⟩, ⟨16, by decide, rfl, by decide⟩, by simp⟩
  · decide

/-- **The fallback misleads**: `10.3.0.1` matches only `10.0.0.0/8`, and `10.1.0.0/16` is returned. -/
theorem fallback_misleads :
    ∃ rows : List Row, ∃ ip, (∀ row ∈ rows, ∃ length ≤ 32, row.mask = netmask length ∧
      row.pfx &&& row.mask = row.pfx) ∧ (rows.map fun row => (row.pfx, row.mask)).Nodup ∧
        ¬ Correct (rows.map Row.entry) ip (findBestEntry rows ip) := by
  refine ⟨twoRows, 0x0100030A, twoRows_wellFormed.1, twoRows_wellFormed.2, fun h => ?_⟩
  have hlongest : Longest (twoRows.map Row.entry) 0x0100030A ⟨0x0000000A, 1, hostMask 8, 0⟩ :=
    ⟨by decide, by decide, by decide⟩
  have hres := h.longest _ hlongest
  revert hres
  decide

end Pcom.Pirvu.BestEntry
