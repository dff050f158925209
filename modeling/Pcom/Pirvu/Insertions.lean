import Mathlib.Data.List.Find
import Pcom.Pirvu.RTable

/-!
# What the trie keeps

An entry is stored under the low bits of its prefix word, as many as `getMaskLength` counts.  That is one too few
for a host route, none for a default route, and where a length is no multiple of 8 the low bits of the last byte
are not the ones the mask leaves.

* `holds_iff` — **what a node holds**: the entry inserted last on its path;
* `keeps_iff` — **the exact condition** under which nothing is lost: all lengths are from 1 to 31, and two prefixes
  of one length differ in the bits they are stored under (`Separate`);
* `separate_of_octets` — tables of `/8`, `/16` and `/24` networks meet it;
* `half_networks_lost` — `10.0.0.0/9` is overwritten by `10.128.0.0/9`.
-/

namespace Pcom.Pirvu.Insertions

open Pcom.Lib.BitTrie Pcom.Lib.BitTrie.Trie Pcom.Lib.Ipv4 Pcom.Pirvu.RTable

/-- The length of the mask. -/
def routeLength (e : RTableEntry) : ℕ := maskLength e.mask

/-- What tells two routes apart. -/
def key (e : RTableEntry) : BitVec 32 × ℕ := (e.pfx, routeLength e)

/-- An entry with a contiguous mask and no bits outside it. -/
structure WellFormed (e : RTableEntry) : Prop where
  contiguous : ∃ L ≤ 32, e.mask = hostMask L
  masked : e.pfx &&& swapBytes e.mask = e.pfx

/-- `Trie::insert` for one entry after the other. -/
def inserted (entries : List RTableEntry) : Trie RTableEntry :=
  insertAll empty path id (node empty null null) entries

/-- `parseRTable` is such a sequence of insertions. -/
theorem parseRTable_eq_inserted (rows : List Row) : parseRTable rows = inserted (rows.map Row.entry) :=
  parseRTable_eq rows

/-- The node at the end of the path holds the entry. -/
def Holds (entries : List RTableEntry) (π : List Bool) (e : RTableEntry) : Prop :=
  (inserted entries).lookup π = some e ∧ e ≠ empty

/-- The entry inserted last with this prefix and length. -/
def lastWith (entries : List RTableEntry) (k : BitVec 32 × ℕ) : Option RTableEntry :=
  entries.reverse.find? fun e => key e = k

/-- No route is lost; `bit` says in which order the bits of a prefix are read. -/
structure Keeps (bit : BitVec 32 → ℕ → Bool) (entries : List RTableEntry) : Prop where
  placed : ∀ π e, Holds entries π e → routeLength e = π.length ∧ ∀ i < π.length, π[i]? = some (bit e.pfx i)
  held : ∀ e ∈ entries, ∀ e', lastWith entries (key e) = some e' → ∃ π, Holds entries π e'
  apart : ∀ before e, before ++ [e] <+: entries → ∀ π e', Holds before π e' → key e' ≠ key e →
    Holds (before ++ [e]) π e'

/-- The lengths are from 1 to 31, and two prefixes of one length differ in the bits they are stored under. -/
structure Separate (entries : List RTableEntry) : Prop where
  lengths : ∀ e ∈ entries, 1 ≤ routeLength e ∧ routeLength e ≤ 31
  bits : ∀ e ∈ entries, ∀ e' ∈ entries, routeLength e = routeLength e' →
    (∀ i < routeLength e, e.pfx.getLsbD i = e'.pfx.getLsbD i) → e.pfx = e'.pfx

/-! ### Lengths and paths -/

theorem getMaskLength_hostMask : ∀ L ≤ 32, getMaskLength (hostMask L) = min L 31 := by decide

theorem maskLength_hostMask : ∀ L ≤ 32, maskLength (hostMask L) = L := by decide

/-- `getMaskLength` does not look at the last bit. -/
theorem WellFormed.maskLen {e : RTableEntry} (h : WellFormed e) : e.maskLen = min (routeLength e) 31 := by
  obtain ⟨L, hL, hmask⟩ := h.contiguous
  rw [RTableEntry.maskLen, routeLength, hmask, getMaskLength_hostMask L hL, maskLength_hostMask L hL]

theorem routeLength_empty : routeLength empty = 0 := by decide

theorem getElem?_path {e : RTableEntry} {i : ℕ} (hi : i < e.maskLen) : (path e)[i]? = some (e.pfx.getLsbD i) := by
  rw [path, List.getElem?_map, List.getElem?_range hi]
  rfl

variable {entries : List RTableEntry}

theorem path_eq_of_key {e e' : RTableEntry} (he : WellFormed e) (he' : WellFormed e') (hkey : key e = key e') :
    path e = path e' := by
  obtain ⟨hpfx, hlen⟩ := Prod.mk.inj hkey
  rw [path, path, he.maskLen, he'.maskLen, hpfx, hlen]

/-- Separate entries are stored under one path only if they are of one route. -/
theorem Separate.key_eq (h : Separate entries) (hwf : ∀ e ∈ entries, WellFormed e) {e e' : RTableEntry}
    (he : e ∈ entries) (he' : e' ∈ entries) (hpath : path e = path e') : key e = key e' := by
  have hle := (h.lengths e he).2
  have hle' := (h.lengths e' he').2
  have hlen : routeLength e = routeLength e' := by
    have hlens := congrArg List.length hpath
    rw [length_path, length_path, (hwf e he).maskLen, (hwf e' he').maskLen] at hlens
    omega
  refine Prod.ext (h.bits e he e' he' hlen fun i hi => ?_) hlen
  have hbit := getElem?_path (e := e) (i := i) (by rw [(hwf e he).maskLen]; omega)
  have hbit' := getElem?_path (e := e') (i := i) (by rw [(hwf e' he').maskLen]; omega)
  rw [hpath, hbit'] at hbit
  exact (Option.some.inj hbit).symm

/-! ### What a node holds -/

/-- **What a node holds.** -/
theorem holds_iff (entries : List RTableEntry) (π : List Bool) (e : RTableEntry) :
    Holds entries π e ↔ π ≠ [] ∧ lastOn path entries π = some e ∧ e ≠ empty := by
  by_cases hπ : π = []
  · subst hπ
    refine iff_of_false (fun h => h.2 ?_) fun h => h.1 rfl
    exact Option.some.inj (h.1.symm.trans (lookup_insertAll_nil empty path id entries))
  · have hlookup := (lookup_insertAll empty path id entries hπ).2
    rw [Option.map_id, id] at hlookup
    rw [Holds, inserted, hlookup, and_iff_right hπ, and_congr_left_iff]
    intro hne
    by_cases hthrough : Through path entries π
    · rw [if_pos hthrough]
      cases lastOn path entries π with
      | none => simp [Ne.symm hne]
      | some e' => simp
    · have hnone : lastOn path entries π = none := by
        rw [lastOn, List.find?_eq_none]
        intro e' he' heq
        exact hthrough ⟨e', List.mem_reverse.mp he', of_decide_eq_true heq ▸ List.prefix_rfl⟩
      rw [if_neg hthrough, hnone]

/-- An entry that is held has been inserted on the path where it is. -/
theorem Holds.mem {π : List Bool} {e : RTableEntry} (h : Holds entries π e) :
    e ∈ entries ∧ path e = π ∧ π ≠ [] := by
  obtain ⟨hπ, hlast, -⟩ := (holds_iff entries π e).mp h
  exact ⟨List.mem_reverse.mp (List.mem_of_find?_eq_some hlast), by simpa using List.find?_some hlast, hπ⟩

theorem Holds.unique {π : List Bool} {e e' : RTableEntry} (h : Holds entries π e) (h' : Holds entries π e') :
    e = e' := Option.some.inj (h.1.symm.trans h'.1)

theorem key_of_lastWith {k : BitVec 32 × ℕ} {e : RTableEntry} (h : lastWith entries k = some e) : key e = k := by
  simpa using List.find?_some h

theorem exists_lastWith {e : RTableEntry} (he : e ∈ entries) : ∃ e', lastWith entries (key e) = some e' := by
  rw [← Option.isSome_iff_exists, lastWith, List.find?_isSome]
  exact ⟨e, List.mem_reverse.mpr he, decide_eq_true rfl⟩

/-! ### The exact condition -/

/-- The route of an inserted entry is held, under its own path. -/
theorem Keeps.holds {bit : BitVec 32 → ℕ → Bool} (h : Keeps bit entries) (hwf : ∀ e ∈ entries, WellFormed e)
    {e : RTableEntry} (he : e ∈ entries) : ∃ e', Holds entries (path e) e' ∧ key e' = key e := by
  obtain ⟨e', hlast⟩ := exists_lastWith he
  obtain ⟨π, hπ⟩ := h.held e he e' hlast
  obtain ⟨hmem, hpath, -⟩ := hπ.mem
  have hkey := key_of_lastWith hlast
  rw [← hpath, path_eq_of_key (hwf e' hmem) (hwf e he) hkey] at hπ
  exact ⟨e', hπ, hkey⟩

theorem Keeps.separate {bit : BitVec 32 → ℕ → Bool} (h : Keeps bit entries) (hwf : ∀ e ∈ entries, WellFormed e) :
    Separate entries ∧ ∀ e ∈ entries, ∀ i < routeLength e, bit e.pfx i = e.pfx.getLsbD i := by
  have hlength : ∀ e ∈ entries, 1 ≤ routeLength e ∧ routeLength e ≤ 31 := by
    intro e he
    obtain ⟨e', hholds, hkey⟩ := h.holds hwf he
    have hlen := (h.placed _ _ hholds).1
    have hpos := List.length_pos_iff.mpr hholds.mem.2.2
    rw [(Prod.mk.inj hkey).2] at hlen
    rw [length_path, (hwf e he).maskLen] at hlen hpos
    omega
  refine ⟨⟨hlength, fun e he e' he' hlen hbits => ?_⟩, fun e he i hi => ?_⟩
  · -- both routes are held at the end of one path
    have hpath : path e = path e' := by
      rw [path, path, (hwf e he).maskLen, (hwf e' he').maskLen, ← hlen, List.map_inj_left]
      intro i hi
      have hi' := List.mem_range.mp hi
      exact hbits i (by omega)
    obtain ⟨d, hd, hkey⟩ := h.holds hwf he
    obtain ⟨d', hd', hkey'⟩ := h.holds hwf he'
    rw [← hpath] at hd'
    rw [hd.unique hd', hkey'] at hkey
    exact (Prod.mk.inj hkey).1.symm
  · have hle := (hlength e he).2
    obtain ⟨e', hholds, hkey⟩ := h.holds hwf he
    have hi' : i < e.maskLen := by
      rw [(hwf e he).maskLen]
      omega
    have hbit := (h.placed _ _ hholds).2 i (by rwa [length_path])
    rw [getElem?_path hi', (Prod.mk.inj hkey).1] at hbit
    exact (Option.some.inj hbit).symm

theorem Separate.keeps {bit : BitVec 32 → ℕ → Bool} (h : Separate entries) (hwf : ∀ e ∈ entries, WellFormed e)
    (hbit : ∀ e ∈ entries, ∀ i < routeLength e, bit e.pfx i = e.pfx.getLsbD i) : Keeps bit entries := by
  have hmaskLen (e : RTableEntry) (he : e ∈ entries) : e.maskLen = routeLength e := by
    have hle := (h.lengths e he).2
    rw [(hwf e he).maskLen]
    omega
  refine ⟨fun π e hholds => ?_, fun e he e' hlast => ?_, fun before e hpre π e' hholds hkey => ?_⟩
  · obtain ⟨hmem, hpath, -⟩ := hholds.mem
    rw [← hpath, length_path, hmaskLen e hmem]
    refine ⟨rfl, fun i hi => ?_⟩
    rw [getElem?_path (by rwa [hmaskLen e hmem]), hbit e hmem i hi]
  · have hmem : e' ∈ entries := List.mem_reverse.mp (List.mem_of_find?_eq_some hlast)
    have hpos := (h.lengths e' hmem).1
    refine ⟨path e', (holds_iff entries _ e').mpr ⟨?_, ?_, ?_⟩⟩
    · rw [← List.length_pos_iff, length_path, hmaskLen e' hmem]
      exact hpos
    · -- the last entry on the path is the last one of the route
      rw [← key_of_lastWith hlast, lastWith] at hlast
      rw [← hlast, lastOn]
      refine List.find?_congr fun d hd => ?_
      have hd' := List.mem_reverse.mp hd
      exact decide_eq_decide.mpr ⟨h.key_eq hwf hd' hmem, path_eq_of_key (hwf d hd') (hwf e' hmem)⟩
    · intro heq
      rw [heq, routeLength_empty] at hpos
      exact absurd hpos (by decide)
  · have hsub : ∀ d ∈ before ++ [e], d ∈ entries := fun d hd => hpre.subset hd
    obtain ⟨hmem, hpath, hne⟩ := hholds.mem
    obtain ⟨-, hlast, hfull⟩ := (holds_iff before π e').mp hholds
    have hother : path e ≠ π := by
      intro hsame
      exact hkey (h.key_eq hwf (hsub e' (List.mem_append_left [e] hmem))
        (hsub e (List.mem_append_right before List.mem_cons_self)) (hpath.trans hsame.symm))
    refine (holds_iff _ π e').mpr ⟨hne, ?_, hfull⟩
    rw [lastOn, List.reverse_append, List.reverse_singleton, List.singleton_append,
      List.find?_cons_of_neg (by simpa using hother)]
    exact hlast

/-- **When no route is lost.** -/
theorem keeps_iff (hwf : ∀ e ∈ entries, WellFormed e) (bit : BitVec 32 → ℕ → Bool) :
    Keeps bit entries ↔ Separate entries ∧ ∀ e ∈ entries, ∀ i < routeLength e, bit e.pfx i = e.pfx.getLsbD i :=
  ⟨fun h => h.separate hwf, fun h => h.1.keeps hwf h.2⟩

theorem getLsbD_netmask : ∀ L ∈ [8, 16, 24], ∀ i < 32, (netmask L).getLsbD i = decide (i < L) := by decide

/-- **Whole octets**: a table of `/8`, `/16` and `/24` networks is separate. -/
theorem separate_of_octets (hwf : ∀ e ∈ entries, WellFormed e) (hoctets : ∀ e ∈ entries, routeLength e ∈ [8, 16, 24]) :
    Separate entries := by
  refine ⟨fun e he => ?_, fun e he e' he' hlen hbits => ?_⟩
  · have hrange : ∀ L ∈ [8, 16, 24], 1 ≤ L ∧ L ≤ 31 := by decide
    exact hrange _ (hoctets e he)
  · -- behind its length a prefix has no bits
    have hzero : ∀ d ∈ entries, ∀ i < 32, routeLength d ≤ i → d.pfx.getLsbD i = false := by
      intro d hd i hi hle
      obtain ⟨L, hL, hmask⟩ := (hwf d hd).contiguous
      have hoctet := hoctets d hd
      rw [routeLength, hmask, maskLength_hostMask L hL] at hoctet hle
      rw [← (hwf d hd).masked, hmask, BitVec.getLsbD_and, ← netmask, getLsbD_netmask L hoctet i hi,
        decide_eq_false (by omega), Bool.and_false]
    refine BitVec.eq_of_getLsbD_eq fun i hi => ?_
    by_cases hlow : i < routeLength e
    · exact hbits i hlow
    · rw [hzero e he i hi (by omega), hzero e' he' i hi (by omega)]

/-- `10.0.0.0/8` and `10.1.0.0/16`. -/
def nestedEntries : List RTableEntry := [⟨0x0000000A, 1, hostMask 8, 0⟩, ⟨0x0000010A, 2, hostMask 16, 1⟩]

theorem nestedEntries_wellFormed : ∀ e ∈ nestedEntries, WellFormed e := by
  simp only [nestedEntries, List.forall_mem_cons]
  exact ⟨⟨⟨8, by decide, rfl⟩, by decide⟩, ⟨⟨16, by decide, rfl⟩, by decide⟩, by simp⟩

/-- Nested networks are kept. -/
theorem nestedEntries_kept : Keeps BitVec.getLsbD nestedEntries :=
  (keeps_iff nestedEntries_wellFormed BitVec.getLsbD).mpr ⟨⟨by decide, by decide⟩, fun _ _ _ _ => rfl⟩

/-- `10.0.0.0/9` and `10.128.0.0/9`. -/
def halfNetworks : List RTableEntry := [⟨0x0000000A, 1, hostMask 9, 0⟩, ⟨0x0000800A, 2, hostMask 9, 1⟩]

theorem halfNetworks_wellFormed : ∀ e ∈ halfNetworks, WellFormed e := by
  simp only [halfNetworks, List.forall_mem_cons]
  exact ⟨⟨⟨9, by decide, rfl⟩, by decide⟩, ⟨⟨9, by decide, rfl⟩, by decide⟩, by simp⟩

/-- **Two halves of a network**: the second is stored in the place of the first, in whatever order their bits are
meant to be read. -/
theorem half_networks_lost : ∃ entries, (∀ e ∈ entries, WellFormed e) ∧ ∀ bit, ¬ Keeps bit entries := by
  refine ⟨halfNetworks, halfNetworks_wellFormed, fun bit h => ?_⟩
  have hsame := (h.separate halfNetworks_wellFormed).1.bits _ List.mem_cons_self _
    (List.mem_cons_of_mem _ List.mem_cons_self) (by decide) (by decide)
  exact absurd hsame (by decide)

end Pcom.Pirvu.Insertions
