import Mathlib.Data.List.Nodup
import Mathlib.Logic.Function.Basic

/-!
# Sweeping a list of references

A container of pointers holds references, and a pass over it updates the objects behind them in place.  What
the pass hands out is then what a pass over the *values* would hand out only as far as the references do not
alias.

* `sweep` offers every referenced object to a handler, which updates it and emits something or leaves it;
* `sweep_out_of_nodup`, `nodup_of_sweep_out` — **without aliases, and only so**, each object is handled
  as it was before the pass;
* `funnel` copies the objects one by one through a single cell and collects references to that cell;
  `funnel_contents` — what is collected denotes the last object, as many times as there were objects.
-/

namespace Pcom.Lib.Sweep

open Function

variable {ρ α ω : Type*} [DecidableEq ρ] {handle : α → Option (α × ω)} {mem : ρ → α} {r : ρ}
  {rs : List ρ}

/-! ### Updating in place -/

/-- One pass over the references: the memory after it, the references left alone, what was emitted. -/
def sweep (handle : α → Option (α × ω)) : List ρ → (ρ → α) → (ρ → α) × List ρ × List ω
  | [], mem => (mem, [], [])
  | r :: rs, mem =>
    match handle (mem r) with
    | none =>
      let (mem', kept, out) := sweep handle rs mem
      (mem', r :: kept, out)
    | some (a, o) =>
      let (mem', kept, out) := sweep handle rs (update mem r a)
      (mem', kept, o :: out)

/-- An object stays due after it has been handled. -/
def Stable (handle : α → Option (α × ω)) : Prop :=
  ∀ a a' o, handle a = some (a', o) → (handle a').isSome

theorem isNone_update (hst : Stable handle) {a : α} {o : ω} (h : handle (mem r) = some (a, o))
    (r' : ρ) : (handle (update mem r a r')).isNone = (handle (mem r')).isNone := by
  by_cases hr : r' = r
  · subst hr
    rw [update_self, h, Option.isNone_eq_false_iff.mpr (hst _ _ _ h)]
    rfl
  · rw [update_of_ne hr]

/-- The references left alone are those of the objects not due, in order. -/
theorem sweep_kept (hst : Stable handle) :
    (sweep handle rs mem).2.1 = rs.filter fun r => (handle (mem r)).isNone := by
  induction rs generalizing mem with
  | nil => rfl
  | cons r rs ih =>
    rw [sweep, List.filter_cons]
    cases h : handle (mem r) with
    | none => simp [ih]
    | some p => simp [ih, isNone_update hst h]

/-- A pass changes no object that is not due. -/
theorem sweep_mem_of_none {r' : ρ} (hr' : handle (mem r') = none) :
    (sweep handle rs mem).1 r' = mem r' := by
  induction rs generalizing mem with
  | nil => rfl
  | cons r rs ih =>
    rw [sweep]
    cases h : handle (mem r) with
    | none => exact ih hr'
    | some p =>
      have hne : r' ≠ r := by
        rintro rfl
        rw [hr'] at h
        cases h
      show (sweep handle rs (update mem r p.1)).1 r' = mem r'
      rw [ih (by rwa [update_of_ne hne]), update_of_ne hne]

/-- Everything emitted comes from some object that was due. -/
theorem sweep_out_mem {o : ω} (ho : o ∈ (sweep handle rs mem).2.2) :
    ∃ a a', handle a = some (a', o) := by
  induction rs generalizing mem with
  | nil => cases ho
  | cons r rs ih =>
    rw [sweep] at ho
    cases h : handle (mem r) with
    | none => rw [h] at ho; exact ih ho
    | some p =>
      rw [h] at ho
      rcases List.mem_cons.mp ho with rfl | ho
      · exact ⟨_, _, h⟩
      · exact ih ho

theorem map_update_of_not_mem (h : r ∉ rs) (a : α) : rs.map (update mem r a) = rs.map mem := by
  rw [List.map_inj_left]
  intro r' hr'
  rw [update_of_ne]
  rintro rfl
  exact h hr'

/-- **Without aliases** every object that is due is handled as it was before the pass. -/
theorem sweep_out_of_nodup (h : rs.Nodup) :
    (sweep handle rs mem).2.2 = (rs.map mem).filterMap fun a => (handle a).map Prod.snd := by
  induction rs generalizing mem with
  | nil => rfl
  | cons r rs ih =>
    obtain ⟨hr, hrs⟩ := List.nodup_cons.mp h
    rw [sweep, List.map_cons, List.filterMap_cons]
    cases hh : handle (mem r) with
    | none => exact ih hrs
    | some p =>
      show p.2 :: (sweep handle rs (update mem r p.1)).2.2 = _
      rw [ih hrs, map_update_of_not_mem hr]
      rfl

/-- The pass splits at any point of the list. -/
theorem sweep_append (pre post : List ρ) :
    (sweep handle (pre ++ post) mem).2.2 =
      (sweep handle pre mem).2.2 ++ (sweep handle post (sweep handle pre mem).1).2.2 := by
  induction pre generalizing mem with
  | nil => rfl
  | cons r pre ih =>
    rw [List.cons_append, sweep, sweep]
    cases handle (mem r) with
    | none => exact ih
    | some p => exact congrArg _ ih

/-- An object no reference of the list points to is not touched. -/
theorem sweep_mem_of_not_mem (h : r ∉ rs) : (sweep handle rs mem).1 r = mem r := by
  induction rs generalizing mem with
  | nil => rfl
  | cons r' rs ih =>
    obtain ⟨hne, hrs⟩ := not_or.mp (mt List.mem_cons.mpr h)
    rw [sweep]
    cases handle (mem r') with
    | none => exact ih hrs
    | some p =>
      show (sweep handle rs (update mem r' p.1)).1 r = mem r
      rw [ih hrs, update_of_ne hne]

/-- While everything is due, a pass emits one thing for each reference. -/
theorem length_sweep_out (hst : Stable handle) (hdue : ∀ r ∈ rs, (handle (mem r)).isSome) :
    (sweep handle rs mem).2.2.length = rs.length := by
  induction rs generalizing mem with
  | nil => rfl
  | cons r rs ih =>
    obtain ⟨p, hp⟩ := Option.isSome_iff_exists.mp (hdue r List.mem_cons_self)
    rw [sweep, hp]
    have hdue' : ∀ r' ∈ rs, (handle (update mem r p.1 r')).isSome := by
      intro r' hr'
      rw [← Option.isNone_eq_false_iff, isNone_update hst hp, Option.isNone_eq_false_iff]
      exact hdue r' (List.mem_cons_of_mem _ hr')
    simp [ih hdue']

/-- **Aliases show**: if everything is due and handling an object twice emits something else the second
time, then what is emitted is right only without aliases. -/
theorem nodup_of_sweep_out (hst : Stable handle)
    (hagain : ∀ a a' o a'' o', handle a = some (a', o) → handle a' = some (a'', o') → o' ≠ o)
    (hdue : ∀ r ∈ rs, (handle (mem r)).isSome)
    (hout : (sweep handle rs mem).2.2 = (rs.map mem).filterMap fun a => (handle a).map Prod.snd) :
    rs.Nodup := by
  induction rs generalizing mem with
  | nil => exact List.nodup_nil
  | cons r rs ih =>
    obtain ⟨⟨a, o⟩, hp⟩ := Option.isSome_iff_exists.mp (hdue r List.mem_cons_self)
    have hdue' : ∀ r' ∈ rs, (handle (update mem r a r')).isSome := by
      intro r' hr'
      rw [← Option.isNone_eq_false_iff, isNone_update hst hp, Option.isNone_eq_false_iff]
      exact hdue r' (List.mem_cons_of_mem _ hr')
    rw [sweep, hp, List.map_cons, List.filterMap_cons, hp] at hout
    have htail : (sweep handle rs (update mem r a)).2.2 =
        (rs.map mem).filterMap fun a => (handle a).map Prod.snd := (List.cons.inj hout).2
    -- the first further reference to the same object would be handled a second time
    have hr : r ∉ rs := by
      intro hr
      obtain ⟨pre, post, rfl, hpre⟩ := List.eq_append_cons_of_mem hr
      obtain ⟨⟨a', o'⟩, hp'⟩ := Option.isSome_iff_exists.mp (hst _ _ _ hp)
      have hmem : (sweep handle pre (update mem r a)).1 r = a := by
        rw [sweep_mem_of_not_mem hpre, update_self]
      have hlen : (sweep handle pre (update mem r a)).2.2.length =
          ((pre.map mem).filterMap fun a => (handle a).map Prod.snd).length := by
        rw [length_sweep_out hst fun r' hr' => hdue' r' (List.mem_append_left _ hr'),
          List.filterMap_length_eq_length.mpr, List.length_map]
        simp only [List.mem_map, Option.isSome_map]
        rintro _ ⟨r', hr', rfl⟩
        exact hdue r' (List.mem_cons_of_mem _ (List.mem_append_left _ hr'))
      rw [sweep_append, List.map_append, List.filterMap_append] at htail
      have hrest := (List.append_inj htail hlen).2
      rw [sweep, hmem, hp', List.map_cons, List.filterMap_cons, hp] at hrest
      exact hagain _ _ _ _ _ hp hp' (List.cons.inj hrest).1
    rw [← map_update_of_not_mem hr a] at htail
    exact List.nodup_cons.mpr ⟨hr, ih hdue' htail⟩

/-! ### Copying through a cell -/

/-- Copy each object into the cell and collect the address of the cell. -/
def funnel (cell : ρ) : List ρ → (ρ → α) → (ρ → α) × List ρ
  | [], mem => (mem, [])
  | r :: rs, mem =>
    let (mem', refs) := funnel cell rs (update mem cell (mem r))
    (mem', cell :: refs)

theorem funnel_refs (cell : ρ) : (funnel cell rs mem).2 = List.replicate rs.length cell := by
  induction rs generalizing mem with
  | nil => rfl
  | cons r rs ih => exact congrArg _ ih

theorem funnel_cell {cell : ρ} (h : cell ∉ rs) (hlast : rs.getLast? = some r) :
    (funnel cell rs mem).1 cell = mem r := by
  induction rs generalizing mem with
  | nil => cases hlast
  | cons r' rs ih =>
    obtain ⟨hne, hrs⟩ := not_or.mp (mt List.mem_cons.mpr h)
    show (funnel cell rs (update mem cell (mem r'))).1 cell = mem r
    cases rs with
    | nil =>
      obtain rfl : r' = r := Option.some.inj hlast
      exact update_self ..
    | cons r₂ rs =>
      have hr : r ≠ cell := by
        rintro rfl
        exact hrs (List.mem_of_getLast? hlast)
      rw [ih hrs hlast, update_of_ne hr]

/-- Whatever the references, the cell ends up with one of the objects. -/
theorem funnel_cell_mem {cell : ρ} (hne : rs ≠ []) : (funnel cell rs mem).1 cell ∈ rs.map mem := by
  induction rs generalizing mem with
  | nil => exact absurd rfl hne
  | cons r rs ih =>
    show (funnel cell rs (update mem cell (mem r))).1 cell ∈ _
    rcases eq_or_ne rs [] with rfl | hrs
    · exact List.mem_singleton.mpr (update_self ..)
    · obtain ⟨r', hr', heq⟩ := List.mem_map.mp (ih hrs)
      rw [← heq]
      by_cases hcell : r' = cell
      · rw [hcell, update_self]
        exact List.mem_cons_self
      · rw [update_of_ne hcell]
        exact List.mem_cons_of_mem _ (List.mem_map_of_mem hr')

/-- **All that is collected denotes the last object.** -/
theorem funnel_contents {cell : ρ} (h : cell ∉ rs) (hlast : rs.getLast? = some r) :
    (funnel cell rs mem).2.map (funnel cell rs mem).1 = List.replicate rs.length (mem r) := by
  rw [funnel_refs, List.map_replicate, funnel_cell h hlast]

end Pcom.Lib.Sweep
