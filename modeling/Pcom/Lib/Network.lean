import Pcom.Lib.StepSystem
import Mathlib.Algebra.BigOperators.Fin
import Mathlib.Algebra.Order.BigOperators.Group.Finset
import Mathlib.Data.Fintype.BigOperators
import Mathlib.Tactic.Abel

/-!
# Networks of machines that pass frames on

Parties with a private memory take frames off their links, one at a time and in any order.  A party that
serves a frame passes at most one frame on, to another party or out of the network, and may stop for good.
Meanwhile frames are put in anywhere, links lose frames, parties are stopped.

* `lineage` — **nothing is made up and nothing is doubled**: what is on the links and what has left stems,
  frame by frame, from different frames that were put in;
* `served_add_potential_le` — **the network drains**: when every service uses up some of a potential, the
  number of services is bounded by the potential put in, however the links are laid and whatever the order.
-/

namespace Pcom.Lib.Network

open Function Pcom.Lib.StepSystem

variable {ι σ φ : Type*}

/-- What a party does with a frame: its memory afterwards (`none` when it stops), and the frame it passes on, with
the party that is to take it (`none` for a frame that leaves the network). -/
structure Service (ι σ φ : Type*) where
  mem : Option σ
  out : Option (Option ι × φ)

namespace Service

/-- The frame put on a link. -/
def passed (v : Service ι σ φ) : Multiset (ι × φ) :=
  match v.out with
  | some (some r, f) => {(r, f)}
  | _ => 0

/-- The frame that leaves the network. -/
def left (v : Service ι σ φ) : List φ :=
  match v.out with
  | some (none, f) => [f]
  | _ => []

/-- The frame a service passes on, in either direction. -/
theorem map_passed_add_left (v : Service ι σ φ) :
    v.passed.map Prod.snd + (v.left : Multiset φ) = (v.out.elim 0 fun o => {o.2}) := by
  rw [passed, left]
  cases hv : v.out with
  | none => rfl
  | some o =>
    obtain ⟨r, f⟩ := o
    cases r with
    | none => simp
    | some r => simp

end Service

/-- The memories of the parties (`none` for one that has stopped), and the frames on the links. -/
structure Net (ι σ φ : Type*) where
  mem : ι → Option σ
  flight : Multiset (ι × φ)

/-- What happens next.  Nothing says when, or in which order. -/
inductive Event (ι φ : Type*)
  | inject (r : ι) (f : φ)
  | lose (r : ι) (f : φ)
  | stop (r : ι)
  | serve (r : ι) (f : φ)

namespace Event

/-- The frame put into the network. -/
def injected : Event ι φ → Multiset φ
  | inject _ f => {f}
  | _ => 0

/-- Is a frame served? -/
def isServe : Event ι φ → Bool
  | serve _ _ => true
  | _ => false

end Event

section Effects

variable [DecidableEq ι] (serve : ι → σ → φ → Service ι σ φ)

/-- Everything put into the network so far. -/
def injected (h : List (Step (Net ι σ φ) (Event ι φ) φ)) : Multiset φ :=
  (h.map fun st => st.input.injected).sum

/-- The number of services so far. -/
def served (h : List (Step (Net ι σ φ) (Event ι φ) φ)) : ℕ := h.countP fun st => st.input.isServe

/-- What a step can do: a frame is put in, a frame or a party is lost, a running party serves a frame. -/
inductive Effect (s : Net ι σ φ) : Event ι φ → Net ι σ φ → List φ → Prop
  | inject (r : ι) (f : φ) : Effect s (.inject r f) ⟨s.mem, (r, f) ::ₘ s.flight⟩ []
  | lose {r : ι} {f : φ} {rest : Multiset (ι × φ)} (hf : s.flight = (r, f) ::ₘ rest) :
      Effect s (.lose r f) ⟨s.mem, rest⟩ []
  | stop (r : ι) : Effect s (.stop r) ⟨update s.mem r none, s.flight⟩ []
  | serve {r : ι} {f : φ} {m : σ} {rest : Multiset (ι × φ)} (hf : s.flight = (r, f) ::ₘ rest)
      (hm : s.mem r = some m) : Effect s (.serve r f)
        ⟨update s.mem r (serve r m f).mem, (serve r m f).passed + rest⟩ (serve r m f).left

variable {serve} {s s' : Net ι σ φ} {e : Event ι φ} {out : List φ}
  {h : List (Step (Net ι σ φ) (Event ι φ) φ)}

/-! ### Where frames come from -/

/-- What is on the links and what has left. -/
def present (s : Net ι σ φ) (h : List (Step (Net ι σ φ) (Event ι φ) φ)) : Multiset φ :=
  s.flight.map Prod.snd + (emitted h : Multiset φ)

variable {D : φ → φ → Prop}

/-- **One step**: what is present stems from what was present, and from what is put in. -/
theorem Effect.lineage {kept : Multiset φ} (htrans : ∀ a b c, D a b → D b c → D a c)
    (hserve : ∀ r m f a, D a f → ∀ o ∈ (serve r m f).out, D f o.2)
    (hrefl : ∀ f ∈ e.injected, D f f) (hkept : Multiset.Rel D kept (present s h)) (heff : Effect serve s e s' out) :
    ∃ kept' ≤ e.injected + kept, Multiset.Rel D kept' (present s' (⟨s, e, out⟩ :: h)) := by
  cases heff with
  | inject r f =>
    refine ⟨f ::ₘ kept, le_of_eq (Multiset.singleton_add f kept).symm, ?_⟩
    have hmore := Multiset.Rel.cons (hrefl f (Multiset.mem_singleton_self f)) hkept
    simpa [present, emitted] using hmore
  | @lose r f rest hf =>
    rw [present, hf, Multiset.map_cons, Multiset.cons_add, Multiset.rel_cons_right] at hkept
    obtain ⟨a, kept', -, hrest, rfl⟩ := hkept
    refine ⟨kept', ?_, by simpa [present, emitted] using hrest⟩
    exact le_trans (Multiset.le_cons_self kept' a) (Multiset.le_add_left _ _)
  | stop r =>
    exact ⟨kept, Multiset.le_add_left _ _, by simpa [present, emitted] using hkept⟩
  | @serve r f m rest hf hm =>
    rw [present, hf, Multiset.map_cons, Multiset.cons_add, Multiset.rel_cons_right] at hkept
    obtain ⟨a, kept', haf, hrest, rfl⟩ := hkept
    -- the served frame is replaced by the one passed on, if any
    have hpresent : present ⟨update s.mem r (serve r m f).mem, (serve r m f).passed + rest⟩
          (⟨s, .serve r f, (serve r m f).left⟩ :: h)
        = ((serve r m f).out.elim 0 fun o => {o.2}) + (rest.map Prod.snd + (emitted h : Multiset φ)) := by
      rw [present, emitted, Multiset.map_add, ← Multiset.coe_add, ← Service.map_passed_add_left]
      abel
    rw [hpresent]
    cases hout : (serve r m f).out with
    | none =>
      refine ⟨kept', le_trans (Multiset.le_cons_self kept' a) (Multiset.le_add_left _ _), ?_⟩
      rw [Option.elim_none, zero_add]
      exact hrest
    | some o =>
      refine ⟨a ::ₘ kept', Multiset.le_add_left _ _, ?_⟩
      rw [Option.elim_some, Multiset.singleton_add]
      exact .cons (htrans a f o.2 haf (hserve r m f a haf o hout)) hrest

/-! ### Draining -/

section Potential

variable [Fintype ι] (held : σ → ℕ) (weight : φ → ℕ)

/-- What the memories hold, and the weight of the frames on the links. -/
def potential (s : Net ι σ φ) : ℕ :=
  (∑ r, (s.mem r).elim 0 held) + (s.flight.map fun p => weight p.2).sum

/-- The weight of what a service leaves behind. -/
def Service.remains (v : Service ι σ φ) : ℕ :=
  v.mem.elim 0 held + (v.passed.map fun p => weight p.2).sum

variable {held weight}

/-- The memories, after one of them has changed. -/
theorem sum_update (held : σ → ℕ) (mem : ι → Option σ) (r : ι) (m : Option σ) :
    (∑ q, (update mem r m q).elim 0 held) + (mem r).elim 0 held = m.elim 0 held + ∑ q, (mem q).elim 0 held := by
  have hupdate : (fun q => (update mem r m q).elim 0 held)
      = update (fun q => (mem q).elim 0 held) r (m.elim 0 held) := by
    funext q
    by_cases hq : q = r
    · subst hq
      rw [update_self, update_self]
    · rw [update_of_ne hq, update_of_ne hq]
  have hsum := Finset.sum_update_of_mem (Finset.mem_univ r) (fun q => (mem q).elim 0 held) (m.elim 0 held)
  have hsplit := Finset.sum_sdiff (f := fun q => (mem q).elim 0 held) (Finset.subset_univ {r})
  rw [Finset.sum_singleton] at hsplit
  rw [hupdate, hsum]
  omega

/-- Every frame on the links is good. -/
def AllGood (P : φ → Prop) (s : Net ι σ φ) : Prop := ∀ p ∈ s.flight, P p.2

/-- **One step** uses up potential, unless a frame is put in. -/
theorem Effect.potential_le {P : φ → Prop}
    (hserve : ∀ r m f, P f → (serve r m f).remains held weight < held m + weight f) (hgood : AllGood P s)
    (heff : Effect serve s e s' out) : (if e.isServe then 1 else 0) + potential held weight s' ≤
      (e.injected.map weight).sum + potential held weight s := by
  cases heff with
  | inject r f =>
    simp only [Event.isServe, Event.injected, potential, Multiset.map_cons, Multiset.sum_cons,
      Multiset.map_singleton, Multiset.sum_singleton, Bool.false_eq_true, if_false]
    omega
  | lose hf =>
    simp only [Event.isServe, Event.injected, potential, hf, Multiset.map_cons, Multiset.sum_cons,
      Multiset.map_zero, Multiset.sum_zero, Bool.false_eq_true, if_false]
    omega
  | stop r =>
    have hsum := sum_update held s.mem r none
    simp only [Event.isServe, Event.injected, potential, Multiset.map_zero, Multiset.sum_zero,
      Bool.false_eq_true, if_false]
    rw [Option.elim_none] at hsum
    omega
  | @serve r f m rest hf hm =>
    have hsum := sum_update held s.mem r (serve r m f).mem
    have hless := hserve r m f (hgood (r, f) (hf ▸ Multiset.mem_cons_self _ _))
    rw [hm, Option.elim_some] at hsum
    rw [Service.remains] at hless
    simp only [Event.isServe, Event.injected, potential, hf, Multiset.map_cons, Multiset.sum_cons,
      Multiset.map_add, Multiset.sum_add, Multiset.map_zero, Multiset.sum_zero, if_true]
    omega

end Potential

end Effects

/-! ### Runs -/

section Runs

variable [DecidableEq ι] [DecidableEq φ] (serve : ι → σ → φ → Service ι σ φ)

/-- A running party takes a frame that is on a link to it. -/
def takeFrame (s : Net ι σ φ) (r : ι) (f : φ) : Option (Net ι σ φ × List φ) :=
  match s.mem r with
  | none => none
  | some m =>
    some (⟨update s.mem r (serve r m f).mem, (serve r m f).passed + s.flight.erase (r, f)⟩, (serve r m f).left)

/-- One event; what is emitted has left the network. -/
def step (s : Net ι σ φ) : Event ι φ → Option (Net ι σ φ × List φ)
  | .inject r f => some ({ s with flight := (r, f) ::ₘ s.flight }, [])
  | .lose r f => if (r, f) ∈ s.flight then some ({ s with flight := s.flight.erase (r, f) }, []) else none
  | .stop r => some ({ s with mem := update s.mem r none }, [])
  | .serve r f => if (r, f) ∈ s.flight then takeFrame serve s r f else none

variable {serve} {s s' s₀ : Net ι σ φ} {e : Event ι φ} {out : List φ}
  {h : List (Step (Net ι σ φ) (Event ι φ) φ)}

theorem step_effect (hstep : step serve s e = some (s', out)) : Effect serve s e s' out := by
  cases e with
  | inject r f =>
    obtain ⟨rfl, rfl⟩ := Prod.mk.inj (Option.some.inj hstep)
    exact .inject r f
  | lose r f =>
    rw [step] at hstep
    split at hstep
    · rename_i hmem
      obtain ⟨rfl, rfl⟩ := Prod.mk.inj (Option.some.inj hstep)
      exact .lose (Multiset.cons_erase hmem).symm
    · cases hstep
  | stop r =>
    obtain ⟨rfl, rfl⟩ := Prod.mk.inj (Option.some.inj hstep)
    exact .stop r
  | serve r f =>
    rw [step] at hstep
    split at hstep
    · rename_i hmem
      rw [takeFrame] at hstep
      split at hstep
      · cases hstep
      · rename_i m hm
        obtain ⟨rfl, rfl⟩ := Prod.mk.inj (Option.some.inj hstep)
        exact .serve (Multiset.cons_erase hmem).symm hm
    · cases hstep

/-- **Nothing is made up and nothing is doubled.**  `D` says which frames may stem from which. -/
theorem lineage {D : φ → φ → Prop} (htrans : ∀ a b c, D a b → D b c → D a c)
    (hserve : ∀ r m f a, D a f → ∀ o ∈ (serve r m f).out, D f o.2) (hempty : s₀.flight = 0)
    (run : Run (Steps (step serve)) s₀ h s) (hrefl : ∀ f ∈ injected h, D f f) :
    ∃ kept ≤ injected h, Multiset.Rel D kept (present s h) := by
  induction run with
  | start =>
    refine ⟨0, le_rfl, ?_⟩
    rw [present, hempty]
    exact .zero
  | @next h s s' e out _ hstep ih =>
    rw [injected, List.map_cons, List.sum_cons] at hrefl ⊢
    obtain ⟨kept, hle, hkept⟩ := ih fun f hf => hrefl f (Multiset.mem_add.mpr (Or.inr hf))
    obtain ⟨kept', hle', hkept'⟩ := (step_effect hstep).lineage htrans hserve
      (fun f hf => hrefl f (Multiset.mem_add.mpr (Or.inl hf))) hkept
    exact ⟨kept', le_trans hle' (add_le_add le_rfl hle), hkept'⟩

/-- Frames stay good if no service spoils one. -/
theorem allGood {P : φ → Prop} (hpass : ∀ r m f, P f → ∀ o ∈ (serve r m f).out, P o.2) (hempty : s₀.flight = 0)
    (run : Run (Steps (step serve)) s₀ h s) (hin : ∀ f ∈ injected h, P f) : AllGood P s := by
  obtain ⟨kept, -, hrel⟩ := lineage (D := fun _ f => P f) (fun _ _ _ _ hc => hc)
    (fun r m f _ hf o ho => hpass r m f hf o ho) hempty run hin
  intro p hp
  have hpresent : p.2 ∈ present s h := Multiset.mem_add.mpr (Or.inl (Multiset.mem_map_of_mem Prod.snd hp))
  obtain ⟨a, -, hgood⟩ := Multiset.exists_mem_of_rel_of_mem (Multiset.rel_flip.mpr hrel) hpresent
  exact hgood

/-- **The network drains**: the services are bounded by the potential put in. -/
theorem served_add_potential_le [Fintype ι] (held : σ → ℕ) (weight : φ → ℕ) {P : φ → Prop}
    (hpass : ∀ r m f, P f → ∀ o ∈ (serve r m f).out, P o.2)
    (hserve : ∀ r m f, P f → (serve r m f).remains held weight < held m + weight f) (hempty : s₀.flight = 0)
    (run : Run (Steps (step serve)) s₀ h s) (hin : ∀ f ∈ injected h, P f) :
    served h + potential held weight s ≤ ((injected h).map weight).sum + potential held weight s₀ := by
  induction run with
  | start => simp [served, injected]
  | @next h s s' e out run hstep ih =>
    have hinjected : injected (⟨s, e, out⟩ :: h) = e.injected + injected h := List.sum_cons
    have hserved : served (⟨s, e, out⟩ :: h) = served h + if e.isServe then 1 else 0 := List.countP_cons
    rw [hinjected] at hin ⊢
    have hbefore : ∀ f ∈ injected h, P f := fun f hf => hin f (Multiset.mem_add.mpr (Or.inr hf))
    have hone := (step_effect hstep).potential_le hserve (allGood hpass hempty run hbefore)
    have hmore := ih hbefore
    rw [hserved, Multiset.map_add, Multiset.sum_add]
    omega

end Runs

end Pcom.Lib.Network
