import Mathlib.Data.List.Basic
import Mathlib.Logic.Basic

/-!
# Runs of a step relation with inputs and outputs

A program that loops forever over its inputs is a relation `R s i s' out`: in state `s`, input `i`
may lead to state `s'` while `out` is emitted.  A step that is undefined (a crash, an exit) has no
successor.  This file gives the rules the history proofs use:

* `Run.invariant` — a predicate kept by every admissible step holds in every state reached;
* `Run.history` — the same for a predicate on the history and the state together;
* `Run.all_states_iff` — a condition that is exact for one step is exact for a run;
* `Run.of_check` — an executable step function produces runs, so that a concrete run is a computation.

A history lists the steps taken, **latest first**: "the most recent input such that …" is then a
search from the head.
-/

namespace Pcom.Lib.StepSystem

variable {σ ι ω : Type*}

/-- One step of a run: the state it started from, the input it consumed, what it emitted. -/
structure Step (σ ι ω : Type*) where
  before : σ
  input : ι
  out : List ω

/-- The runs of `R` from `s₀`, with the history of the steps taken, latest first. -/
inductive Run (R : σ → ι → σ → List ω → Prop) (s₀ : σ) : List (Step σ ι ω) → σ → Prop
  | start : Run R s₀ [] s₀
  | next {h : List (Step σ ι ω)} {s s' : σ} {i : ι} {out : List ω} :
      Run R s₀ h s → R s i s' out → Run R s₀ (⟨s, i, out⟩ :: h) s'

variable {R : σ → ι → σ → List ω → Prop} {s₀ s : σ} {h : List (Step σ ι ω)}

/-- Everything emitted so far, in the order of emission. -/
def emitted : List (Step σ ι ω) → List ω
  | [] => []
  | st :: h => emitted h ++ st.out

/-- **History rule.**  A predicate on history and state that holds initially and is kept by every
admissible step holds at the end of every run whose steps are all admissible. -/
theorem Run.history {E : σ → ι → Prop} {P : List (Step σ ι ω) → σ → Prop} (start : P [] s₀)
    (step : ∀ h s i s' out, P h s → E s i → R s i s' out → P (⟨s, i, out⟩ :: h) s')
    (run : Run R s₀ h s) (hok : ∀ st ∈ h, E st.before st.input) : P h s := by
  induction run with
  | start => exact start
  | next _ hstep ih =>
    exact step _ _ _ _ _ (ih fun st hst => hok st (List.mem_cons_of_mem _ hst))
      (hok _ List.mem_cons_self) hstep

/-- **Invariant rule.** -/
theorem Run.invariant {E : σ → ι → Prop} {P : σ → Prop} (start : P s₀)
    (step : ∀ s i s' out, P s → E s i → R s i s' out → P s')
    (run : Run R s₀ h s) (hok : ∀ st ∈ h, E st.before st.input) : P s :=
  run.history (P := fun _ s => P s) start (fun _ s i s' out hs ho hr => step s i s' out hs ho hr) hok

/-- **Exact-condition rule.**  Let `I` be an inductive strengthening of `P` under the step condition
`C`, and let a step from `I` that violates `C` also violate `P`.  Then `P` holds in all states of a
run exactly when all its steps meet `C`. -/
theorem Run.all_states_iff {P I : σ → Prop} {C : σ → ι → Prop} (start : I s₀)
    (good : ∀ s, I s → P s) (keep : ∀ s i s' out, I s → R s i s' out → C s i → I s')
    (exact_ : ∀ s i s' out, I s → R s i s' out → P s' → C s i) (run : Run R s₀ h s) :
    (P s ∧ ∀ st ∈ h, P st.before) ↔ ∀ st ∈ h, C st.before st.input := by
  have hinv : (∀ st ∈ h, C st.before st.input) → I s :=
    fun hC => run.invariant (E := C) start (fun s i s' out hs hc hr => keep s i s' out hs hr hc) hC
  induction run with
  | start => simp [good _ start]
  | next prev hstep ih =>
    have hprev := fun hC => prev.invariant (E := C) start
      (fun s i s' out hs hc hr => keep s i s' out hs hr hc) hC
    have hiff := ih hprev
    constructor
    · intro ⟨hs', hall⟩
      rw [List.forall_mem_cons] at hall ⊢
      have hC := hiff.mp hall
      exact ⟨exact_ _ _ _ _ (hprev hC) hstep hs', hC⟩
    · intro hC
      refine ⟨good _ (hinv hC), ?_⟩
      rw [List.forall_mem_cons] at hC ⊢
      exact hiff.mpr hC.2

/-- Every state a run passed through is itself the end of a run. -/
theorem Run.before {st : Step σ ι ω} (run : Run R s₀ h s) (hst : st ∈ h) :
    ∃ h', (∀ x ∈ h', x ∈ h) ∧ Run R s₀ h' st.before := by
  induction run with
  | start => cases hst
  | @next h s s' i out prev _ ih =>
    rcases List.mem_cons.mp hst with rfl | hmem
    · exact ⟨h, fun x hx => List.mem_cons_of_mem _ hx, prev⟩
    · obtain ⟨h', hsub, hrun⟩ := ih hmem
      exact ⟨h', fun x hx => List.mem_cons_of_mem _ (hsub x hx), hrun⟩

/-- The runs of a relation are runs of every relation that allows its steps. -/
theorem Run.mono {R' : σ → ι → σ → List ω → Prop} (himp : ∀ s i s' out, R s i s' out → R' s i s' out)
    (run : Run R s₀ h s) : Run R' s₀ h s := by
  induction run with
  | start => exact .start
  | next _ hstep ih => exact ih.next (himp _ _ _ _ hstep)

/-! ### Executable machines -/

/-- The relation of a step function; `none` is a step that has no defined outcome. -/
def Steps (f : σ → ι → Option (σ × List ω)) (s : σ) (i : ι) (s' : σ) (out : List ω) : Prop :=
  f s i = some (s', out)

/-- Feed a list of inputs to a step function, keeping the history. -/
def exec (f : σ → ι → Option (σ × List ω)) :
    σ → List (Step σ ι ω) → List ι → Option (List (Step σ ι ω) × σ)
  | s, h, [] => some (h, s)
  | s, h, i :: is =>
    match f s i with
    | none => none
    | some (s', out) => exec f s' (⟨s, i, out⟩ :: h) is

theorem Run.of_exec_from {f : σ → ι → Option (σ × List ω)} {is : List ι} {h' : List (Step σ ι ω)}
    {s' : σ} (run : Run (Steps f) s₀ h s) (he : exec f s h is = some (h', s')) :
    Run (Steps f) s₀ h' s' := by
  induction is generalizing s h with
  | nil =>
    simp only [exec, Option.some.injEq, Prod.mk.injEq] at he
    obtain ⟨rfl, rfl⟩ := he
    exact run
  | cons i is ih =>
    cases hf : f s i with
    | none => simp [exec, hf] at he
    | some r =>
      obtain ⟨s₁, out⟩ := r
      simp only [exec, hf] at he
      exact ih (run.next hf) he

/-- What `exec` computes is a run. -/
theorem Run.of_exec {f : σ → ι → Option (σ × List ω)} {is : List ι}
    (he : exec f s₀ [] is = some (h, s)) : Run (Steps f) s₀ h s :=
  Run.of_exec_from .start he

/-- A computed check of what `exec` returns holds of a run. -/
theorem Run.of_check (f : σ → ι → Option (σ × List ω)) (s₀ : σ) (is : List ι)
    (check : List (Step σ ι ω) → σ → Bool)
    (hc : ((exec f s₀ [] is).any fun r => check r.1 r.2) = true) :
    ∃ h s, Run (Steps f) s₀ h s ∧ check h s = true := by
  obtain ⟨⟨h, s⟩, he, hcheck⟩ := (Option.any_eq_true _ _).mp hc
  exact ⟨h, s, Run.of_exec he, hcheck⟩

end Pcom.Lib.StepSystem
