import Mathlib.Data.List.Forall2
import Mathlib.Logic.Relation

/-!
# Stages that keep the order

Items come to a stage and go on from it, in the order in which they came; what has come and has not gone on is held
back.  `R` says what an item goes on as.

* `Stage.take`, `Stage.flush` — items come, and all that is held back goes on;
* `Stage.comp` — **two stages in a row are a stage**, which holds back what either of them does;
* `Stage.comp_lossy` — where items are lost between them, the order stays, and nothing is made up or doubled.
-/

namespace Pcom.Lib.Stages

open List

variable {α β γ : Type*} {R : α → β → Prop} {S : β → γ → Prop}
  {came held : List α} {went taken heldThere : List β} {out : List γ}

/-- What has come is what has gone on, followed by what is held back. -/
def Stage (R : α → β → Prop) (came : List α) (went : List β) (held : List α) : Prop :=
  ∃ gone, came = gone ++ held ∧ Forall₂ R gone went

theorem stage_nil : Stage R [] [] [] := ⟨[], rfl, .nil⟩

/-- Items come, and are held back. -/
theorem Stage.take (h : Stage R came went held) (more : List α) : Stage R (came ++ more) went (held ++ more) := by
  obtain ⟨gone, rfl, hgone⟩ := h
  exact ⟨gone, List.append_assoc .., hgone⟩

/-- All that is held back goes on. -/
theorem Stage.flush (h : Stage R came went held) {more : List β} (hmore : Forall₂ R held more) :
    Stage R came (went ++ more) [] := by
  obtain ⟨gone, rfl, hgone⟩ := h
  exact ⟨gone ++ held, (List.append_nil _).symm, rel_append hgone hmore⟩

theorem exists_of_mem_right {xs : List α} {ys : List β} (h : Forall₂ R xs ys) {y : β} (hy : y ∈ ys) :
    ∃ x ∈ xs, R x y := by
  induction h with
  | nil => exact absurd hy not_mem_nil
  | cons hab _ ih =>
    rcases mem_cons.mp hy with rfl | hy
    · exact ⟨_, mem_cons_self, hab⟩
    · obtain ⟨x, hx, hxy⟩ := ih hy
      exact ⟨x, mem_cons_of_mem _ hx, hxy⟩

/-- What has gone on is what some item goes on as. -/
theorem Stage.exists_of_mem (h : Stage R came went held) {b : β} (hb : b ∈ went) : ∃ a ∈ came, R a b := by
  obtain ⟨gone, rfl, hgone⟩ := h
  obtain ⟨a, ha, hab⟩ := exists_of_mem_right hgone hb
  exact ⟨a, mem_append_left _ ha, hab⟩

/-! ### Two stages -/

theorem forall₂_comp {xs : List α} {ys : List β} {zs : List γ} (h : Forall₂ R xs ys) (h' : Forall₂ S ys zs) :
    Forall₂ (Relation.Comp R S) xs zs := by
  induction h generalizing zs with
  | nil =>
    cases h'
    exact .nil
  | cons hab _ ih =>
    cases h' with
    | cons hbc hrest => exact .cons ⟨_, hab, hbc⟩ (ih hrest)

/-- What a part of the items has come from is a part. -/
theorem exists_sublist {xs : List α} {ys zs : List β} (h : Forall₂ R xs ys) (hsub : zs <+ ys) :
    ∃ us, us <+ xs ∧ Forall₂ R us zs := by
  induction h generalizing zs with
  | nil =>
    obtain rfl := sublist_nil.mp hsub
    exact ⟨[], .slnil, .nil⟩
  | @cons a b xs ys hab _ ih =>
    cases hsub with
    | cons _ hsub =>
      obtain ⟨us, hus, hrel⟩ := ih hsub
      exact ⟨us, hus.cons a, hrel⟩
    | cons_cons _ hsub =>
      obtain ⟨us, hus, hrel⟩ := ih hsub
      exact ⟨a :: us, hus.cons_cons a, .cons hab hrel⟩

/-- **Two stages in a row**: what the second one holds back has come to the first one as well. -/
theorem Stage.comp (h : Stage R came went held) (h' : Stage S went out heldThere) :
    ∃ heldHere, Forall₂ R heldHere heldThere ∧ Stage (Relation.Comp R S) came out (heldHere ++ held) := by
  obtain ⟨gone, rfl, hgone⟩ := h
  obtain ⟨goneThere, rfl, hthere⟩ := h'
  have hfirst := forall₂_take_append _ _ _ hgone
  have hsecond := forall₂_drop_append _ _ _ hgone
  refine ⟨gone.drop goneThere.length, hsecond, gone.take goneThere.length, ?_, forall₂_comp hfirst hthere⟩
  rw [← List.append_assoc, take_append_drop]

/-- **Two stages with losses between them.** -/
theorem Stage.comp_lossy (h : Stage R came went held) (hlost : taken <+ went) (h' : Stage S taken out heldThere) :
    ∃ kept, kept <+ came ∧ Forall₂ (Relation.Comp R S) kept out := by
  obtain ⟨gone, rfl, hgone⟩ := h
  obtain ⟨goneThere, rfl, hthere⟩ := h'
  obtain ⟨kept, hkept, hrel⟩ := exists_sublist hgone ((sublist_append_left _ _).trans hlost)
  exact ⟨kept, hkept.trans (sublist_append_left _ _), forall₂_comp hrel hthere⟩

end Pcom.Lib.Stages
