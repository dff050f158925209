import Mathlib.Data.List.Basic
import Mathlib.Logic.Function.Basic

/-!
# Chains of cells on a heap

A heap maps addresses to cells; a cell holds an element and the address of the next cell.  A chain is given by the
addresses and the elements of its cells, in order.

* `Linked.update` — addresses outside the chain may be written or freed;
* `Linked.concat` — a new cell behind the last one;
* `Owned.concat`, `Owned.free` — a heap with nothing else on it, when a cell is added at the end or removed at the
  start;
* `Reachable`, `Linked.reachable_last` — the last cell is reached from the first.
-/

namespace Pcom.Lib.Chain

open Function

variable {α κ : Type*} {cell : α → Option ℕ → κ} {next : κ → Option ℕ} {heap : ℕ → Option κ}
  {cells : List (ℕ × α)}

/-- The address a chain starts at. -/
def start (cells : List (ℕ × α)) : Option ℕ := cells.head?.map Prod.fst

/-- The cells are on the heap, each with the address of the next. -/
def Linked (cell : α → Option ℕ → κ) (heap : ℕ → Option κ) : List (ℕ × α) → Prop
  | [] => True
  | (a, m) :: cells => heap a = some (cell m (start cells)) ∧ Linked cell heap cells

/-- An address outside the chain may be written. -/
theorem Linked.update (h : Linked cell heap cells) {a : ℕ} (ha : a ∉ cells.map Prod.fst) (e : Option κ) :
    Linked cell (update heap a e) cells := by
  induction cells with
  | nil => trivial
  | cons c cells ih =>
    obtain ⟨b, m⟩ := c
    rw [List.map_cons, List.mem_cons, not_or] at ha
    exact ⟨by rw [update_of_ne (Ne.symm ha.1)]; exact h.1, ih h.2 ha.2⟩

/-- A free address is outside the chain. -/
theorem Linked.notMem (h : Linked cell heap cells) {t : ℕ} (ht : heap t = none) : t ∉ cells.map Prod.fst := by
  induction cells with
  | nil => exact List.not_mem_nil
  | cons c cells ih =>
    rw [List.map_cons, List.mem_cons, not_or]
    refine ⟨?_, ih h.2⟩
    intro heq
    rw [heq, h.1] at ht
    cases ht

/-- The last cell has no next one. -/
theorem Linked.last {f : ℕ} {x : α} (h : Linked cell heap (cells ++ [(f, x)])) :
    heap f = some (cell x none) := by
  induction cells with
  | nil => exact h.1
  | cons c cells ih => exact ih h.2

/-- A new cell behind the last of a chain. -/
theorem Linked.concat {f t : ℕ} {x m : α} (h : Linked cell heap (cells ++ [(f, x)]))
    (hnodup : ((cells ++ [(f, x)]).map Prod.fst).Nodup) (ht : t ∉ (cells ++ [(f, x)]).map Prod.fst) :
    Linked cell (Function.update (Function.update heap f (some (cell x (some t)))) t (some (cell m none)))
      (cells ++ [(f, x), (t, m)]) := by
  induction cells with
  | nil =>
    have hne : f ≠ t := fun heq => ht (heq ▸ List.mem_cons_self)
    exact ⟨by rw [update_of_ne hne, update_self]; rfl, by rw [update_self]; rfl, trivial⟩
  | cons c cells ih =>
    obtain ⟨b, y⟩ := c
    rw [List.cons_append, List.map_cons, List.nodup_cons] at hnodup
    rw [List.cons_append, List.map_cons, List.mem_cons, not_or] at ht
    have hbf : b ≠ f := by
      intro heq
      exact hnodup.1 (by simp [heq])
    have hstart : start (cells ++ [(f, x), (t, m)]) = start (cells ++ [(f, x)]) := by
      cases cells <;> rfl
    refine ⟨?_, ih h.2 hnodup.2 ht.2⟩
    rw [update_of_ne (Ne.symm ht.1), update_of_ne hbf]
    show heap b = some (cell y (start (cells ++ [(f, x), (t, m)])))
    rw [hstart]
    exact h.1

/-! ### Heaps that hold a chain only -/

/-- The heap holds the cells of the chain, each at an address of its own, and nothing else. -/
structure Owned (cell : α → Option ℕ → κ) (heap : ℕ → Option κ) (cells : List (ℕ × α)) : Prop where
  linked : Linked cell heap cells
  nodup : (cells.map Prod.fst).Nodup
  domain : ∀ a, heap a ≠ none → a ∈ cells.map Prod.fst

theorem Owned.singleton (h : Owned cell heap []) (t : ℕ) (m : α) :
    Owned cell (Function.update heap t (some (cell m none))) [(t, m)] := by
  refine ⟨⟨update_self .., trivial⟩, by simp, fun a ha => ?_⟩
  by_cases hat : a = t
  · simp [hat]
  · rw [update_of_ne hat] at ha
    exact absurd (h.domain a ha) List.not_mem_nil

theorem Owned.concat {f t : ℕ} {x : α} (h : Owned cell heap (cells ++ [(f, x)])) (ht : heap t = none) (m : α) :
    Owned cell (Function.update (Function.update heap f (some (cell x (some t)))) t (some (cell m none)))
      (cells ++ [(f, x)] ++ [(t, m)]) := by
  have hout := h.linked.notMem ht
  refine ⟨?_, ?_, fun a ha => ?_⟩
  · rw [List.append_assoc]
    exact h.linked.concat h.nodup hout
  · rw [List.map_append, List.nodup_append]
    refine ⟨h.nodup, by simp, ?_⟩
    intro a ha b hb hab
    have hb' : b = t := List.mem_singleton.mp hb
    exact hout (hb' ▸ hab ▸ ha)
  · rw [List.map_append, List.mem_append]
    by_cases hat : a = t
    · exact .inr (by simp [hat])
    by_cases haf : a = f
    · exact .inl (by simp [haf])
    · rw [update_of_ne hat, update_of_ne haf] at ha
      exact .inl (h.domain a ha)

theorem Owned.free {a : ℕ} {m : α} (h : Owned cell heap ((a, m) :: cells)) :
    Owned cell (Function.update heap a none) cells := by
  have hnodup := List.nodup_cons.mp h.nodup
  refine ⟨h.linked.2.update hnodup.1 none, hnodup.2, fun b hb => ?_⟩
  by_cases hba : b = a
  · rw [hba, update_self] at hb
    exact absurd rfl hb
  · rw [update_of_ne hba] at hb
    exact (List.mem_cons.mp (h.domain b hb)).resolve_left hba

/-! ### What is reached -/

/-- The address is reached from a link by following the cells. -/
inductive Reachable (next : κ → Option ℕ) (heap : ℕ → Option κ) : Option ℕ → ℕ → Prop
  | here (a : ℕ) : Reachable next heap (some a) a
  | follow {a b : ℕ} {c : κ} : heap a = some c → Reachable next heap (next c) b → Reachable next heap (some a) b

/-- The address is that of the last cell that is reached: it has no next one. -/
structure Last (next : κ → Option ℕ) (heap : ℕ → Option κ) (link : Option ℕ) (a : ℕ) : Prop where
  reachable : Reachable next heap link a
  ends : ∃ c, heap a = some c ∧ next c = none

/-- **The last cell of a chain** is the last that is reached from its start. -/
theorem Linked.reachable_last (hnext : ∀ m link, next (cell m link) = link) {f : ℕ} {x : α}
    (h : Linked cell heap (cells ++ [(f, x)])) : Last next heap (start (cells ++ [(f, x)])) f := by
  refine ⟨?_, cell x none, h.last, hnext x none⟩
  induction cells with
  | nil => exact .here f
  | cons c cells ih =>
    obtain ⟨b, m⟩ := c
    refine .follow h.1 ?_
    rw [hnext]
    exact ih h.2

end Pcom.Lib.Chain
