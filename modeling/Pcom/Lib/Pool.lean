import Mathlib.Data.Int.Notation
import Mathlib.Data.List.Basic
import Mathlib.Data.List.Perm.Subperm

/-!
# Pools of items

Items are put into a pool, and taken out of it from any place.  This file gives what the proofs about pools use:

* `worth_eraseIdx`, `perm_eraseIdx` — what is taken out is what the pool has less;
* `lane_eraseIdx_oldest`, `lane_eraseIdx_of_ne` — where the oldest item of a party is always taken first, each party
  has a queue of its own.
-/

namespace Pcom.Lib.Pool

open List

variable {α κ : Type*} {l : List α} {k : ℕ} {x : α}

/-! ### What is in a pool -/

theorem eq_take_cons_drop (h : l[k]? = some x) : l = l.take k ++ x :: l.drop (k + 1) := by
  obtain ⟨hk, rfl⟩ := List.getElem?_eq_some_iff.mp h
  rw [← drop_eq_getElem_cons hk, take_append_drop]

theorem perm_eraseIdx (h : l[k]? = some x) : l ~ x :: l.eraseIdx k := by
  conv_lhs => rw [eq_take_cons_drop h]
  rw [eraseIdx_eq_take_drop_succ]
  exact perm_middle

/-- What the items are worth together. -/
def worth (f : α → ℤ) : List α → ℤ
  | [] => 0
  | x :: l => f x + worth f l

@[simp] theorem worth_nil (f : α → ℤ) : worth f [] = 0 := rfl

@[simp] theorem worth_cons (f : α → ℤ) (x : α) (l : List α) : worth f (x :: l) = f x + worth f l := rfl

@[simp] theorem worth_append (f : α → ℤ) (l l' : List α) : worth f (l ++ l') = worth f l + worth f l' := by
  induction l with
  | nil => exact (Int.zero_add _).symm
  | cons x l ih => rw [cons_append, worth_cons, worth_cons, ih, Int.add_assoc]

theorem worth_eraseIdx (f : α → ℤ) (h : l[k]? = some x) : worth f l = f x + worth f (l.eraseIdx k) := by
  conv_lhs => rw [eq_take_cons_drop h]
  rw [eraseIdx_eq_take_drop_succ, worth_append, worth_append, worth_cons]
  omega

theorem worth_nonneg {f : α → ℤ} (h : ∀ y ∈ l, 0 ≤ f y) : 0 ≤ worth f l := by
  induction l with
  | nil => exact Int.le_refl 0
  | cons y l ih =>
    rw [forall_mem_cons] at h
    exact Int.add_nonneg h.1 (ih h.2)

theorem worth_eq_zero_iff {f : α → ℤ} (h : ∀ y ∈ l, 0 ≤ f y) : worth f l = 0 ↔ ∀ y ∈ l, f y = 0 := by
  induction l with
  | nil => simp
  | cons y l ih =>
    rw [forall_mem_cons] at h ⊢
    have hrest := worth_nonneg h.2
    rw [worth_cons, ← ih h.2]
    omega

/-! ### The items of one party -/

section Lanes

variable [DecidableEq κ] {key : α → κ}

/-- The items of a party, in the order in which they were put in. -/
def lane (key : α → κ) (i : κ) (l : List α) : List α := l.filter fun y => key y = i

/-- No item of the same party was put in before the one at `k`. -/
def Oldest (key : α → κ) (l : List α) (k : ℕ) : Prop := ∀ j < k, (l[j]?).map key ≠ (l[k]?).map key

instance (l : List α) (k : ℕ) : Decidable (Oldest key l k) :=
  inferInstanceAs (Decidable (∀ j < k, (l[j]?).map key ≠ (l[k]?).map key))

theorem lane_append (i : κ) (l l' : List α) : lane key i (l ++ l') = lane key i l ++ lane key i l' :=
  filter_append ..

theorem lane_eq_nil {i : κ} (h : ∀ y ∈ l, key y ≠ i) : lane key i l = [] := by
  rw [lane, filter_eq_nil_iff]
  intro y hy
  simpa using h y hy

theorem lane_eraseIdx_of_ne (h : l[k]? = some x) {i : κ} (hi : key x ≠ i) :
    lane key i (l.eraseIdx k) = lane key i l := by
  conv_rhs => rw [eq_take_cons_drop h]
  rw [eraseIdx_eq_take_drop_succ, lane_append, lane_append, lane, lane, lane, filter_cons_of_neg (by simpa using hi)]

/-- **The oldest item of a party** is the first of its queue. -/
theorem lane_eraseIdx_oldest (h : l[k]? = some x) (hold : Oldest key l k) :
    lane key (key x) l = x :: lane key (key x) (l.eraseIdx k) := by
  have hearlier : lane key (key x) (l.take k) = [] := by
    refine lane_eq_nil fun y hy heq => ?_
    obtain ⟨j, hj, hget⟩ := mem_iff_getElem.mp hy
    rw [length_take] at hj
    rw [getElem_take] at hget
    apply hold j (by omega)
    rw [h, getElem?_eq_getElem (by omega), hget]
    exact congrArg some heq
  conv_lhs => rw [eq_take_cons_drop h]
  rw [eraseIdx_eq_take_drop_succ, lane_append, lane_append, hearlier, nil_append, nil_append, lane, lane,
    filter_cons_of_pos (by simp)]

end Lanes

end Pcom.Lib.Pool
