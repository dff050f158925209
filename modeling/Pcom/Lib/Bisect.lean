import Mathlib.Data.List.Basic
import Mathlib.Algebra.Order.Ring.Int
import Mathlib.Tactic.Common

/-!
# Bisection that stops at the first hit

`bisect` probes the midpoint of an interval of indices and follows the answer of `cmp`: `.eq` stops,
`.gt` goes left, `.lt` goes right.  No order is assumed of `cmp`.

* `bisect_eq_some_iff` — **which index is returned**: `m` is, exactly when `m` is a hit and every midpoint
  on the way to `m` points towards `m`;
* `bisect_ne_none` — with an ordered `cmp`, a hit in the interval is not missed.
-/

namespace Pcom.Lib.Bisect

/-- The midpoint of the loop. -/
def midpoint (left right : ℤ) : ℤ := (left + right) / 2

theorem midpoint_mem {left right : ℤ} (h : left ≤ right) :
    left ≤ midpoint left right ∧ midpoint left right ≤ right := by
  unfold midpoint
  omega

/-- Bisection between `left` and `right`, both included. -/
def bisect (cmp : ℤ → Ordering) : ℕ → ℤ → ℤ → Option ℤ
  | 0, _, _ => none
  | fuel + 1, left, right =>
    if left ≤ right then
      match cmp (midpoint left right) with
      | .eq => some (midpoint left right)
      | .gt => bisect cmp fuel left (midpoint left right - 1)
      | .lt => bisect cmp fuel (midpoint left right + 1) right
    else none

/-- The midpoints probed before `m` when every one of them points towards `m`. -/
def path (m : ℤ) : ℕ → ℤ → ℤ → List ℤ
  | 0, _, _ => []
  | fuel + 1, left, right =>
    if m = midpoint left right then []
    else if m < midpoint left right then
      midpoint left right :: path m fuel left (midpoint left right - 1)
    else midpoint left right :: path m fuel (midpoint left right + 1) right

/-- The answer at `p` that sends the search towards `m`. -/
def towards (m p : ℤ) : Ordering := if m < p then .gt else .lt

variable {cmp : ℤ → Ordering} {fuel : ℕ} {left right : ℤ}

/-- A returned index lies in the interval and is a hit. -/
theorem of_bisect_eq_some {m : ℤ} (h : bisect cmp fuel left right = some m) :
    left ≤ m ∧ m ≤ right ∧ cmp m = .eq := by
  induction fuel generalizing left right with
  | zero => cases h
  | succ fuel ih =>
    rw [bisect] at h
    split at h
    · rename_i hle
      obtain ⟨hl, hr⟩ := midpoint_mem hle
      split at h
      · rename_i heq
        obtain rfl := Option.some.inj h
        exact ⟨hl, hr, heq⟩
      · obtain ⟨h1, h2, h3⟩ := ih h
        exact ⟨h1, by omega, h3⟩
      · obtain ⟨h1, h2, h3⟩ := ih h
        exact ⟨by omega, h2, h3⟩
    · cases h

/-- **Which index is returned.** -/
theorem bisect_eq_some_iff {m : ℤ} (hl : left ≤ m) (hr : m ≤ right) (hfuel : right + 1 - left ≤ fuel) :
    bisect cmp fuel left right = some m ↔
      cmp m = .eq ∧ ∀ p ∈ path m fuel left right, cmp p = towards m p := by
  induction fuel generalizing left right with
  | zero => omega
  | succ fuel ih =>
    obtain ⟨hml, hmr⟩ := midpoint_mem (hl.trans hr)
    rw [bisect, if_pos (hl.trans hr), path]
    by_cases hmid : m = midpoint left right
    · rw [if_pos hmid, ← hmid]
      constructor
      · intro h
        refine ⟨?_, by simp⟩
        cases hcmp : cmp m with
        | eq => rfl
        | gt =>
          simp only [hcmp] at h
          obtain ⟨-, h2, -⟩ := of_bisect_eq_some h
          omega
        | lt =>
          simp only [hcmp] at h
          obtain ⟨h1, -, -⟩ := of_bisect_eq_some h
          omega
      · intro ⟨heq, _⟩
        simp only [heq]
    · rw [if_neg hmid]
      by_cases hlt : m < midpoint left right
      · rw [if_pos hlt, List.forall_mem_cons, towards, if_pos hlt]
        cases hcmp : cmp (midpoint left right) with
        | eq => simp only [Option.some.injEq, Ne.symm hmid, reduceCtorEq, false_and, and_false]
        | gt =>
          simp only [true_and]
          exact ih hl (by omega) (by omega)
        | lt =>
          simp only [reduceCtorEq, false_and, and_false, iff_false]
          intro h
          obtain ⟨h1, -, -⟩ := of_bisect_eq_some h
          omega
      · rw [if_neg hlt, List.forall_mem_cons, towards, if_neg hlt]
        cases hcmp : cmp (midpoint left right) with
        | eq => simp only [Option.some.injEq, Ne.symm hmid, reduceCtorEq, false_and, and_false]
        | lt =>
          simp only [true_and]
          exact ih (by omega) hr (by omega)
        | gt =>
          simp only [reduceCtorEq, false_and, and_false, iff_false]
          intro h
          obtain ⟨-, h2, -⟩ := of_bisect_eq_some h
          omega

/-- **With an ordered comparison a hit is not missed**: whatever points left does so for all later
indices, and whatever points right for all earlier ones. -/
theorem bisect_ne_none {m : ℤ} (hl : left ≤ m) (hr : m ≤ right) (hfuel : right + 1 - left ≤ fuel)
    (hm : cmp m = .eq)
    (hgt : ∀ p q, left ≤ p → p ≤ q → q ≤ right → cmp p = .gt → cmp q = .gt)
    (hlt : ∀ p q, left ≤ p → p ≤ q → q ≤ right → cmp q = .lt → cmp p = .lt) :
    bisect cmp fuel left right ≠ none := by
  induction fuel generalizing left right with
  | zero => omega
  | succ fuel ih =>
    obtain ⟨hml, hmr⟩ := midpoint_mem (hl.trans hr)
    rw [bisect, if_pos (hl.trans hr)]
    cases hcmp : cmp (midpoint left right) with
    | eq => simp
    | gt =>
      have hside : m < midpoint left right := by
        by_contra hle
        rw [hgt _ m hml (by omega) hr hcmp] at hm
        cases hm
      exact ih hl (by omega) (by omega) (fun p q h1 h2 h3 => hgt p q h1 h2 (by omega))
        (fun p q h1 h2 h3 => hlt p q h1 h2 (by omega))
    | lt =>
      have hside : midpoint left right < m := by
        by_contra hle
        rw [hlt m _ hl (by omega) hmr hcmp] at hm
        cases hm
      exact ih (by omega) hr (by omega) (fun p q h1 h2 h3 => hgt p q (by omega) h2 h3)
        (fun p q h1 h2 h3 => hlt p q (by omega) h2 h3)

end Pcom.Lib.Bisect
