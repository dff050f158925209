import Mathlib.Data.List.Induction
import Mathlib.Order.Lattice

/-!
# The champion of a scan

One pass over a list that keeps the element with the largest key among the eligible ones.  The pass starts from
a key that no element has yet, and a later element replaces the champion only with a strictly larger key.

* `champion_none_iff` — nothing is kept exactly when no eligible key is above the starting one;
* `champion_some` — what is kept is eligible, above the starting key, and no eligible element beats it.
-/

namespace Pcom.Lib.Champion

variable {α κ : Type*} [LinearOrder κ] {eligible : α → Prop} [DecidablePred eligible] {key : α → κ}
  {start : κ} {l : List α}

/-- One element of the scan: the champion so far and the key to beat. -/
def challenge (eligible : α → Prop) [DecidablePred eligible] (key : α → κ) (kept : Option α × κ) (a : α) :
    Option α × κ :=
  if eligible a ∧ kept.2 < key a then (some a, key a) else kept

def scan (eligible : α → Prop) [DecidablePred eligible] (key : α → κ) (start : κ) (l : List α) :
    Option α × κ :=
  l.foldl (challenge eligible key) (none, start)

/-- What the scan has established over the elements it passed. -/
structure Reigns (eligible : α → Prop) (key : α → κ) (start : κ) (l : List α) (kept : Option α × κ) :
    Prop where
  beats : ∀ a ∈ l, eligible a → key a ≤ kept.2
  above : start ≤ kept.2
  unclaimed : kept.1 = none → kept.2 = start
  claimed : ∀ a, kept.1 = some a → a ∈ l ∧ eligible a ∧ start < key a ∧ kept.2 = key a

theorem Reigns.challenge {kept : Option α × κ} (h : Reigns eligible key start l kept) (a : α) :
    Reigns eligible key start (l ++ [a]) (challenge eligible key kept a) := by
  by_cases ha : eligible a ∧ kept.2 < key a
  · rw [Champion.challenge, if_pos ha]
    refine ⟨?_, ?_, by simp, ?_⟩
    · intro b hb hel
      rcases List.mem_append.mp hb with hb | hb
      · exact (h.beats b hb hel).trans ha.2.le
      · rw [List.mem_singleton.mp hb]
    · exact h.above.trans ha.2.le
    · intro b hb
      obtain rfl := Option.some.inj hb
      exact ⟨by simp, ha.1, h.above.trans_lt ha.2, rfl⟩
  · rw [Champion.challenge, if_neg ha]
    refine ⟨?_, h.above, h.unclaimed, ?_⟩
    · intro b hb hel
      rcases List.mem_append.mp hb with hb | hb
      · exact h.beats b hb hel
      · rw [List.mem_singleton.mp hb] at hel ⊢
        exact not_lt.mp fun hlt => ha ⟨hel, hlt⟩
    · intro b hb
      obtain ⟨hmem, hrest⟩ := h.claimed b hb
      exact ⟨List.mem_append_left [a] hmem, hrest⟩

theorem reigns_scan (eligible : α → Prop) [DecidablePred eligible] (key : α → κ) (start : κ) (l : List α) :
    Reigns eligible key start l (scan eligible key start l) := by
  induction l using List.reverseRecOn with
  | nil => exact ⟨by simp, le_refl start, fun _ => rfl, by simp [scan]⟩
  | append_singleton l a ih =>
    rw [scan, List.foldl_append]
    exact ih.challenge a

/-- **Nothing is kept** exactly when no eligible key is above the starting one. -/
theorem champion_none_iff : (scan eligible key start l).1 = none ↔ ∀ a ∈ l, eligible a → key a ≤ start := by
  have h := reigns_scan eligible key start l
  constructor
  · intro hnone a ha hel
    rw [← h.unclaimed hnone]
    exact h.beats a ha hel
  · intro hle
    cases hs : (scan eligible key start l).1 with
    | none => rfl
    | some a =>
      obtain ⟨hmem, hel, hlt, -⟩ := h.claimed a hs
      exact absurd (hle a hmem hel) (not_le.mpr hlt)

/-- **What is kept** is eligible, above the starting key, and no eligible element beats it. -/
theorem champion_some {a : α} (hs : (scan eligible key start l).1 = some a) :
    a ∈ l ∧ eligible a ∧ start < key a ∧ ∀ b ∈ l, eligible b → key b ≤ key a := by
  have h := reigns_scan eligible key start l
  obtain ⟨hmem, hel, hlt, hkey⟩ := h.claimed a hs
  refine ⟨hmem, hel, hlt, ?_⟩
  intro b hb hb'
  rw [← hkey]
  exact h.beats b hb hb'

end Pcom.Lib.Champion
