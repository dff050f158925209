import Mathlib.Data.List.Infix
import Mathlib.Data.List.Range
import Mathlib.Tactic.Common

/-!
# The first occurrence of a word

* `firstAt_take_iff` — in a text read so far, **an occurrence is found as soon as its last symbol is there**, and at
  the place where the whole text has it;
* `FirstAt.append_left`, `FirstAt.append_line` — symbols that cannot begin the word are passed over, and lines
  without it;
* `first` — the positions tried one after the other; `first_eq_some_iff` says what it finds.
-/

namespace Pcom.Lib.Search

variable {α : Type*} {lit s : List α} {i j n : ℕ}

/-- The word occurs at `i`, and nowhere before. -/
def FirstAt (lit s : List α) (i : ℕ) : Prop := lit <+: s.drop i ∧ ∀ j < i, ¬ lit <+: s.drop j

theorem FirstAt.unique (h : FirstAt lit s i) (h' : FirstAt lit s j) : i = j := by
  rcases lt_trichotomy i j with hlt | heq | hgt
  · exact absurd h.1 (h'.2 i hlt)
  · exact heq
  · exact absurd h'.1 (h.2 j hgt)

/-- An occurrence lies within the text. -/
theorem add_length_le (hne : lit ≠ []) (h : lit <+: s.drop i) : i + lit.length ≤ s.length := by
  have hle := h.length_le
  have hpos := List.length_pos_iff.mpr hne
  rw [List.length_drop] at hle
  omega

/-- **A text read in part.** -/
theorem firstAt_take_iff (hne : lit ≠ []) : FirstAt lit (s.take n) i ↔ FirstAt lit s i ∧ i + lit.length ≤ n := by
  have hpos := List.length_pos_iff.mpr hne
  have hocc : ∀ j, lit <+: (s.take n).drop j ↔ lit <+: s.drop j ∧ j + lit.length ≤ n := fun j => by
    rw [List.drop_take, List.prefix_take_iff]
    exact and_congr_right fun _ => by omega
  simp only [FirstAt, hocc]
  constructor
  · rintro ⟨⟨h, hle⟩, hbefore⟩
    exact ⟨⟨h, fun j hj hj' => hbefore j hj ⟨hj', by omega⟩⟩, hle⟩
  · rintro ⟨⟨h, hbefore⟩, hle⟩
    exact ⟨⟨h, hle⟩, fun j hj hj' => hbefore j hj hj'.1⟩

theorem FirstAt.cons {a : α} (h : FirstAt lit s i) (ha : ¬ lit <+: a :: s) : FirstAt lit (a :: s) (i + 1) := by
  refine ⟨h.1, fun j hj => ?_⟩
  cases j with
  | zero => exact ha
  | succ j => exact h.2 j (Nat.lt_of_succ_lt_succ hj)

/-- What cannot begin the word is passed over. -/
theorem FirstAt.append_left {a : α} (h : FirstAt (a :: lit) s i) {l : List α} (hl : a ∉ l) :
    FirstAt (a :: lit) (l ++ s) (l.length + i) := by
  induction l with
  | nil => simpa using h
  | cons b l ih =>
    obtain ⟨hb, hl⟩ := not_or.mp (mt List.mem_cons.mpr hl)
    rw [List.cons_append, List.length_cons, Nat.add_right_comm]
    exact (ih hl).cons fun hocc => hb (List.cons_prefix_cons.mp hocc).1

/-- So is a line without the word in it, up to a separator that is not in the word. -/
theorem FirstAt.append_line {a : α} (h : FirstAt lit s i) (hne : lit ≠ []) (ha : a ∉ lit) {l : List α}
    (hl : ¬ lit <:+: l) : FirstAt lit (l ++ a :: s) (l.length + 1 + i) := by
  induction l with
  | nil =>
    rw [List.nil_append, List.length_nil, Nat.zero_add, Nat.add_comm]
    refine h.cons fun hocc => ?_
    obtain ⟨b, w, rfl⟩ := List.exists_cons_of_ne_nil hne
    exact ha ((List.cons_prefix_cons.mp hocc).1 ▸ List.mem_cons_self)
  | cons b l ih =>
    have hstart : ¬ lit <+: (b :: l) ++ a :: s := fun hocc => by
      rcases le_or_gt lit.length (b :: l).length with hle | hlt
      · exact hl (List.prefix_of_prefix_length_le hocc (List.prefix_append _ _) hle).isInfix
      · have hover : (b :: l) ++ [a] <+: lit :=
          List.prefix_of_prefix_length_le ⟨s, by simp⟩ hocc (by simpa using Nat.succ_le_of_lt hlt)
        exact ha (hover.subset (by simp))
    have hrest := ih fun hocc => hl (hocc.trans (List.suffix_cons b l).isInfix)
    rw [List.cons_append, List.length_cons, show l.length + 1 + 1 + i = l.length + 1 + i + 1 by omega]
    exact hrest.cons hstart

variable [DecidableEq α]

instance (lit s : List α) (i : ℕ) : Decidable (FirstAt lit s i) := inferInstanceAs (Decidable (_ ∧ _))

/-- Each position is tried, as far as the word could still fit. -/
def first (lit s : List α) : Option ℕ :=
  (List.range (s.length + 1 - lit.length)).find? fun i => decide (lit <+: s.drop i)

theorem first_eq_some_iff (hne : lit ≠ []) : first lit s = some i ↔ FirstAt lit s i := by
  simp only [first, List.find?_range_eq_some, decide_eq_true_eq, Bool.not_eq_true', decide_eq_false_iff_not,
    List.mem_range]
  constructor
  · rintro ⟨hocc, -, hbefore⟩
    exact ⟨hocc, hbefore⟩
  · rintro ⟨hocc, hbefore⟩
    have hle := add_length_le hne hocc
    exact ⟨hocc, by omega, hbefore⟩

theorem first_eq_none_iff (hne : lit ≠ []) : first lit s = none ↔ ∀ i, ¬ FirstAt lit s i := by
  rw [Option.eq_none_iff_forall_ne_some]
  simp only [ne_eq, first_eq_some_iff hne]

end Pcom.Lib.Search
