import Mathlib.Data.List.Forall2
import Mathlib.Data.List.Perm.Basic

/-!
# Items that wait or are dispatched

A dispatcher takes items one by one; each is dispatched at once or put into a waiting line, and the line may
be flushed.  An item waits as something and is dispatched as something; `W` and `D` say what goes for what.
`Placed` is the conservation law of such a dispatcher: the arrivals are, up to order, the items dispatched and
the items that wait, so that each arrival is in exactly one place and nothing else is dispatched.

* `Placed.wait`, `Placed.direct`, `Placed.flush` — the three moves keep the law.
-/

namespace Pcom.Lib.WaitingLine

variable {α π ω : Type*} {W : α → π → Prop} {D : α → ω → Prop}
  {arrivals : List α} {line : List π} {out : List ω}

/-- Every arrival has been dispatched or waits, once; nothing else was dispatched or waits. -/
def Placed (W : α → π → Prop) (D : α → ω → Prop) (arrivals : List α) (line : List π) (out : List ω) :
    Prop :=
  ∃ sent waiting : List α, (sent ++ waiting).Perm arrivals ∧ List.Forall₂ D sent out ∧
    List.Forall₂ W waiting line

theorem placed_nil : Placed W D [] [] [] :=
  ⟨[], [], List.Perm.refl _, .nil, .nil⟩

/-- An arrival joins the line. -/
theorem Placed.wait (h : Placed W D arrivals line out) {a : α} {p : π} (hp : W a p) :
    Placed W D (a :: arrivals) (line ++ [p]) out := by
  obtain ⟨sent, waiting, hperm, hsent, hwaiting⟩ := h
  refine ⟨sent, waiting ++ [a], ?_, hsent, List.rel_append hwaiting (.cons hp .nil)⟩
  rw [← List.append_assoc]
  exact (List.perm_append_singleton a _).trans (hperm.cons a)

/-- An arrival is dispatched at once. -/
theorem Placed.direct (h : Placed W D arrivals line out) {a : α} {o : ω} (ho : D a o) :
    Placed W D (a :: arrivals) line (out ++ [o]) := by
  obtain ⟨sent, waiting, hperm, hsent, hwaiting⟩ := h
  refine ⟨sent ++ [a], waiting, ?_, List.rel_append hsent (.cons ho .nil), hwaiting⟩
  rw [List.append_assoc]
  exact List.perm_middle.trans (hperm.cons a)

/-- The whole line is dispatched. -/
theorem Placed.flush (h : Placed W D arrivals line out) {f : π → ω}
    (hf : ∀ a p, W a p → D a (f p)) : Placed W D arrivals [] (out ++ line.map f) := by
  obtain ⟨sent, waiting, hperm, hsent, hwaiting⟩ := h
  refine ⟨sent ++ waiting, [], by rwa [List.append_nil], List.rel_append hsent ?_, .nil⟩
  exact List.forall₂_map_right_iff.mpr (hwaiting.imp hf)

/-- As many items came as wait or were dispatched. -/
theorem Placed.length_eq (h : Placed W D arrivals line out) :
    line.length + out.length = arrivals.length := by
  obtain ⟨sent, waiting, hperm, hsent, hwaiting⟩ := h
  rw [← hperm.length_eq, List.length_append, hsent.length_eq, hwaiting.length_eq, Nat.add_comm]

end Pcom.Lib.WaitingLine
