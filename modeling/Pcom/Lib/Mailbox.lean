import Mathlib.Data.List.Basic
import Mathlib.Logic.Function.Basic

/-!
# A store-and-forward mailbox

One reader of a publish/subscribe service, seen on its own: its subscriptions with their store flags,
whether it is connected, and the messages waiting for it.  An act list has the **latest act first**.

* `sent_append_pending` — **exactly once, in order**: what was sent, followed by what waits, is what was
  due, in the order of publication.
-/

namespace Pcom.Lib.Mailbox

variable {τ μ : Type*}

@[ext]
structure Box (τ μ : Type*) where
  /-- The store flag of the subscription to a topic. -/
  flag : τ → Option Bool
  connected : Bool
  pending : List μ

/-- What the reader does, and what is published. -/
inductive Act (τ μ : Type*)
  | connect
  | disconnect
  | subscribe (t : τ) (store : Bool)
  | publish (t : τ) (m : μ)

/-- The mailbox of a reader never heard of. -/
def Box.empty : Box τ μ := ⟨fun _ => none, false, []⟩

/-- Is a message on `t`, published now, due to the reader? -/
def Box.wants (b : Box τ μ) (t : τ) : Bool :=
  match b.flag t with
  | none => false
  | some store => b.connected || store

variable [DecidableEq τ]

/-- The mailbox after an act, and what is sent to the reader meanwhile. -/
def Box.apply (b : Box τ μ) : Act τ μ → Box τ μ × List μ
  | .connect => ({ b with connected := true, pending := [] }, b.pending)
  | .disconnect => ({ b with connected := false }, [])
  | .subscribe t store =>
    ({ b with flag := Function.update b.flag t (some ((b.flag t).getD store)) }, [])
  | .publish t m =>
    if b.connected then (b, if b.wants t then [m] else [])
    else ({ b with pending := b.pending ++ if b.wants t then [m] else [] }, [])

theorem Box.apply_publish_unwanted {b : Box τ μ} {t : τ} (h : b.wants t = false) (m : μ) :
    b.apply (.publish t m) = (b, []) := by
  simp only [Box.apply, h, Bool.false_eq_true, if_false, List.append_nil, ite_self]

theorem Box.apply_publish_connected {b : Box τ μ} (h : b.connected = true) (t : τ) (m : μ) :
    b.apply (.publish t m) = (b, if b.wants t then [m] else []) := by
  rw [Box.apply, if_pos h]

theorem Box.apply_publish_absent {b : Box τ μ} (h : b.connected = false) (t : τ) (m : μ) :
    b.apply (.publish t m) = ({ b with pending := b.pending ++ if b.wants t then [m] else [] }, []) := by
  rw [Box.apply, if_neg (by simp [h])]

/-- What an act makes due. -/
def Box.owed (b : Box τ μ) : Act τ μ → List μ
  | .publish t m => if b.wants t then [m] else []
  | _ => []

/-- Nothing waits while the reader is connected. -/
def Box.Settled (b : Box τ μ) : Prop := b.connected = true → b.pending = []

theorem Box.Settled.apply {b : Box τ μ} (h : b.Settled) (a : Act τ μ) : (b.apply a).1.Settled := by
  cases a with
  | connect => intro _; rfl
  | disconnect => intro hc; cases hc
  | subscribe t store => exact h
  | publish t m =>
    intro hc
    by_cases hb : b.connected = true
    · simp only [Box.apply, if_pos hb]
      exact h hb
    · simp only [Box.apply, if_neg hb] at hc
      exact absurd hc hb

/-- One act: what is sent and what waits afterwards is what waited before and what became due. -/
theorem Box.Settled.sent_append {b : Box τ μ} (h : b.Settled) (a : Act τ μ) :
    (b.apply a).2 ++ (b.apply a).1.pending = b.pending ++ b.owed a := by
  cases a with
  | connect => simp [Box.apply, Box.owed]
  | disconnect => simp [Box.apply, Box.owed]
  | subscribe t store => simp [Box.apply, Box.owed]
  | publish t m =>
    by_cases hb : b.connected = true
    · simp [Box.apply, Box.owed, if_pos hb, h hb]
    · simp [Box.apply, Box.owed, if_neg hb]

/-! ### Lists of acts -/

/-- The mailbox after a list of acts. -/
def after : List (Act τ μ) → Box τ μ
  | [] => .empty
  | a :: as => ((after as).apply a).1

/-- What was sent to the reader. -/
def sent : List (Act τ μ) → List μ
  | [] => []
  | a :: as => sent as ++ ((after as).apply a).2

/-- What was published for the reader. -/
def due : List (Act τ μ) → List μ
  | [] => []
  | a :: as => due as ++ (after as).owed a

theorem settled_after (as : List (Act τ μ)) : (after as).Settled := by
  induction as with
  | nil => intro _; rfl
  | cons a as ih => exact ih.apply a

/-- **Exactly once, in order.** -/
theorem sent_append_pending (as : List (Act τ μ)) : sent as ++ (after as).pending = due as := by
  induction as with
  | nil => rfl
  | cons a as ih =>
    calc sent (a :: as) ++ (after (a :: as)).pending
        = sent as ++ (((after as).apply a).2 ++ ((after as).apply a).1.pending) := by
          rw [sent, after, List.append_assoc]
      _ = sent as ++ ((after as).pending ++ (after as).owed a) := by
          rw [(settled_after as).sent_append]
      _ = due (a :: as) := by rw [← List.append_assoc, ih, due]

end Pcom.Lib.Mailbox
