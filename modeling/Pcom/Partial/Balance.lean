import Pcom.Partial.Server

/-!
# Balances of the account server

The server's only guard is the comparison `money < sum` of the `get` branch; sums are arbitrary signed
`int`s.  A negative `send_to` therefore takes money away below zero, and a negative `get` adds money
up to an overflow.

* `balances_in_range_iff` — **the exact condition**: over every run of well-formed datagrams, every
  balance of every state reached lies in `0 … INT_MAX` exactly when each credit and each debit keeps
  its own account in range (`Solvent`);
* `negative_send_overdraws` — a run of two datagrams that reaches a balance of `-5`.
-/

namespace Pcom.Partial.Balance

open Pcom.Lib.Scan Pcom.Lib.StepSystem Pcom.Partial.Server

/-- Every balance lies between `0` and `INT_MAX`. -/
def InRange (users : Users) : Prop := ∀ id u, users id = some u → 0 ≤ u.money ∧ u.money ≤ INT_MAX

/-- The receive loop on well-formed datagrams. -/
def serveCommand (users : Users) (inp : Command × Stale) : Option Reply :=
  serve users (render inp.1) inp.2

/-- A credit or a debit keeps the account it is about in range. -/
def Solvent (users : Users) : Command → Prop
  | .sendTo id sum => ∀ u, users id.bytes = some u → -u.money ≤ sum.toInt ∧ sum.toInt ≤ INT_MAX - u.money
  | .get sum id => ∀ u, users id.bytes = some u → u.money - INT_MAX ≤ sum.toInt
  | _ => True

/-! ### One step -/

/-- Storing a record keeps the map in range exactly when the record is in range. -/
theorem inRange_update {users : Users} (h : InRange users) (id : Bytes) (u : User) :
    InRange (Function.update users id (some u)) ↔ 0 ≤ u.money ∧ u.money ≤ INT_MAX := by
  constructor
  · intro hr
    exact hr id u (Function.update_self ..)
  · intro hu id' u' hid
    by_cases heq : id' = id
    · subst heq
      rw [Function.update_self] at hid
      cases hid
      exact hu
    · rw [Function.update_of_ne heq] at hid
      exact h id' u' hid

/-- A sum or difference of two `int`s, stored in an `int`, is in range exactly when it was before. -/
theorem toInt_inRange {n : ℤ} (hlo : -2 ^ 31 ≤ n) (hhi : n < 2 ^ 32) :
    (0 ≤ toInt n ∧ toInt n ≤ INT_MAX) ↔ (0 ≤ n ∧ n ≤ INT_MAX) := by
  unfold INT_MAX
  by_cases hbig : n < 2 ^ 31
  · rw [toInt_eq_self hlo hbig]
  · have hwrap : toInt n = n - 2 ^ 32 := by
      rw [toInt, Int.bmod_eq_iff (by decide)]
      omega
    omega

theorem connect_inRange {users : Users} (h : InRange users) (id : Bytes) :
    InRange (connect users id).1 := by
  unfold connect
  cases hu : users id with
  | none => exact (inRange_update h id _).mpr (by decide)
  | some u =>
    simp only
    split
    · exact h
    · exact (inRange_update h id _).mpr (h id u hu)

theorem sendTo_inRange {users : Users} (h : InRange users) (id : Bytes) (sum : Int32) :
    InRange (sendTo users id sum.toInt).1 ↔
      ∀ u, users id = some u → -u.money ≤ sum.toInt ∧ sum.toInt ≤ INT_MAX - u.money := by
  unfold sendTo
  cases hu : users id with
  | none => simpa using h
  | some u =>
    have hmoney := h id u hu
    have hlo := sum.le_toInt
    have hhi := sum.toInt_lt
    unfold INT_MAX at hmoney
    simp only [inRange_update h, Option.some.injEq, forall_eq']
    rw [toInt_inRange (by omega) (by omega), INT_MAX]
    omega

theorem showSum_inRange {users : Users} (h : InRange users) {id : Bytes} {r : Reply}
    (hr : showSum users id = some r) : InRange r.1 := by
  obtain ⟨u, -, rfl⟩ := Option.map_eq_some_iff.mp hr
  exact h

/-- A debit that passes the guard `money < sum` can only leave the range at the upper end. -/
theorem get_inRange {users : Users} (h : InRange users) {id : Bytes} {sum : Int32} {r : Reply}
    (hr : get users id sum.toInt = some r) :
    InRange r.1 ↔ ∀ u, users id = some u → u.money - INT_MAX ≤ sum.toInt := by
  obtain ⟨u, hu, rfl⟩ := Option.map_eq_some_iff.mp hr
  have hmoney := h id u hu
  have hlo := sum.le_toInt
  have hhi := sum.toInt_lt
  unfold INT_MAX at hmoney
  simp only [hu, Option.some.injEq, forall_eq']
  split
  · rename_i hpoor
    exact ⟨fun _ => by rw [INT_MAX]; omega, fun _ => h⟩
  · rename_i hrich
    rw [inRange_update h, toInt_inRange (by omega) (by omega), INT_MAX]
    omega

theorem exit_inRange {users : Users} (h : InRange users) {id : Bytes} {r : Reply}
    (hr : exit users id = some r) : InRange r.1 := by
  obtain ⟨u, hu, rfl⟩ := Option.map_eq_some_iff.mp hr
  exact (inRange_update h id _).mpr (h id u hu)

/-- **One datagram** keeps all balances in range exactly when it is solvent. -/
theorem serveCommand_inRange {users : Users} {inp : Command × Stale} {r : Reply}
    (h : InRange users) (hr : serveCommand users inp = some r) :
    InRange r.1 ↔ Solvent users inp.1 := by
  obtain ⟨cmd, stale⟩ := inp
  rw [serveCommand, serve_render] at hr
  cases cmd with
  | connect id =>
    obtain rfl := Option.some.inj hr
    exact iff_of_true (connect_inRange h _) trivial
  | sendTo id sum =>
    obtain rfl := Option.some.inj hr
    exact sendTo_inRange h _ sum
  | showSum id => exact iff_of_true (showSum_inRange h hr) trivial
  | get sum id => exact get_inRange h hr
  | exit id => exact iff_of_true (exit_inRange h hr) trivial

/-! ### Runs -/

/-- **The exact condition for balances to stay in range**, over every run of well-formed datagrams from
the empty map: all states reached are in range exactly when every step is solvent. -/
theorem balances_in_range_iff {h : List (Step Users (Command × Stale) Bytes)} {users : Users}
    (run : Run (Steps serveCommand) (fun _ => none) h users) :
    (InRange users ∧ ∀ st ∈ h, InRange st.before) ↔ ∀ st ∈ h, Solvent st.before st.input.1 :=
  run.all_states_iff (P := InRange) (I := InRange) (C := fun s i => Solvent s i.1)
    (fun _ _ hu => by cases hu) (fun _ hs => hs)
    (fun _ _ _ _ hs hstep hc => (serveCommand_inRange hs hstep).mpr hc)
    (fun _ _ _ _ hs hstep hs' => (serveCommand_inRange hs hstep).mp hs')

/-! ### A run that overdraws an account -/

def ana : Id := ⟨ascii "ana", by decide, by decide, by decide⟩

def bob : Id := ⟨ascii "bob", by decide, by decide, by decide⟩

def noStale : Stale := ⟨[], 0⟩

/-- The map after `CONNECT ana`. -/
def opened : Users := Function.update (fun _ => none) ana.bytes (some ⟨0, true⟩)

theorem opened_ana : opened ana.bytes = some ⟨0, true⟩ := by
  rw [opened, Function.update_self]

/-- The map after `CONNECT ana` and `send_to ana n`. -/
def credited (n : Int32) : Users :=
  Function.update opened ana.bytes (some ⟨toInt (0 + n.toInt), true⟩)

/-- The two steps, latest first. -/
def creditHistory (n : Int32) : List (Step Users (Command × Stale) Bytes) :=
  [⟨opened, (.sendTo ana n, noStale), [ascii ";MONEY_SENT;\n"]⟩,
    ⟨fun _ => none, (.connect ana, noStale), []⟩]

theorem credit_run (n : Int32) :
    Run (Steps serveCommand) (fun _ => none) (creditHistory n) (credited n) := by
  refine (Run.start.next ?_).next ?_
  · rw [Steps, serveCommand, serve_render]
    rfl
  · simp only [Steps, serveCommand, serve_render, apply, sendTo, opened_ana]
    rfl

/-- Two well-formed datagrams bring a balance to `-5`. -/
theorem negative_send_overdraws :
    ∃ h users, Run (Steps serveCommand) (fun _ => none) h users ∧ ¬ InRange users := by
  refine ⟨_, _, credit_run (-5), fun hr => ?_⟩
  have hmoney := (hr ana.bytes _ (Function.update_self ..)).1
  exact absurd hmoney (by decide)

/-- A run whose only credit is solvent. -/
theorem positive_send_in_range :
    InRange (credited 5) ∧ ∀ st ∈ creditHistory 5, InRange st.before := by
  refine (balances_in_range_iff (credit_run 5)).mpr ?_
  simp only [creditHistory, List.forall_mem_cons, List.not_mem_nil, false_implies, implies_true,
    and_true, Solvent]
  intro u hu
  obtain rfl : ⟨0, true⟩ = u := Option.some.inj (opened_ana.symm.trans hu)
  decide

end Pcom.Partial.Balance
