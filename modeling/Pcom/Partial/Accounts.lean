import Pcom.Partial.Balance
import Mathlib.Algebra.BigOperators.Group.List.Basic

/-!
# The replies of the account server account for its state

A `send_to` answered `;MONEY_SENT;` is a credit of the id it names, a `get` answered `;GET_MONEY` a
debit; nothing else moves money.  What a datagram was answered is read off the datagrams sent back
(`answered`), not off the branch taken.

* `serveCommand_money` — one step changes the balance of every id by its credit less its debit;
* `accounts_for_state` — **the accounting of a run**: balances are credits less debits, a refused or
  informative datagram changes nothing, a session that ends and starts again keeps its balance, and no
  command touches another id.
-/

namespace Pcom.Partial.Accounts

open Pcom.Lib.Scan Pcom.Lib.StepSystem Pcom.Partial.Server Pcom.Partial.Balance

/-- One of the datagrams sent back starts with `tag`. -/
def answered (tag : Bytes) (out : List Bytes) : Bool := out.any (startsWith tag)

/-- The id a command is about. -/
def idOf : Command → Id
  | .connect id | .sendTo id _ | .showSum id | .get _ id | .exit id => id

/-- The balance of an id, `0` before it is registered. -/
def money (users : Users) (id : Bytes) : ℤ := (users id).elim 0 User.money

/-- The amount of a `send_to` for `id` that was answered `;MONEY_SENT;`. -/
def credit (id : Bytes) (cmd : Command) (out : List Bytes) : ℤ :=
  match cmd with
  | .sendTo id' sum =>
    if id'.bytes = id ∧ answered (ascii ";MONEY_SENT;") out then sum.toInt else 0
  | _ => 0

/-- The amount of a `get` for `id` that was answered `;GET_MONEY`. -/
def debit (id : Bytes) (cmd : Command) (out : List Bytes) : ℤ :=
  match cmd with
  | .get sum id' => if id'.bytes = id ∧ answered (ascii ";GET_MONEY") out then sum.toInt else 0
  | _ => 0

/-- All credits of `id` in a history. -/
def credits (id : Bytes) (h : List (Step Users (Command × Stale) Bytes)) : ℤ :=
  (h.map fun st => credit id st.input.1 st.out).sum

/-- All debits of `id` in a history. -/
def debits (id : Bytes) (h : List (Step Users (Command × Stale) Bytes)) : ℤ :=
  (h.map fun st => debit id st.input.1 st.out).sum

/-- The addition or subtraction the command makes does not overflow. -/
def NoOverflow (users : Users) : Command → Prop
  | .sendTo id sum => ∀ u, users id.bytes = some u → FitsInt (u.money + sum.toInt)
  | .get sum id => ∀ u, users id.bytes = some u → sum.toInt ≤ u.money → FitsInt (u.money - sum.toInt)
  | _ => True

instance (users : Users) : DecidablePred (NoOverflow users)
  | .connect _ => .isTrue trivial
  | .sendTo id sum => inferInstanceAs (Decidable (∀ u ∈ users id.bytes, FitsInt (u.money + sum.toInt)))
  | .showSum _ => .isTrue trivial
  | .get sum id =>
    inferInstanceAs (Decidable (∀ u ∈ users id.bytes, sum.toInt ≤ u.money → FitsInt (u.money - sum.toInt)))
  | .exit _ => .isTrue trivial

/-- The answers that report a refusal, or only a balance. -/
def Declined (out : List Bytes) : Prop :=
  answered (ascii ";USER_EXISTS;") out ∨ answered (ascii ";MONEY_NOSENT;") out ∨
    answered (ascii ";GET_ERROR;") out ∨ answered (ascii ";SHOW_SUM") out

instance (out : List Bytes) : Decidable (Declined out) := inferInstanceAs (Decidable (_ ∨ _))

/-! ### One datagram -/

theorem serveCommand_eq (users : Users) (cmd : Command) (stale : Stale) :
    serveCommand users (cmd, stale) = apply users cmd :=
  serve_render users cmd stale

theorem money_update (users : Users) (id' id : Bytes) (u : User) :
    money (Function.update users id' (some u)) id = if id' = id then u.money else money users id := by
  unfold money
  by_cases heq : id' = id
  · subst heq
    rw [Function.update_self, if_pos rfl]
    rfl
  · rw [Function.update_of_ne (Ne.symm heq), if_neg heq]

theorem money_of_some {users : Users} {id : Bytes} {u : User} (hu : users id = some u) :
    money users id = u.money := by
  rw [money, hu]
  rfl

/-- Storing a record with the balance it had leaves all balances as they were. -/
theorem money_restore {users : Users} {id' : Bytes} {u : User} (hu : money users id' = u.money)
    (id : Bytes) : money (Function.update users id' (some u)) id = money users id := by
  rw [money_update]
  split
  · rename_i heq
    rw [← heq, hu]
  · rfl

theorem connect_money (users : Users) (id' id : Bytes) :
    money (connect users id').1 id = money users id := by
  unfold connect
  cases hu : users id' with
  | none => exact money_restore (by rw [money, hu]; rfl) id
  | some u =>
    simp only
    split
    · rfl
    · exact money_restore (u := ⟨u.money, true⟩) (by rw [money_of_some hu]) id

theorem sendTo_money {users : Users} {id' : Id} {sum : Int32}
    (hfit : NoOverflow users (.sendTo id' sum)) (id : Bytes) :
    money (sendTo users id'.bytes sum.toInt).1 id =
      money users id + credit id (.sendTo id' sum) (sendTo users id'.bytes sum.toInt).2 := by
  unfold sendTo
  cases hu : users id'.bytes with
  | none =>
    have hno : answered (ascii ";MONEY_SENT;") [ascii ";MONEY_NOSENT;\n"] = false := by decide
    simp [credit, hno]
  | some u =>
    have hyes : answered (ascii ";MONEY_SENT;") [ascii ";MONEY_SENT;\n"] = true := by decide
    have hsum := hfit u hu
    simp only [credit, hyes, and_true, money_update, toInt_eq_self hsum.1 hsum.2]
    split
    · rename_i heq
      rw [← heq, money_of_some hu]
    · omega

theorem get_money {users : Users} {id' : Id} {sum : Int32} {r : Reply}
    (hfit : NoOverflow users (.get sum id')) (hr : get users id'.bytes sum.toInt = some r)
    (id : Bytes) : money r.1 id = money users id - debit id (.get sum id') r.2 := by
  obtain ⟨u, hu, rfl⟩ := Option.map_eq_some_iff.mp hr
  by_cases hpoor : u.money < sum.toInt
  · have hno : answered (ascii ";GET_MONEY") [ascii ";GET_ERROR;\n"] = false := by decide
    simp [debit, if_pos hpoor, hno]
  · have hyes : answered (ascii ";GET_MONEY") [ascii ";GET_MONEY " ++ printInt sum.toInt] = true := rfl
    have hsum := hfit u hu (by omega)
    simp only [if_neg hpoor, debit, hyes, and_true, money_update, toInt_eq_self hsum.1 hsum.2]
    split
    · rename_i heq
      rw [← heq, money_of_some hu]
    · omega

theorem exit_money {users : Users} {id' : Bytes} {r : Reply} (hr : exit users id' = some r)
    (id : Bytes) : money r.1 id = money users id := by
  obtain ⟨u, hu, rfl⟩ := Option.map_eq_some_iff.mp hr
  exact money_restore (u := ⟨u.money, false⟩) (by rw [money_of_some hu]) id

/-- **One datagram** changes every balance by its credit less its debit. -/
theorem serveCommand_money {users : Users} {inp : Command × Stale} {r : Reply}
    (hfit : NoOverflow users inp.1) (hr : serveCommand users inp = some r) (id : Bytes) :
    money r.1 id = money users id + credit id inp.1 r.2 - debit id inp.1 r.2 := by
  obtain ⟨cmd, stale⟩ := inp
  rw [serveCommand_eq] at hr
  cases cmd with
  | connect id' =>
    obtain rfl := Option.some.inj hr
    rw [connect_money]
    simp [credit, debit]
  | sendTo id' sum =>
    obtain rfl := Option.some.inj hr
    rw [sendTo_money hfit]
    simp [debit]
  | showSum id' =>
    obtain ⟨u, -, rfl⟩ := Option.map_eq_some_iff.mp hr
    simp [credit, debit]
  | get sum id' =>
    rw [get_money hfit hr]
    simp [credit]
  | exit id' =>
    rw [exit_money hr]
    simp [credit, debit]

/-- **What a command stores**: nothing, or the record of the id it names, and then its answer is no refusal. -/
theorem serveCommand_stores {users : Users} {inp : Command × Stale} {r : Reply}
    (hr : serveCommand users inp = some r) :
    r.1 = users ∨ (∃ u, r.1 = Function.update users (idOf inp.1).bytes (some u)) ∧ ¬ Declined r.2 := by
  have hsilent : ¬ Declined [] := by decide
  obtain ⟨cmd, stale⟩ := inp
  rw [serveCommand_eq] at hr
  cases cmd with
  | connect id' =>
    obtain rfl := Option.some.inj hr
    unfold connect
    cases users id'.bytes with
    | none => exact .inr ⟨⟨_, rfl⟩, hsilent⟩
    | some u =>
      simp only
      split
      · exact .inl rfl
      · exact .inr ⟨⟨_, rfl⟩, hsilent⟩
  | sendTo id' sum =>
    have hsent : ¬ Declined [ascii ";MONEY_SENT;\n"] := by decide
    obtain rfl := Option.some.inj hr
    unfold sendTo
    cases users id'.bytes with
    | none => exact .inl rfl
    | some u => exact .inr ⟨⟨_, rfl⟩, hsent⟩
  | showSum id' =>
    obtain ⟨u, -, rfl⟩ := Option.map_eq_some_iff.mp hr
    exact .inl rfl
  | get sum id' =>
    obtain ⟨u, -, rfl⟩ := Option.map_eq_some_iff.mp hr
    split
    · exact .inl rfl
    · refine .inr ⟨⟨_, rfl⟩, fun hout => ?_⟩
      rcases hout with hd | hd | hd | hd <;> cases hd
  | exit id' =>
    obtain ⟨u, -, rfl⟩ := Option.map_eq_some_iff.mp hr
    exact .inr ⟨⟨_, rfl⟩, hsilent⟩

/-- A command stores at most the record of the id it names. -/
theorem serveCommand_others {users : Users} {inp : Command × Stale} {r : Reply}
    (hr : serveCommand users inp = some r) {id : Bytes} (hid : id ≠ (idOf inp.1).bytes) :
    r.1 id = users id := by
  obtain hsame | ⟨⟨u, hstored⟩, -⟩ := serveCommand_stores hr
  · rw [hsame]
  · rw [hstored, Function.update_of_ne hid]

/-- A refusal, or the report of a balance, leaves the map as it was. -/
theorem serveCommand_declined {users : Users} {inp : Command × Stale} {r : Reply}
    (hr : serveCommand users inp = some r) (hout : Declined r.2) : r.1 = users := by
  obtain hsame | ⟨-, hanswer⟩ := serveCommand_stores hr
  · exact hsame
  · exact absurd hout hanswer

/-- After a `CONNECT` its id is registered and connected. -/
theorem connect_connected (users : Users) (id : Bytes) :
    ∃ u, (connect users id).1 id = some u ∧ u.isConnected = true := by
  unfold connect
  cases hu : users id with
  | none => exact ⟨_, Function.update_self .., rfl⟩
  | some u =>
    simp only
    split
    · rename_i hconn
      exact ⟨u, hu, hconn⟩
    · exact ⟨_, Function.update_self .., rfl⟩

/-! ### Runs -/

variable {h : List (Step Users (Command × Stale) Bytes)} {users₀ users : Users}

/-- Over a run from any state, every balance changes by the credits less the debits. -/
theorem run_money (run : Run (Steps serveCommand) users₀ h users)
    (hfit : ∀ st ∈ h, NoOverflow st.before st.input.1) (id : Bytes) :
    money users id = money users₀ id + credits id h - debits id h := by
  refine run.history (E := fun s i => NoOverflow s i.1)
    (P := fun h s => money s id = money users₀ id + credits id h - debits id h) ?_ ?_ hfit
  · simp [credits, debits]
  · intro h s i s' out hs hok hstep
    rw [serveCommand_money hok hstep id, hs]
    simp only [credits, debits, List.map_cons, List.sum_cons]
    ring

/-- What the replies of a run say about the map it ends in. -/
structure AccountsFor (h : List (Step Users (Command × Stale) Bytes)) (users : Users) : Prop where
  balance : ∀ id u, users id = some u → u.money = credits id h - debits id h
  declined : ∀ inp r, serveCommand users inp = some r → Declined r.2 → r.1 = users
  others : ∀ inp r, serveCommand users inp = some r →
    ∀ id, id ≠ (idOf inp.1).bytes → r.1 id = users id
  /-- From an `exit` to a later `CONNECT` of the same id only the credits and debits in between count. -/
  reconnect : ∀ (id : Id) (u : User), users id.bytes = some u → ∀ mid users' exiting connecting,
    exiting.before = users → exiting.input.1 = .exit id → connecting.input.1 = .connect id →
    (∀ st ∈ mid, NoOverflow st.before st.input.1) →
    Run (Steps serveCommand) users (connecting :: (mid ++ [exiting])) users' →
    ∃ u', users' id.bytes = some u' ∧ u'.isConnected = true ∧
      u'.money = u.money + credits id.bytes mid - debits id.bytes mid

/-- **The replies account for the state**, over every run of well-formed datagrams whose sums do not
overflow. -/
theorem accounts_for_state (run : Run (Steps serveCommand) (fun _ => none) h users)
    (hfit : ∀ st ∈ h, NoOverflow st.before st.input.1) : AccountsFor h users := by
  refine ⟨fun id u hu => ?_, fun _ _ => serveCommand_declined,
    fun _ _ hr _ hid => serveCommand_others hr hid, ?_⟩
  · have hmoney := run_money run hfit id
    rw [money_of_some hu] at hmoney
    rw [hmoney, money]
    simp
  · intro id u hu mid users' exiting connecting hbefore hexit hconnect hmid hrun
    have hall : ∀ st ∈ connecting :: (mid ++ [exiting]), NoOverflow st.before st.input.1 := by
      simp only [List.forall_mem_cons, List.forall_mem_append, hconnect, hexit, NoOverflow,
        List.not_mem_nil, false_implies, implies_true, and_true, true_and]
      exact hmid
    have hmoney := run_money hrun hall id.bytes
    cases hrun with
    | @next _ s _ i _ _ hstep =>
      obtain ⟨cmd, stale⟩ := i
      obtain rfl : cmd = .connect id := hconnect
      rw [Steps, serveCommand_eq] at hstep
      obtain ⟨u', hu', hconn⟩ := connect_connected s id.bytes
      have hmap : (connect s id.bytes).1 = users' := congrArg Prod.fst (Option.some.inj hstep)
      rw [hmap] at hu'
      refine ⟨u', hu', hconn, ?_⟩
      rw [money_of_some hu, money_of_some hu'] at hmoney
      rw [hmoney]
      simp [credits, debits, credit, debit, hexit]

/-- A session that ends and comes back; a `get` in between asks for too much, and `bob` has no account. -/
def comesBack : List (Command × Stale) :=
  [.connect ana, .sendTo ana 5, .get 3 ana, .get 7 ana, .exit ana, .sendTo ana 4, .sendTo bob 1, .connect ana,
    .showSum ana].map fun cmd => (cmd, noStale)

theorem session_accounts : ∃ h users, Run (Steps serveCommand) (fun _ => none) h users ∧
    emitted h = [ascii ";MONEY_SENT;\n", ascii ";GET_MONEY 3", ascii ";GET_ERROR;\n", ascii ";MONEY_SENT;\n",
      ascii ";MONEY_NOSENT;\n", ascii ";SHOW_SUM 6"] ∧ users ana.bytes = some ⟨6, true⟩ ∧ AccountsFor h users := by
  obtain ⟨h, users, run, hcheck⟩ := Run.of_check serveCommand (fun _ => none) comesBack
    (fun h users => decide (emitted h = [ascii ";MONEY_SENT;\n", ascii ";GET_MONEY 3", ascii ";GET_ERROR;\n",
      ascii ";MONEY_SENT;\n", ascii ";MONEY_NOSENT;\n", ascii ";SHOW_SUM 6"] ∧ users ana.bytes = some ⟨6, true⟩ ∧
      ∀ st ∈ h, NoOverflow st.before st.input.1)) (by decide +kernel)
  obtain ⟨hreplies, hana, hfit⟩ := of_decide_eq_true hcheck
  exact ⟨h, users, run, hreplies, hana, accounts_for_state run hfit⟩

end Pcom.Partial.Accounts
