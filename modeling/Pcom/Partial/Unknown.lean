import Pcom.Partial.Balance
import Pcom.Partial.Client

/-!
# Unknown accounts of the server

`show_sum`, `get` and `exit` look their id up and use the result without a test; `send_to`, which makes the same
lookup, tests it and answers `;MONEY_NOSENT;`.

* `serve_unknown` — the three commands have no defined outcome for an id without an account;
* `unknown_not_handled` — hence **none of them ever handles an unknown account**, in any state;
* `created_by_connect`, `registered_by_connect` — over every run, an account was created by a `CONNECT` datagram.
-/

namespace Pcom.Partial.Unknown

open Pcom.Lib.Scan Pcom.Lib.StepSystem Pcom.Partial.Server Pcom.Partial.Balance
  Pcom.Partial.Client

/-! ### Datagrams that name an account -/

/-- The word converted at a position of the format. -/
def wordField (vals : List Val) (i : ℕ) : Option Bytes :=
  match vals[i]? with
  | some (.word w) => some w
  | _ => none

/-- The id that a `show_sum`, `get` or `exit` datagram names. -/
def namedId (datagram : Bytes) : Option Bytes := do
  let buf ← bufferString MAX_LEN datagram
  if startsWith (ascii "show_sum") datagram then
    wordField (← sscanf [.word 50, .word 50] buf) 1
  else if startsWith (ascii "get") datagram then
    wordField (← sscanf [.word 50, .int, .word 50] buf) 2
  else if startsWith (ascii "exit") datagram then
    wordField (← sscanf [.word 50, .word 50] buf) 1
  else none

theorem wordArg_of_wordField {vals : List Val} {i : ℕ} {w : Bytes} (h : wordField vals i = some w)
    (old : Bytes) : wordArg vals i old = w := by
  unfold wordField at h
  unfold wordArg
  cases hv : vals[i]? with
  | none => simp [hv] at h
  | some v =>
    cases v with
    | word w' => simpa [hv] using h
    | int n => simp [hv] at h

/-! ### The three branches -/

variable {users : Users} {datagram id : Bytes}

theorem showSum_unknown (hid : users id = none) : showSum users id = none := by
  rw [showSum, hid, Option.map_none]

theorem get_unknown (hid : users id = none) (sum : ℤ) : get users id sum = none := by
  rw [Server.get, hid, Option.map_none]

theorem exit_unknown (hid : users id = none) : exit users id = none := by
  rw [exit, hid, Option.map_none]

/-- **No defined outcome**: the branch dereferences `users.end()`. -/
theorem serve_unknown (hnamed : namedId datagram = some id) (hid : users id = none) (stale : Stale) :
    serve users datagram stale = none := by
  obtain ⟨buf, hbuf, hnamed⟩ := Option.bind_eq_some_iff.mp hnamed
  by_cases hshow : startsWith (ascii "show_sum") datagram = true
  · rw [if_pos hshow] at hnamed
    obtain ⟨args, hargs, hfield⟩ := Option.bind_eq_some_iff.mp hnamed
    have hconnect := startsWith_clash hshow (show _ ∧ startsWith (ascii "CONNECT") _ = false by decide)
    have hsend := startsWith_clash hshow (show _ ∧ startsWith (ascii "send_to") _ = false by decide)
    simp only [serve, hconnect, hsend, hshow, hbuf, hargs, Option.bind_eq_bind, Option.bind_some,
      if_true, Bool.false_eq_true, if_false, wordArg_of_wordField hfield, showSum_unknown hid]
  · rw [if_neg hshow] at hnamed
    by_cases hget : startsWith (ascii "get") datagram = true
    · rw [if_pos hget] at hnamed
      obtain ⟨args, hargs, hfield⟩ := Option.bind_eq_some_iff.mp hnamed
      have hconnect := startsWith_clash hget (show _ ∧ startsWith (ascii "CONNECT") _ = false by decide)
      have hsend := startsWith_clash hget (show _ ∧ startsWith (ascii "send_to") _ = false by decide)
      simp only [serve, hconnect, hsend, hshow, hget, hbuf, hargs, Option.bind_eq_bind,
        Option.bind_some, if_true, Bool.false_eq_true, if_false, wordArg_of_wordField hfield,
        get_unknown hid]
    · rw [if_neg hget] at hnamed
      by_cases hexit : startsWith (ascii "exit") datagram = true
      · rw [if_pos hexit] at hnamed
        obtain ⟨args, hargs, hfield⟩ := Option.bind_eq_some_iff.mp hnamed
        have hconnect := startsWith_clash hexit (show _ ∧ startsWith (ascii "CONNECT") _ = false by decide)
        have hsend := startsWith_clash hexit (show _ ∧ startsWith (ascii "send_to") _ = false by decide)
        simp only [serve, hconnect, hsend, hshow, hget, hexit, hbuf, hargs, Option.bind_eq_bind,
          Option.bind_some, if_true, Bool.false_eq_true, if_false, wordArg_of_wordField hfield,
          exit_unknown hid]
      · rw [if_neg hexit] at hnamed
        cases hnamed

/-! ### Handling an unknown account -/

/-- The answers that report an error. -/
def isError (out : Bytes) : Bool :=
  [ascii ";USER_EXISTS;\n", ascii ";MONEY_NOSENT;\n", ascii ";GET_ERROR;\n"].contains out

/-- The step is defined, leaves the map as it was, and answers with an error or not at all. -/
def Handled (users : Users) (datagram : Bytes) (stale : Stale) : Prop :=
  ∃ out, serve users datagram stale = some (users, out) ∧ ∀ o ∈ out, isError o = true

/-- **No state handles an unknown account**, whichever of the three commands names it. -/
theorem unknown_not_handled (hnamed : namedId datagram = some id) (hid : users id = none)
    (stale : Stale) : ¬ Handled users datagram stale := by
  rintro ⟨out, hserve, -⟩
  rw [serve_unknown hnamed hid] at hserve
  cases hserve

/-- `show_sum bob` before anyone connected. -/
theorem show_sum_bob_unhandled : ∃ users datagram id stale, namedId datagram = some id ∧
    users id = none ∧ ¬ Handled users datagram stale := by
  have hnamed : namedId (ascii "show_sum bob") = some (ascii "bob") := by decide
  refine ⟨fun _ => none, ascii "show_sum bob", ascii "bob", noStale, hnamed, rfl, ?_⟩
  rintro ⟨out, hserve, -⟩
  rw [serve_unknown hnamed rfl] at hserve
  cases hserve

theorem get_bob_unhandled : namedId (ascii "get 5 bob") = some (ascii "bob") ∧
    ¬ Handled opened (ascii "get 5 bob") noStale := by
  have hnamed : namedId (ascii "get 5 bob") = some (ascii "bob") := by decide
  exact ⟨hnamed, unknown_not_handled hnamed (show opened (ascii "bob") = none by decide) noStale⟩

/-! ### Where accounts come from -/

/-- The branches of the loop, with what they were entered with. -/
inductive Served (users : Users) (datagram : Bytes) : Reply → Prop
  | connect (id : Bytes) : startsWith (ascii "CONNECT") datagram = true →
      Served users datagram (connect users id)
  | sendTo (id : Bytes) (sum : ℤ) : Served users datagram (sendTo users id sum)
  | showSum {id : Bytes} {r : Reply} : showSum users id = some r → Served users datagram r
  | get {id : Bytes} {sum : ℤ} {r : Reply} : get users id sum = some r → Served users datagram r
  | exit {id : Bytes} {r : Reply} : exit users id = some r → Served users datagram r
  | other : Served users datagram (users, [])

theorem served_of_serve {stale : Stale} {r : Reply} (h : serve users datagram stale = some r) :
    Served users datagram r := by
  unfold serve at h
  simp only [Option.bind_eq_bind, Option.pure_def] at h
  split at h
  · rename_i hconnect
    obtain ⟨buf, -, h⟩ := Option.bind_eq_some_iff.mp h
    obtain ⟨args, -, h⟩ := Option.bind_eq_some_iff.mp h
    obtain rfl := Option.some.inj h
    exact .connect _ hconnect
  split at h
  · obtain ⟨buf, -, h⟩ := Option.bind_eq_some_iff.mp h
    obtain ⟨args, -, h⟩ := Option.bind_eq_some_iff.mp h
    obtain rfl := Option.some.inj h
    exact .sendTo _ _
  split at h
  · obtain ⟨buf, -, h⟩ := Option.bind_eq_some_iff.mp h
    obtain ⟨args, -, h⟩ := Option.bind_eq_some_iff.mp h
    exact .showSum h
  split at h
  · obtain ⟨buf, -, h⟩ := Option.bind_eq_some_iff.mp h
    obtain ⟨args, -, h⟩ := Option.bind_eq_some_iff.mp h
    exact .get h
  split at h
  · obtain ⟨buf, -, h⟩ := Option.bind_eq_some_iff.mp h
    obtain ⟨args, -, h⟩ := Option.bind_eq_some_iff.mp h
    exact .exit h
  obtain rfl := Option.some.inj h
  exact .other

/-- A record stored under an id that has one creates no account. -/
theorem absent_update {id' : Bytes} {u : User} (hu : users id' = some u) (u' : User)
    (hid : users id = none) : Function.update users id' (some u') id = none := by
  have hne : id ≠ id' := by
    rintro rfl
    rw [hid] at hu
    cases hu
  rw [Function.update_of_ne hne, hid]

/-- **Only `CONNECT` creates an account.** -/
theorem created_by_connect {stale : Stale} {r : Reply} (h : serve users datagram stale = some r)
    (hid : users id = none) (hnew : r.1 id ≠ none) : startsWith (ascii "CONNECT") datagram = true := by
  by_contra hconnect
  apply hnew
  cases served_of_serve h with
  | connect id' hword => exact absurd hword hconnect
  | sendTo id' sum =>
    unfold sendTo
    cases hu : users id' with
    | none => exact hid
    | some u => exact absent_update hu _ hid
  | showSum hr =>
    obtain ⟨u, -, rfl⟩ := Option.map_eq_some_iff.mp hr
    exact hid
  | get hr =>
    obtain ⟨u, hu, rfl⟩ := Option.map_eq_some_iff.mp hr
    split
    · exact hid
    · exact absent_update hu _ hid
  | exit hr =>
    obtain ⟨u, hu, rfl⟩ := Option.map_eq_some_iff.mp hr
    exact absent_update hu _ hid
  | other => exact hid

/-- The receive loop on raw datagrams. -/
def serveInput (users : Users) (inp : Bytes × Stale) : Option Reply := serve users inp.1 inp.2

/-- Over every run from the empty map, whoever has an account once sent a `CONNECT` datagram. -/
theorem registered_by_connect {h : List (Step Users (Bytes × Stale) Bytes)}
    (run : Run (Steps serveInput) (fun _ => none) h users) (hid : users id ≠ none) :
    ∃ st ∈ h, startsWith (ascii "CONNECT") st.input.1 = true := by
  induction run with
  | start => exact absurd rfl hid
  | @next h users users' inp out _ hstep ih =>
    cases hu : users id with
    | none => exact ⟨_, List.mem_cons_self, created_by_connect hstep hu hid⟩
    | some u =>
      obtain ⟨st, hst, hconnect⟩ := ih (by simp [hu])
      exact ⟨st, List.mem_cons_of_mem _ hst, hconnect⟩

end Pcom.Partial.Unknown
