import Mathlib.Algebra.Order.Group.Multiset
import Pcom.Partial.Money

/-!
# What the clients and the server tell each other

* `never_stuck_iff` — where the network keeps the order of each client's requests and loses none, **no run brings the
  server to an account that does not exist**;
* `lost_connect_stuck` — a lost `CONNECT` brings the server to dereference `users.end()`;
* `truthful_of_run` — in **every run**, each answer is shown at most once, and says how the account then was.
-/

namespace Pcom.Partial.Dialogue

open Function Pcom.Lib.Pool Pcom.Lib.Scan Pcom.Lib.StepSystem Pcom.Partial.Accounts Pcom.Partial.Server
open Pcom.Partial.Sessions Pcom.Partial.Terminal

/-! ### Requests in order -/

section Order

variable {ι : Type*} [DecidableEq ι] {ids : ι → Id} {p : Int32 → Prop} {s s' : State ι} {act : Act ι}
  {out : List (ι × Answer)}

/-- The network keeps the order of each client's requests, and loses none. -/
def InOrder (s : State ι) : Act ι → Prop
  | .serve k _ => Oldest Prod.fst s.requests k
  | .loseRequest _ => False
  | _ => True

instance (s : State ι) : (act : Act ι) → Decidable (InOrder s act)
  | .start _ => .isTrue trivial
  | .typed _ _ _ => .isTrue trivial
  | .serve k _ => inferInstanceAs (Decidable (Oldest Prod.fst s.requests k))
  | .answer _ => .isTrue trivial
  | .loseRequest _ => .isFalse id
  | .loseAnswer _ => .isTrue trivial

/-- There is somebody who can move. -/
def Possible (s : State ι) : Act ι → Prop
  | .start i => s.phase i = .waiting
  | .typed i _ _ => s.phase i = .running
  | .serve k _ => ∃ r, s.requests[k]? = some r
  | .answer k => ∃ r, s.answers[k]? = some r ∧ s.phase r.1 = .running
  | .loseRequest k => ∃ r, s.requests[k]? = some r
  | .loseAnswer k => ∃ r, s.answers[k]? = some r

/-- A client that was started has its account, or its `CONNECT` is the first of its requests. -/
structure Opened (ids : ι → Id) (users : Users) (phase : ι → Phase) (requests : List (ι × Bytes)) : Prop where
  silent : ∀ i, phase i = .waiting → lane Prod.fst i requests = []
  opened : ∀ i, phase i ≠ .waiting → (users (ids i).bytes).isSome = true ∨
    ∃ rest, lane Prod.fst i requests = (i, render (.connect (ids i))) :: rest

variable {users : Users} {phase : ι → Phase} {requests : List (ι × Bytes)}

/-- An account that is open stays open. -/
theorem registered_apply {cmd : Command} {r : Reply} (hr : apply users cmd = some r) {id : Bytes}
    (hid : (users id).isSome = true) : (r.1 id).isSome = true := by
  have hserve : Balance.serveCommand users (cmd, Balance.noStale) = some r := (serveCommand_eq ..).trans hr
  rcases serveCommand_stores hserve with hsame | ⟨⟨u, hstored⟩, -⟩
  · rw [hsame]
    exact hid
  · rw [hstored]
    by_cases heq : id = (idOf cmd).bytes
    · rw [heq, update_self]
      rfl
    · rw [update_of_ne heq]
      exact hid

/-- A command of a client whose account is open has an outcome. -/
theorem apply_isSome {a : Id} {cmd : Command} (hown : Own a cmd) (hopen : (users a.bytes).isSome = true) :
    (apply users cmd).isSome = true := by
  cases cmd with
  | connect id => rfl
  | sendTo id sum => rfl
  | showSum id =>
    obtain rfl : id = a := hown
    rw [apply, showSum, Option.isSome_map]
    exact hopen
  | get sum id =>
    obtain rfl : id = a := hown
    rw [apply, Server.get, Option.isSome_map]
    exact hopen
  | exit id =>
    obtain rfl : id = a := hown
    rw [apply, Server.exit, Option.isSome_map]
    exact hopen

/-- Datagrams with the same bytes are served alike. -/
theorem apply_congr {cmd cmd' : Command} (h : render cmd = render cmd') (users : Users) :
    apply users cmd = apply users cmd' := by
  rw [← serve_render users cmd Balance.noStale, h, serve_render]

/-- A client that ends was started before. -/
theorem Opened.ended (ho : Opened ids users phase requests) {i : ι} (hphase : phase i = .running) :
    Opened ids users (update phase i .ended) requests := by
  have hwaiting : ∀ j, update phase i .ended j = .waiting ↔ phase j = .waiting := by
    intro j
    by_cases hji : j = i
    · subst hji
      rw [update_self, hphase]
      decide
    · rw [update_of_ne hji]
  constructor
  · intro j hj
    exact ho.silent j ((hwaiting j).mp hj)
  · intro j hj
    exact ho.opened j fun h => hj ((hwaiting j).mpr h)

/-- Clients that run send more requests. -/
theorem Opened.more (ho : Opened ids users phase requests) {more : List (ι × Bytes)}
    (hmore : ∀ r ∈ more, phase r.1 = .running) : Opened ids users phase (requests ++ more) := by
  constructor
  · intro j hj
    have hnone : lane Prod.fst j more = [] := by
      refine lane_eq_nil fun r hr heq => ?_
      have hrunning := hmore r hr
      rw [heq, hj] at hrunning
      cases hrunning
    rw [lane_append, ho.silent j hj, hnone]
    rfl
  · intro j hj
    rcases ho.opened j hj with hopen | ⟨rest, hfirst⟩
    · exact Or.inl hopen
    · refine Or.inr ⟨rest ++ lane Prod.fst j more, ?_⟩
      rw [lane_append, hfirst, List.cons_append]

/-- A client is started. -/
theorem Opened.start (ho : Opened ids users phase requests) {i : ι} (hphase : phase i = .waiting) :
    Opened ids users (update phase i .running) (requests ++ [(i, render (.connect (ids i)))]) := by
  have hother : ∀ j, j ≠ i → lane Prod.fst j [(i, render (.connect (ids i)))] = [] := by
    intro j hji
    refine lane_eq_nil fun r hr heq => ?_
    rw [List.mem_singleton.mp hr] at heq
    exact hji heq.symm
  constructor
  · intro j hj
    by_cases hji : j = i
    · subst hji
      rw [update_self] at hj
      cases hj
    · rw [update_of_ne hji] at hj
      rw [lane_append, ho.silent j hj, hother j hji]
      rfl
  · intro j hj
    by_cases hji : j = i
    · subst hji
      refine Or.inr ⟨[], ?_⟩
      rw [lane_append, ho.silent j hphase, List.nil_append, lane, List.filter_cons_of_pos (by simp)]
      rfl
    · rw [update_of_ne hji] at hj
      rw [lane_append, hother j hji, List.append_nil]
      exact ho.opened j hj

/-- The oldest request of a client is its `CONNECT`, or its account is open. -/
theorem Opened.oldest (ho : Opened ids users phase requests) {k : ℕ} {i : ι} {cmd : Command}
    (hget : requests[k]? = some (i, render cmd)) (hold : Oldest Prod.fst requests k) :
    (users (ids i).bytes).isSome = true ∨ render cmd = render (.connect (ids i)) := by
  have hlane := lane_eraseIdx_oldest hget hold
  have hphase : phase i ≠ .waiting := by
    intro hwaiting
    have hsilent := ho.silent i hwaiting
    rw [hlane] at hsilent
    cases hsilent
  rcases ho.opened i hphase with hopen | ⟨rest, hfirst⟩
  · exact Or.inl hopen
  · rw [hlane] at hfirst
    exact Or.inr (Prod.mk.inj (List.cons.inj hfirst).1).2

/-- The server takes the oldest request of a client. -/
theorem Opened.serve (ho : Opened ids users phase requests) {k : ℕ} {i : ι} {cmd : Command}
    (hget : requests[k]? = some (i, render cmd)) (hold : Oldest Prod.fst requests k) {r : Reply}
    (happly : apply users cmd = some r) : Opened ids r.1 phase (requests.eraseIdx k) := by
  constructor
  · intro j hj
    have hsub := (List.eraseIdx_sublist requests k).filter fun r => r.1 = j
    have hsilent : requests.filter (fun r => r.1 = j) = [] := ho.silent j hj
    rw [hsilent] at hsub
    exact List.sublist_nil.mp hsub
  · intro j hj
    by_cases hij : i = j
    · subst hij
      refine Or.inl ?_
      rcases ho.oldest hget hold with hopen | hconnect
      · exact registered_apply happly hopen
      · rw [apply_congr hconnect] at happly
        obtain rfl := Option.some.inj happly
        obtain ⟨u, hu, -⟩ := connect_connected users (ids i).bytes
        rw [hu]
        rfl
    · rw [lane_eraseIdx_of_ne hget hij]
      rcases ho.opened j hj with hopen | hfirst
      · exact Or.inl (registered_apply happly hopen)
      · exact Or.inr hfirst

/-- **One move**, in order. -/
theorem Opened.step (ho : Opened ids s.users s.phase s.requests) (hin : InOrder s act)
    (hmove : Move ids p s act s' out) : Opened ids s'.users s'.phase s'.requests := by
  cases hmove with
  | start hphase => exact ho.start hphase
  | @typed i line stale hphase =>
    have hmore : Opened ids s.users s.phase
        (s.requests ++ (line.command (ids i)).toList.map fun cmd => (i, render cmd)) := by
      refine ho.more fun r hr => ?_
      obtain ⟨cmd, -, rfl⟩ := List.mem_map.mp hr
      exact hphase
    dsimp only
    split
    · exact hmore.ended hphase
    · exact hmore
  | serve hget hown hsums happly => exact ho.serve hget hin happly
  | answer hget hfits hphase =>
    dsimp only
    split
    · exact ho
    · exact ho.ended hphase
  | loseRequest hget hsums => exact absurd hin id
  | loseAnswer hget hfits => exact ho

/-- What holds in every state of an orderly run. -/
theorem orderly_of_run {h : List (Step (State ι) (Act ι) (ι × Answer))} (run : Run (Steps (step ids)) init h s)
    (horder : ∀ st ∈ h, InOrder st.before st.input) :
    Proper ids (fun _ => True) s ∧ Opened ids s.users s.phase s.requests := by
  refine run.invariant (E := InOrder)
    (P := fun s => Proper ids (fun _ => True) s ∧ Opened ids s.users s.phase s.requests) ?_ ?_ horder
  · exact ⟨proper_init, fun _ _ => rfl, fun _ hphase => absurd rfl hphase⟩
  · intro s act s' out hs hin hstep
    have hmove := move_of_step hs.1 hstep
    exact ⟨hmove.proper hs.1 fun _ _ => trivial, hs.2.step hin hmove⟩

/-- **The server and the clients never get stuck**, in every run in which each client's requests come in order: a move
has an outcome exactly when there is somebody who can make it. -/
theorem never_stuck_iff {h : List (Step (State ι) (Act ι) (ι × Answer))} (run : Run (Steps (step ids)) init h s)
    (horder : ∀ st ∈ h, InOrder st.before st.input) (hin : InOrder s act) :
    (step ids s act).isSome = true ↔ Possible s act := by
  obtain ⟨hs, ho⟩ := orderly_of_run run horder
  cases act with
  | start i =>
    rw [step, appendId_body _ (by decide), Possible]
    split <;> simp [*]
  | typed i line stale =>
    rw [step, stdinCommand_text, Possible]
    split <;> simp [*]
  | serve k stale =>
    rw [step, Possible]
    cases hget : s.requests[k]? with
    | none => simp
    | some r =>
      obtain ⟨i, datagram⟩ := r
      obtain ⟨cmd, hcmd, hown, -⟩ := hs.request hget
      obtain rfl : datagram = render cmd := congrArg Prod.snd hcmd
      refine iff_of_true ?_ ⟨_, rfl⟩
      dsimp only
      rw [Option.isSome_map, serve_render]
      rcases ho.oldest hget hin with hopen | hconnect
      · exact apply_isSome hown hopen
      · rw [apply_congr hconnect]
        rfl
  | answer k =>
    rw [step, Possible]
    cases hget : s.answers[k]? with
    | none => simp
    | some r =>
      obtain ⟨i, datagram⟩ := r
      obtain ⟨answer, hanswer, hfits⟩ := hs.answer hget
      obtain rfl : datagram = answer.datagram := congrArg Prod.snd hanswer
      dsimp only
      rw [onAnswer_datagram hfits]
      split <;> simp [*]
  | loseRequest k => exact absurd hin id
  | loseAnswer k =>
    rw [step, Possible]
    cases s.answers[k]? with
    | none => simp
    | some r => simp

end Order

/-- Ana's client takes money at once. -/
def takeAtOnce : List (Act Bool) :=
  [.start false, .typed false (.get 3) ⟨[], []⟩, .serve 0 Balance.noStale]

theorem take_at_once_served : ∃ h s, Run (Steps (step Money.anaAndBob)) init h s ∧
    Possible s (.serve 0 Balance.noStale) ∧ (step Money.anaAndBob s (.serve 0 Balance.noStale)).isSome = true := by
  obtain ⟨h, s, run, hcheck⟩ := Run.of_check (step Money.anaAndBob) init takeAtOnce
    (fun h s => decide ((∀ st ∈ h, InOrder st.before st.input) ∧ InOrder s (.serve 0 Balance.noStale) ∧
      s.requests.length = 1)) (by decide +kernel)
  obtain ⟨horder, hin, hlen⟩ := of_decide_eq_true hcheck
  have hpossible : Possible s (.serve 0 Balance.noStale) := by
    rw [Possible]
    exact ⟨_, List.getElem?_eq_getElem (by omega)⟩
  exact ⟨h, s, run, hpossible, (never_stuck_iff run horder hin).mpr hpossible⟩

/-- Where the `CONNECT` is lost, the server looks up an account that does not exist. -/
theorem lost_connect_stuck : ∃ h s, Run (Steps (step Money.anaAndBob)) init h s ∧
    Possible s (.serve 0 Balance.noStale) ∧ step Money.anaAndBob s (.serve 0 Balance.noStale) = none := by
  obtain ⟨h, s, run, hcheck⟩ := Run.of_check (step Money.anaAndBob) init
    [.start false, .typed false (.get 3) ⟨[], []⟩, .loseRequest 0]
    (fun _ s => decide (s.requests.length = 1) && (step Money.anaAndBob s (.serve 0 Balance.noStale)).isNone)
    (by decide +kernel)
  rw [Bool.and_eq_true, decide_eq_true_eq, Option.isNone_iff_eq_none] at hcheck
  obtain ⟨hlen, hnone⟩ := hcheck
  exact ⟨h, s, run, ⟨_, List.getElem?_eq_getElem (by omega)⟩, hnone⟩

/-! ### What is shown -/

section Shown

variable {ι : Type*}

/-- The datagrams that the server answers with in a move, with the client they go to. -/
def answersOf (s : State ι) : Act ι → List (ι × Bytes)
  | .serve k stale =>
    match s.requests[k]? with
    | none => []
    | some (i, datagram) =>
      match serve s.users datagram stale with
      | none => []
      | some r => r.2.map fun answer => (i, answer)
  | _ => []

/-- All answers of the server. -/
def answered : List (Step (State ι) (Act ι) (ι × Answer)) → Multiset (ι × Bytes)
  | [] => 0
  | st :: h => answersOf st.before st.input + answered h

/-- All answers shown. -/
def shown : List (Step (State ι) (Act ι) (ι × Answer)) → Multiset (ι × Bytes)
  | [] => 0
  | st :: h => (st.out.map fun o => (o.1, o.2.datagram) : List (ι × Bytes)) + shown h

/-- Does the move leave the answers on the way alone? -/
def keepsAnswers : Act ι → Bool
  | .loseAnswer _ => false
  | _ => true

/-- No answer is lost. -/
def AnswersKept (h : List (Step (State ι) (Act ι) (ι × Answer))) : Prop := ∀ st ∈ h, keepsAnswers st.input = true

/-- The server answered a request of the client so, in the state it then was in. -/
def Justified (ids : ι → Id) (h : List (Step (State ι) (Act ι) (ι × Answer))) (i : ι) (answer : Answer) : Prop :=
  ∃ st ∈ h, ∃ k stale cmd, st.input = .serve k stale ∧ st.before.requests[k]? = some (i, render cmd) ∧
    Own (ids i) cmd ∧ answer ∈ replies cmd (st.before.users (idOf cmd).bytes)

variable {ids : ι → Id} {s s' : State ι} {act : Act ι} {out : List (ι × Answer)}
  {h : List (Step (State ι) (Act ι) (ι × Answer))}

theorem Justified.later {i : ι} {answer : Answer} (hj : Justified ids h i answer)
    (st : Step (State ι) (Act ι) (ι × Answer)) : Justified ids (st :: h) i answer := by
  obtain ⟨st', hst, hrest⟩ := hj
  exact ⟨st', List.mem_cons_of_mem _ hst, hrest⟩

/-- What a run has answered and shown. -/
structure Truthful (ids : ι → Id) (h : List (Step (State ι) (Act ι) (ι × Answer))) (s : State ι) : Prop where
  /-- No answer is made up or shown twice. -/
  backed : shown h + (s.answers : Multiset (ι × Bytes)) ≤ answered h
  /-- Where none is lost, all are shown or on the way. -/
  whole : AnswersKept h → shown h + (s.answers : Multiset (ι × Bytes)) = answered h
  /-- Every answer shown was given to a request of the client. -/
  justified : ∀ o ∈ emitted h, Justified ids h o.1 o.2

/-- What holds in every state of a run. -/
structure Told (ids : ι → Id) (h : List (Step (State ι) (Act ι) (ι × Answer))) (s : State ι) : Prop where
  proper : Proper ids (fun _ => True) s
  waiting : ∀ r ∈ s.answers, ∃ answer : Answer, r.2 = answer.datagram ∧ answer.Fits ∧ Justified ids h r.1 answer
  truthful : Truthful ids h s

theorem told_init : Told ids [] init :=
  ⟨proper_init, fun _ hr => absurd hr List.not_mem_nil, le_rfl, fun _ => rfl, fun _ ho => absurd ho List.not_mem_nil⟩

theorem answersOf_serve {k : ℕ} {stale : Stale} {i : ι} {cmd : Command} {r : Reply}
    (hget : s.requests[k]? = some (i, render cmd)) (happly : apply s.users cmd = some r) :
    answersOf s (.serve k stale) =
      (replies cmd (s.users (idOf cmd).bytes)).map fun answer => (i, answer.datagram) := by
  simp only [answersOf, hget, serve_render, happly, answers_of_apply happly, List.map_map]
  rfl

variable [DecidableEq ι] {p : Int32 → Prop}

/-- **One move** that loses no answer: the server's answers are on the way until they are shown. -/
theorem answers_move (hmove : Move ids p s act s' out) (hkept : keepsAnswers act = true) :
    (out.map fun o => (o.1, o.2.datagram) : List (ι × Bytes)) + (s'.answers : Multiset (ι × Bytes)) =
      answersOf s act + (s.answers : Multiset (ι × Bytes)) := by
  cases hmove with
  | serve hget hown hsums happly =>
    rw [answersOf_serve hget happly, List.map_nil, Multiset.coe_nil, zero_add, Multiset.coe_add]
    exact Multiset.coe_eq_coe.mpr List.perm_append_comm
  | answer hget hfits hphase =>
    have hperm := Multiset.coe_eq_coe.mpr (perm_eraseIdx hget)
    dsimp only
    rw [hperm, Multiset.coe_add]
    rfl
  | start hphase => rfl
  | typed hphase => rfl
  | loseRequest hget hsums => rfl
  | loseAnswer hget hfits => cases hkept

/-- **One move** makes no answer up. -/
theorem answers_move_le (hmove : Move ids p s act s' out) :
    (out.map fun o => (o.1, o.2.datagram) : List (ι × Bytes)) + (s'.answers : Multiset (ι × Bytes)) ≤
      answersOf s act + (s.answers : Multiset (ι × Bytes)) := by
  cases hkept : keepsAnswers act with
  | true => exact (answers_move hmove hkept).le
  | false =>
    cases hmove with
    | @loseAnswer k i answer hget hfits =>
      have hless := (List.eraseIdx_sublist s.answers k).subperm
      exact add_le_add_right (Multiset.coe_le.mpr hless) _
    | start hphase => cases hkept
    | typed hphase => cases hkept
    | serve hget hown hsums happly => cases hkept
    | answer hget hfits hphase => cases hkept
    | loseRequest hget hsums => cases hkept

/-- **One move** shows only what was justified, and answers only what is. -/
theorem Told.step (ht : Told ids h s) (hmove : Move ids (fun _ => True) s act s' out) :
    Told ids (⟨s, act, out⟩ :: h) s' := by
  have hwaiting : ∀ r ∈ s'.answers, ∃ answer : Answer, r.2 = answer.datagram ∧ answer.Fits ∧
      Justified ids (⟨s, act, out⟩ :: h) r.1 answer := by
    have hearlier : ∀ r ∈ s.answers, ∃ answer : Answer, r.2 = answer.datagram ∧ answer.Fits ∧
        Justified ids (⟨s, act, out⟩ :: h) r.1 answer := by
      intro r hr
      obtain ⟨answer, hanswer, hfits, hj⟩ := ht.waiting r hr
      exact ⟨answer, hanswer, hfits, hj.later _⟩
    cases hmove with
    | @serve k stale i cmd r hget hown hsums happly =>
      intro r' hr
      rcases List.mem_append.mp hr with hr | hr
      · exact hearlier r' hr
      · obtain ⟨answer, hanswer, rfl⟩ := List.mem_map.mp hr
        have hfits := fits_of_replies (fun u hu => ht.proper.users _ u hu) hanswer
        exact ⟨answer, rfl, hfits, _, List.mem_cons_self, k, stale, cmd, rfl, hget, hown, hanswer⟩
    | start hphase => exact hearlier
    | typed hphase => exact hearlier
    | answer hget hfits hphase => exact fun r hr => hearlier r (List.mem_of_mem_eraseIdx hr)
    | loseRequest hget hsums => exact hearlier
    | loseAnswer hget hfits => exact fun r hr => hearlier r (List.mem_of_mem_eraseIdx hr)
  have hshown : ∀ o ∈ out, Justified ids (⟨s, act, out⟩ :: h) o.1 o.2 := by
    cases hmove with
    | @answer k i answer hget hfits hphase =>
      intro o ho
      obtain ⟨answer', hanswer, hfits', hj⟩ := ht.waiting _ (List.mem_of_getElem? hget)
      obtain rfl := datagram_injective hfits hfits' hanswer
      rw [List.mem_singleton.mp ho]
      exact hj.later _
    | start hphase => exact fun o ho => absurd ho List.not_mem_nil
    | typed hphase => exact fun o ho => absurd ho List.not_mem_nil
    | serve hget hown hsums happly => exact fun o ho => absurd ho List.not_mem_nil
    | loseRequest hget hsums => exact fun o ho => absurd ho List.not_mem_nil
    | loseAnswer hget hfits => exact fun o ho => absurd ho List.not_mem_nil
  refine ⟨hmove.proper ht.proper fun _ _ => trivial, hwaiting, ?_, fun hkept => ?_, fun o ho => ?_⟩
  · calc
      shown (⟨s, act, out⟩ :: h) + (s'.answers : Multiset (ι × Bytes))
        = shown h + ((out.map fun o => (o.1, o.2.datagram) : List (ι × Bytes)) +
            (s'.answers : Multiset (ι × Bytes))) := by
          rw [shown, add_right_comm, add_comm]
      _ ≤ shown h + (answersOf s act + (s.answers : Multiset (ι × Bytes))) :=
          add_le_add_right (answers_move_le hmove) _
      _ = answersOf s act + (shown h + (s.answers : Multiset (ι × Bytes))) := add_left_comm ..
      _ ≤ answered (⟨s, act, out⟩ :: h) := add_le_add_right ht.truthful.backed _
  · rw [AnswersKept, List.forall_mem_cons] at hkept
    calc
      shown (⟨s, act, out⟩ :: h) + (s'.answers : Multiset (ι × Bytes))
        = shown h + ((out.map fun o => (o.1, o.2.datagram) : List (ι × Bytes)) +
            (s'.answers : Multiset (ι × Bytes))) := by
          rw [shown, add_right_comm, add_comm]
      _ = shown h + (answersOf s act + (s.answers : Multiset (ι × Bytes))) := by rw [answers_move hmove hkept.1]
      _ = answersOf s act + (shown h + (s.answers : Multiset (ι × Bytes))) := add_left_comm ..
      _ = answered (⟨s, act, out⟩ :: h) := by rw [ht.truthful.whole hkept.2, answered]
  · rcases List.mem_append.mp ho with ho | ho
    · exact (ht.truthful.justified o ho).later _
    · exact hshown o ho

/-- **What is shown is what was answered**, in every run: however many clients there are, whichever commands are typed
and whatever the network does, each answer of the server is shown at most once, to the client it is for, and the account
was as the answer says when the server gave it. -/
theorem truthful_of_run (run : Run (Steps (step ids)) init h s) : Truthful ids h s := by
  have htold : Told ids h s := by
    refine run.history (E := fun _ _ => True) (P := Told ids) told_init ?_ fun _ _ => trivial
    intro h s act s' out ht _ hstep
    exact ht.step (move_of_step ht.proper hstep)
  exact htold.truthful

end Shown

/-- The answers shown to ana and bob over their two gifts. -/
theorem two_gifts_truthful : ∃ h s, Run (Steps (step Money.anaAndBob)) init h s ∧
    emitted h = [(false, .moneySent), (true, .getMoney 3)] ∧ Truthful Money.anaAndBob h s := by
  obtain ⟨h, s, run, hcheck⟩ := Run.of_check (step Money.anaAndBob) init Money.twoGifts
    (fun h _ => decide (emitted h = [(false, .moneySent), (true, .getMoney 3)])) (by decide +kernel)
  exact ⟨h, s, run, of_decide_eq_true hcheck, truthful_of_run run⟩

end Pcom.Partial.Dialogue
