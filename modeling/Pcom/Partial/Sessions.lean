import Pcom.Lib.Pool
import Pcom.Partial.Terminal

/-!
# The account server and its clients

Any number of client programs, each started with an id, and the server, with the datagrams that are on the way
between them.  Datagrams are lost and overtake each other; the clients and the server move in any order.  The lines
typed are the four commands with their arguments.

* `step` — one move of one of the programs, or of the network;
* `Move`, `move_of_step` — what a move can do.
-/

namespace Pcom.Partial.Sessions

open Function Pcom.Lib.Pool Pcom.Lib.Scan Pcom.Lib.StepSystem Pcom.Partial.Accounts Pcom.Partial.Client
open Pcom.Partial.Server Pcom.Partial.Terminal

/-! ### The system -/

/-- Where a run of the client program stands. -/
inductive Phase
  | waiting
  | running
  | ended
  deriving DecidableEq

/-- The server's map, the clients, and the datagrams on the way, each with its client's address. -/
structure State (ι : Type*) where
  users : Users
  phase : ι → Phase
  requests : List (ι × Bytes)
  answers : List (ι × Bytes)

/-- A client is started; a line is typed at it; the server takes a request; a client takes an answer; the network
loses one. -/
inductive Act (ι : Type*)
  | start (i : ι)
  | typed (i : ι) (line : Line) (stale : StaleWords)
  | serve (k : ℕ) (stale : Stale)
  | answer (k : ℕ)
  | loseRequest (k : ℕ)
  | loseAnswer (k : ℕ)

variable {ι : Type*}

/-- The sum of the line typed. -/
def Act.sums : Act ι → List Int32
  | .typed _ line _ => line.sums
  | _ => []

/-- A move; what is emitted are the answers shown. -/
def step [DecidableEq ι] (ids : ι → Id) (s : State ι) : Act ι → Option (State ι × List (ι × Answer))
  | .start i =>
    if s.phase i = .waiting then
      (appendId (ascii "CONNECT") (ids i).bytes).map fun datagram =>
        ({ s with phase := update s.phase i .running, requests := s.requests ++ [(i, datagram)] }, [])
    else none
  | .typed i line stale =>
    if s.phase i = .running then
      (stdinCommand (ids i).bytes line.text stale).map fun sent =>
        ({ s with
            -- the `exit` branch is the only one left with a `break`
            phase := if startsWith (ascii "exit") (readLine line.text) then update s.phase i .ended else s.phase
            requests := s.requests ++ sent.toList.map fun datagram => (i, datagram) }, [])
    else none
  | .serve k stale =>
    match s.requests[k]? with
    | none => none
    | some (i, datagram) =>
      (serve s.users datagram stale).map fun r =>
        ({ s with
            users := r.1
            requests := s.requests.eraseIdx k
            answers := s.answers ++ r.2.map fun answer => (i, answer) }, [])
  | .answer k =>
    match s.answers[k]? with
    | none => none
    | some (i, datagram) =>
      if s.phase i = .running then
        (onAnswer datagram).map fun r =>
          ({ s with
              phase := if r.2 then s.phase else update s.phase i .ended
              answers := s.answers.eraseIdx k }, r.1.toList.map fun answer => (i, answer))
      else none
  | .loseRequest k =>
    match s.requests[k]? with
    | none => none
    | some _ => some ({ s with requests := s.requests.eraseIdx k }, [])
  | .loseAnswer k =>
    match s.answers[k]? with
    | none => none
    | some _ => some ({ s with answers := s.answers.eraseIdx k }, [])

/-- Nobody has an account and no client has been started. -/
def init : State ι := ⟨fun _ => none, fun _ => .waiting, [], []⟩

/-! ### What is on the way -/

/-- The requests are commands of their clients, with sums from `p`; the answers are the server's; balances are
`int`s. -/
structure Proper (ids : ι → Id) (p : Int32 → Prop) (s : State ι) : Prop where
  requests : ∀ r ∈ s.requests, ∃ cmd, r.2 = render cmd ∧ Own (ids r.1) cmd ∧ ∀ n ∈ sums cmd, p n
  answers : ∀ r ∈ s.answers, ∃ answer : Answer, r.2 = answer.datagram ∧ answer.Fits
  users : ∀ id u, s.users id = some u → FitsInt u.money

variable {ids : ι → Id} {p : Int32 → Prop} {s s' : State ι}

theorem proper_init : Proper ids p init :=
  ⟨fun _ h => absurd h List.not_mem_nil, fun _ h => absurd h List.not_mem_nil, fun _ _ h => by cases h⟩

theorem Proper.request (hs : Proper ids p s) {k : ℕ} {r : ι × Bytes} (hget : s.requests[k]? = some r) :
    ∃ cmd, r = (r.1, render cmd) ∧ Own (ids r.1) cmd ∧ ∀ n ∈ sums cmd, p n := by
  obtain ⟨cmd, hcmd, hown, hsums⟩ := hs.requests r (List.mem_of_getElem? hget)
  exact ⟨cmd, by rw [← hcmd], hown, hsums⟩

theorem Proper.answer (hs : Proper ids p s) {k : ℕ} {r : ι × Bytes} (hget : s.answers[k]? = some r) :
    ∃ answer : Answer, r = (r.1, answer.datagram) ∧ answer.Fits := by
  obtain ⟨answer, hanswer, hfits⟩ := hs.answers r (List.mem_of_getElem? hget)
  exact ⟨answer, by rw [← hanswer], hfits⟩

/-! ### What a move can do -/

section Moves

variable [DecidableEq ι]

/-- What a move can do. -/
inductive Move (ids : ι → Id) (p : Int32 → Prop) (s : State ι) : Act ι → State ι → List (ι × Answer) → Prop
  | start {i : ι} (hphase : s.phase i = .waiting) : Move ids p s (.start i)
      { s with phase := update s.phase i .running, requests := s.requests ++ [(i, render (.connect (ids i)))] } []
  | typed {i : ι} {line : Line} {stale : StaleWords} (hphase : s.phase i = .running) :
      Move ids p s (.typed i line stale)
        { s with
          phase := if line.ends then update s.phase i .ended else s.phase
          requests := s.requests ++ (line.command (ids i)).toList.map fun cmd => (i, render cmd) } []
  | serve {k : ℕ} {stale : Stale} {i : ι} {cmd : Command} {r : Reply} (hget : s.requests[k]? = some (i, render cmd))
      (hown : Own (ids i) cmd) (hsums : ∀ n ∈ sums cmd, p n) (happly : apply s.users cmd = some r) :
      Move ids p s (.serve k stale)
        { s with
          users := r.1
          requests := s.requests.eraseIdx k
          answers := s.answers ++
            (replies cmd (s.users (idOf cmd).bytes)).map fun answer => (i, answer.datagram) } []
  | answer {k : ℕ} {i : ι} {answer : Answer} (hget : s.answers[k]? = some (i, answer.datagram)) (hfits : answer.Fits)
      (hphase : s.phase i = .running) : Move ids p s (.answer k)
        { s with
          phase := if answer.goesOn then s.phase else update s.phase i .ended
          answers := s.answers.eraseIdx k } [(i, answer)]
  | loseRequest {k : ℕ} {i : ι} {cmd : Command} (hget : s.requests[k]? = some (i, render cmd))
      (hsums : ∀ n ∈ sums cmd, p n) :
      Move ids p s (.loseRequest k) { s with requests := s.requests.eraseIdx k } []
  | loseAnswer {k : ℕ} {i : ι} {answer : Answer} (hget : s.answers[k]? = some (i, answer.datagram))
      (hfits : answer.Fits) : Move ids p s (.loseAnswer k) { s with answers := s.answers.eraseIdx k } []

variable {act : Act ι} {out : List (ι × Answer)}

/-- **What a move can do**, by the bytes that the programs build and read. -/
theorem move_of_step (hs : Proper ids p s) (h : step ids s act = some (s', out)) : Move ids p s act s' out := by
  cases act with
  | start i =>
    simp only [step] at h
    split at h
    · rename_i hphase
      rw [appendId_body _ (by decide), Option.map_some] at h
      cases h
      exact .start hphase
    · cases h
  | typed i line stale =>
    simp only [step, stdinCommand_text, ends_text] at h
    split at h
    · rename_i hphase
      have hsent : ((line.command (ids i)).map render).toList.map (fun datagram => (i, datagram)) =
          (line.command (ids i)).toList.map fun cmd => (i, render cmd) := by
        cases line.command (ids i) with
        | none => rfl
        | some cmd => rfl
      rw [Option.map_some, hsent] at h
      cases h
      exact .typed hphase
    · cases h
  | serve k stale =>
    simp only [step] at h
    split at h
    · cases h
    · rename_i i datagram hget
      obtain ⟨cmd, hcmd, hown, hsums⟩ := hs.request hget
      obtain rfl : datagram = render cmd := congrArg Prod.snd hcmd
      rw [serve_render] at h
      obtain ⟨r, happly, hr⟩ := Option.map_eq_some_iff.mp h
      rw [answers_of_apply happly, List.map_map] at hr
      cases hr
      exact .serve hget hown hsums happly
  | answer k =>
    simp only [step] at h
    split at h
    · cases h
    · rename_i i datagram hget
      obtain ⟨answer, hanswer, hfits⟩ := hs.answer hget
      obtain rfl : datagram = answer.datagram := congrArg Prod.snd hanswer
      split at h
      · rename_i hphase
        rw [onAnswer_datagram hfits] at h
        cases h
        exact .answer hget hfits hphase
      · cases h
  | loseRequest k =>
    simp only [step] at h
    split at h
    · cases h
    · rename_i r hget
      obtain ⟨cmd, hcmd, -, hsums⟩ := hs.request hget
      cases h
      exact .loseRequest (hcmd ▸ hget) hsums
  | loseAnswer k =>
    simp only [step] at h
    split at h
    · cases h
    · rename_i r hget
      obtain ⟨answer, hanswer, hfits⟩ := hs.answer hget
      cases h
      exact .loseAnswer (hanswer ▸ hget) hfits

/-! ### What stays proper -/

theorem fitsInt_update {users : Users} (h : ∀ id u, users id = some u → FitsInt u.money) (id : Bytes) {u : User}
    (hu : FitsInt u.money) : ∀ id' u', update users id (some u) id' = some u' → FitsInt u'.money := by
  intro id' u' h'
  by_cases heq : id' = id
  · subst heq
    rw [update_self] at h'
    exact Option.some.inj h' ▸ hu
  · rw [update_of_ne heq] at h'
    exact h id' u' h'

/-- Balances stay `int`s. -/
theorem fitsInt_apply {users : Users} (h : ∀ id u, users id = some u → FitsInt u.money) {cmd : Command} {r : Reply}
    (hr : apply users cmd = some r) : ∀ id u, r.1 id = some u → FitsInt u.money := by
  cases cmd with
  | connect id =>
    obtain rfl := Option.some.inj hr
    unfold connect
    cases hu : users id.bytes with
    | none => exact fitsInt_update h _ ⟨by decide, by decide⟩
    | some u =>
      simp only
      split
      · exact h
      · exact fitsInt_update h _ (h _ u hu)
  | sendTo id sum =>
    obtain rfl := Option.some.inj hr
    unfold sendTo
    cases users id.bytes with
    | none => exact h
    | some u => exact fitsInt_update h _ (fitsInt_toInt _)
  | showSum id =>
    obtain ⟨u, -, rfl⟩ := Option.map_eq_some_iff.mp hr
    exact h
  | get sum id =>
    obtain ⟨u, -, rfl⟩ := Option.map_eq_some_iff.mp hr
    split
    · exact h
    · exact fitsInt_update h _ (fitsInt_toInt _)
  | exit id =>
    obtain ⟨u, hu, rfl⟩ := Option.map_eq_some_iff.mp hr
    exact fitsInt_update h _ (h _ u hu)

/-- **One move** leaves proper datagrams on the way. -/
theorem Move.proper (h : Move ids p s act s' out) (hs : Proper ids p s) (hact : ∀ n ∈ act.sums, p n) :
    Proper ids p s' := by
  cases h with
  | @start i hphase =>
    refine { hs with requests := ?_ }
    intro r hr
    rcases List.mem_append.mp hr with hr | hr
    · exact hs.requests r hr
    · rw [List.mem_singleton.mp hr]
      exact ⟨.connect (ids i), rfl, rfl, fun _ h => absurd h List.not_mem_nil⟩
  | @typed i line stale hphase =>
    refine { hs with requests := ?_ }
    intro r hr
    rcases List.mem_append.mp hr with hr | hr
    · exact hs.requests r hr
    · obtain ⟨cmd, hcmd, rfl⟩ := List.mem_map.mp hr
      obtain ⟨hown, hsums⟩ := own_of_command (Option.mem_toList.mp hcmd)
      exact ⟨cmd, rfl, hown, hsums ▸ hact⟩
  | @serve k stale i cmd r hget hown hsums happly =>
    refine ⟨fun r' hr => hs.requests r' (List.mem_of_mem_eraseIdx hr), ?_, fitsInt_apply hs.users happly⟩
    intro r' hr
    rcases List.mem_append.mp hr with hr | hr
    · exact hs.answers r' hr
    · obtain ⟨answer, hanswer, rfl⟩ := List.mem_map.mp hr
      exact ⟨answer, rfl, fits_of_replies (fun u hu => hs.users _ u hu) hanswer⟩
  | answer hget hfits hphase => exact { hs with answers := fun r hr => hs.answers r (List.mem_of_mem_eraseIdx hr) }
  | loseRequest hget hsums => exact { hs with requests := fun r hr => hs.requests r (List.mem_of_mem_eraseIdx hr) }
  | loseAnswer hget hfits => exact { hs with answers := fun r hr => hs.answers r (List.mem_of_mem_eraseIdx hr) }

end Moves

end Pcom.Partial.Sessions
