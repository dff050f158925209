import Pcom.Partial.Sessions

/-!
# What the clients of the account server do with money

Money is given to an account by a `send_to` line, and received by a client that is told `Ai primit suma`.  Between the
two it is in a request, on an account or in an answer, and it is lost where the network loses the datagram or the
account does not exist.

* `holdings_move` — one move conserves it, as long as no balance overflows;
* `balanced_of_run` — **every run** with sums that are not negative: balances are amounts, what a client is told to
  have received was given to its account, and the rest is on the way or lost.
-/

namespace Pcom.Partial.Money

open Pcom.Lib.Pool Pcom.Lib.Scan Pcom.Lib.StepSystem Pcom.Partial.Accounts Pcom.Partial.Client Pcom.Partial.Server
open Pcom.Partial.Sessions Pcom.Partial.Terminal
open Pcom.Partial.Balance (bob)

variable {ι : Type*} {ids : ι → Id} {p : Int32 → Prop} {s s' : State ι} {act : Act ι} {out : List (ι × Answer)}

/-! ### What the money does -/

/-- What a command gives to the account `a`. -/
def gives (a : Bytes) : Command → ℤ
  | .sendTo id sum => if id.bytes = a then sum.toInt else 0
  | _ => 0

/-- What a request on the way is to give to the account `a`. -/
def promised (a : Bytes) (r : ι × Bytes) : ℤ :=
  if startsWith (ascii "send_to") r.2 then
    (sscanf [.word 50, .word 50, .int] r.2).elim 0 fun args => if wordArg args 1 [] = a then intArg args 2 0 else 0
  else 0

/-- What an answer tells a client of the account `a` to have received. -/
def pays (ids : ι → Id) (a : Bytes) (o : ι × Answer) : ℤ :=
  match o.2 with
  | .getMoney sum => if (ids o.1).bytes = a then sum else 0
  | _ => 0

/-- What an answer on the way is to tell a client of the account `a` to have received. -/
def owed (ids : ι → Id) (a : Bytes) (r : ι × Bytes) : ℤ :=
  match onAnswer r.2 with
  | some (some answer, _) => pays ids a (r.1, answer)
  | _ => 0

/-- What the line typed gives to the account `a`. -/
def givenBy (ids : ι → Id) (a : Bytes) : Act ι → ℤ
  | .typed i line _ => (line.command (ids i)).elim 0 (gives a)
  | _ => 0

/-- What is lost to the account `a` with a datagram, or because the account does not exist. -/
def forfeits (ids : ι → Id) (a : Bytes) (s : State ι) : Act ι → ℤ
  | .serve k _ => if s.users a = none then worth (promised a) s.requests[k]?.toList else 0
  | .loseRequest k => worth (promised a) s.requests[k]?.toList
  | .loseAnswer k => worth (owed ids a) s.answers[k]?.toList
  | _ => 0

/-- What the account `a` has, is promised and is owed. -/
def holdings (ids : ι → Id) (a : Bytes) (s : State ι) : ℤ :=
  money s.users a + worth (promised a) s.requests + worth (owed ids a) s.answers

theorem promised_render (a : Bytes) (i : ι) (cmd : Command) : promised a (i, render cmd) = gives a cmd := by
  cases cmd with
  | sendTo id sum =>
    have hword : startsWith (ascii "send_to") (render (.sendTo id sum)) = true := rfl
    rw [promised, if_pos hword, sscanf_sendTo]
    rfl
  | connect id => rfl
  | showSum id => rfl
  | get sum id => rfl
  | exit id => rfl

theorem owed_datagram (a : Bytes) (i : ι) {answer : Answer} (hfits : answer.Fits) :
    owed ids a (i, answer.datagram) = pays ids a (i, answer) := by
  rw [owed, onAnswer_datagram hfits]

theorem promised_line (a : Bytes) (i : ι) (line : Line) :
    worth (promised a) ((line.command (ids i)).toList.map fun cmd => (i, render cmd)) =
      (line.command (ids i)).elim 0 (gives a) := by
  cases line.command (ids i) with
  | none => rfl
  | some cmd =>
    show promised a (i, render cmd) + 0 = gives a cmd
    rw [promised_render, add_zero]

theorem owed_answers (a : Bytes) (i : ι) {answers : List Answer} (hfits : ∀ answer ∈ answers, answer.Fits) :
    worth (owed ids a) (answers.map fun answer => (i, answer.datagram)) =
      worth (pays ids a) (answers.map fun answer => (i, answer)) := by
  induction answers with
  | nil => rfl
  | cons answer answers ih =>
    rw [List.forall_mem_cons] at hfits
    rw [List.map_cons, List.map_cons, worth_cons, worth_cons, ih hfits.2, owed_datagram a i hfits.1]

/-- **What a command does to an account**, by the answers to it. -/
theorem apply_money {users : Users} {cmd : Command} {r : Reply} (hfit : NoOverflow users cmd)
    (hr : apply users cmd = some r) {i : ι} (hown : Own (ids i) cmd) (a : Bytes) :
    money r.1 a + worth (pays ids a) ((replies cmd (users (idOf cmd).bytes)).map fun answer => (i, answer)) =
      money users a + if users a = none then 0 else gives a cmd := by
  cases cmd with
  | connect id =>
    obtain rfl := Option.some.inj hr
    have hsilent : ∀ account, worth (pays ids a)
        ((replies (.connect id) account).map fun answer => (i, answer)) = 0 := by
      intro account
      cases account with
      | none => rfl
      | some u =>
        simp only [replies]
        split
        · rfl
        · rfl
    show _ = money users a + if users a = none then 0 else 0
    rw [connect_money, hsilent, ite_self]
  | sendTo id sum =>
    obtain rfl := Option.some.inj hr
    rw [idOf, gives, sendTo]
    cases hu : users id.bytes with
    | none =>
      have hgone : (if users a = none then 0 else if id.bytes = a then sum.toInt else 0) = 0 := by
        by_cases heq : id.bytes = a
        · rw [if_pos (heq ▸ hu)]
        · rw [if_neg heq, ite_self]
      rw [hgone]
      rfl
    | some u =>
      obtain ⟨hlo, hhi⟩ := hfit u hu
      rw [money_update, toInt_eq_self hlo hhi]
      by_cases heq : id.bytes = a
      · subst heq
        rw [if_pos rfl, if_pos rfl, money_of_some hu, if_neg (by simp [hu])]
        exact add_zero _
      · rw [if_neg heq, if_neg heq, ite_self]
        rfl
  | showSum id =>
    obtain ⟨u, hu, rfl⟩ := Option.map_eq_some_iff.mp hr
    show _ = money users a + if users a = none then 0 else 0
    rw [idOf, hu, ite_self]
    rfl
  | get sum id =>
    obtain ⟨u, hu, rfl⟩ := Option.map_eq_some_iff.mp hr
    obtain rfl : id = ids i := hown
    show _ = money users a + if users a = none then 0 else 0
    rw [idOf, hu, ite_self, replies]
    by_cases hpoor : u.money < sum.toInt
    · rw [if_pos hpoor, if_pos hpoor]
      rfl
    · obtain ⟨hlo, hhi⟩ := hfit u hu (not_lt.mp hpoor)
      have hpays : worth (pays ids a) ([Answer.getMoney sum.toInt].map fun answer => (i, answer)) =
          if (ids i).bytes = a then sum.toInt else 0 := add_zero _
      rw [if_neg hpoor, if_neg hpoor, money_update, toInt_eq_self hlo hhi, hpays, add_zero]
      by_cases heq : (ids i).bytes = a
      · rw [if_pos heq, if_pos heq, ← heq, money_of_some hu]
        exact sub_add_cancel _ _
      · rw [if_neg heq, if_neg heq, add_zero]
  | exit id =>
    have hsilent : ∀ account, replies (.exit id) account = [] := fun account => by cases account <;> rfl
    show _ = money users a + if users a = none then 0 else 0
    rw [exit_money hr, ite_self, hsilent]
    rfl

/-! ### Sums that are not negative -/

def NotNegative (n : Int32) : Prop := 0 ≤ n.toInt

instance (n : Int32) : Decidable (NotNegative n) := inferInstanceAs (Decidable (0 ≤ n.toInt))

/-- A command gives no more than its sum. -/
theorem gives_bounds {cmd : Command} (hsums : ∀ n ∈ sums cmd, NotNegative n) (a : Bytes) :
    0 ≤ gives a cmd ∧ gives a cmd ≤ worth Int32.toInt (sums cmd) := by
  have hworth : 0 ≤ worth Int32.toInt (sums cmd) := worth_nonneg hsums
  cases cmd with
  | sendTo id sum =>
    rw [gives]
    split
    · exact ⟨hsums sum List.mem_cons_self, (add_zero sum.toInt).ge⟩
    · exact ⟨le_rfl, hworth⟩
  | connect id => exact ⟨le_rfl, hworth⟩
  | showSum id => exact ⟨le_rfl, hworth⟩
  | get sum id => exact ⟨le_rfl, hworth⟩
  | exit id => exact ⟨le_rfl, hworth⟩

theorem pays_nonneg {cmd : Command} (hsums : ∀ n ∈ sums cmd, NotNegative n) {account : Option User} {answer : Answer}
    (h : answer ∈ replies cmd account) (a : Bytes) (i : ι) : 0 ≤ pays ids a (i, answer) := by
  unfold replies at h
  split at h
  · split at h
    · rw [List.mem_singleton.mp h]
      exact le_rfl
    · cases h
  · rw [List.mem_singleton.mp h]
    exact le_rfl
  · rw [List.mem_singleton.mp h]
    exact le_rfl
  · rw [List.mem_singleton.mp h]
    exact le_rfl
  · rename_i sum _ _
    split at h
    · rw [List.mem_singleton.mp h]
      exact le_rfl
    · rw [List.mem_singleton.mp h, pays]
      have hsum : 0 ≤ sum.toInt := hsums sum List.mem_cons_self
      dsimp only
      split
      · exact hsum
      · exact le_rfl
  · cases h

theorem promised_nonneg (hs : Proper ids NotNegative s) (a : Bytes) : ∀ r ∈ s.requests, 0 ≤ promised a r := by
  intro r hr
  obtain ⟨i, datagram⟩ := r
  obtain ⟨cmd, hcmd, -, hsums⟩ := hs.requests _ hr
  obtain rfl : datagram = render cmd := hcmd
  rw [promised_render]
  exact (gives_bounds hsums a).1

/-- A line gives no more than its sum. -/
theorem givenBy_bounds {act : Act ι} (hact : ∀ n ∈ act.sums, NotNegative n) (a : Bytes) :
    0 ≤ givenBy ids a act ∧ givenBy ids a act ≤ worth Int32.toInt act.sums := by
  have hworth : 0 ≤ worth Int32.toInt act.sums := worth_nonneg hact
  cases act with
  | typed i line stale =>
    have hact : ∀ n ∈ line.sums, NotNegative n := hact
    rw [givenBy, Act.sums]
    cases hcmd : line.command (ids i) with
    | none => exact ⟨le_rfl, hworth⟩
    | some cmd =>
      rw [← (own_of_command hcmd).2] at hact ⊢
      exact gives_bounds hact a
  | start i => exact ⟨le_rfl, hworth⟩
  | serve k stale => exact ⟨le_rfl, hworth⟩
  | answer k => exact ⟨le_rfl, hworth⟩
  | loseRequest k => exact ⟨le_rfl, hworth⟩
  | loseAnswer k => exact ⟨le_rfl, hworth⟩

theorem worth_getElem?_nonneg {α : Type*} {f : α → ℤ} {l : List α} (h : ∀ x ∈ l, 0 ≤ f x) (k : ℕ) :
    0 ≤ worth f l[k]?.toList := by
  refine worth_nonneg fun x hx => h x ?_
  exact List.mem_of_getElem? (Option.mem_toList.mp hx)

theorem forfeits_nonneg (hs : Proper ids NotNegative s) (howed : ∀ a, ∀ r ∈ s.answers, 0 ≤ owed ids a r) (act : Act ι)
    (a : Bytes) : 0 ≤ forfeits ids a s act := by
  have hrequest := worth_getElem?_nonneg (promised_nonneg hs a)
  cases act with
  | serve k stale =>
    rw [forfeits]
    split
    · exact hrequest k
    · exact le_rfl
  | loseRequest k => exact hrequest k
  | loseAnswer k => exact worth_getElem?_nonneg (howed a) k
  | start i => exact le_rfl
  | typed i line stale => exact le_rfl
  | answer k => exact le_rfl

/-! ### The books -/

/-- What has been given to the account `a`, by the lines typed. -/
def given (ids : ι → Id) (a : Bytes) (h : List (Step (State ι) (Act ι) (ι × Answer))) : ℤ :=
  worth (fun st => givenBy ids a st.input) h

/-- What the clients of the account `a` have been told to have received. -/
def told (ids : ι → Id) (a : Bytes) (h : List (Step (State ι) (Act ι) (ι × Answer))) : ℤ :=
  worth (fun st => worth (pays ids a) st.out) h

/-- What has been lost to the account `a`. -/
def lost (ids : ι → Id) (a : Bytes) (h : List (Step (State ι) (Act ι) (ι × Answer))) : ℤ :=
  worth (fun st => forfeits ids a st.before st.input) h

variable {h : List (Step (State ι) (Act ι) (ι × Answer))}

theorem given_cons (a : Bytes) (s : State ι) (act : Act ι) (out : List (ι × Answer)) :
    given ids a (⟨s, act, out⟩ :: h) = givenBy ids a act + given ids a h := worth_cons ..

theorem told_cons (a : Bytes) (s : State ι) (act : Act ι) (out : List (ι × Answer)) :
    told ids a (⟨s, act, out⟩ :: h) = worth (pays ids a) out + told ids a h := worth_cons ..

theorem lost_cons (a : Bytes) (s : State ι) (act : Act ι) (out : List (ι × Answer)) :
    lost ids a (⟨s, act, out⟩ :: h) = forfeits ids a s act + lost ids a h := worth_cons ..

/-- What holds in every state of a run. -/
structure Books (ids : ι → Id) (h : List (Step (State ι) (Act ι) (ι × Answer))) (s : State ι) : Prop where
  proper : Proper ids NotNegative s
  inRange : Balance.InRange s.users
  owed_nonneg : ∀ a, ∀ r ∈ s.answers, 0 ≤ owed ids a r
  told_nonneg : ∀ a, 0 ≤ told ids a h
  lost_nonneg : ∀ a, ∀ st ∈ h, 0 ≤ forfeits ids a st.before st.input
  law : ∀ a, holdings ids a s + told ids a h + lost ids a h = given ids a h

theorem books_init : Books ids [] init := by
  refine ⟨proper_init, ?_, fun _ _ hr => absurd hr List.not_mem_nil, fun _ => le_rfl,
    fun _ _ hst => absurd hst List.not_mem_nil, fun _ => rfl⟩
  intro id u hu
  cases hu

/-- A balance is part of what has been given. -/
theorem Books.money_le (hb : Books ids h s) {id : Bytes} {u : User} (hu : s.users id = some u) {k : ℕ} {i : ι}
    {cmd : Command} (hget : s.requests[k]? = some (i, render cmd)) : u.money + gives id cmd ≤ given ids id h := by
  have hlaw := hb.law id
  have hrequest := worth_eraseIdx (promised id) hget
  have hrest : 0 ≤ worth (promised id) (s.requests.eraseIdx k) :=
    worth_nonneg fun r hr => promised_nonneg hb.proper id r (List.mem_of_mem_eraseIdx hr)
  have howed := worth_nonneg (hb.owed_nonneg id)
  have htold := hb.told_nonneg id
  have hlost := worth_nonneg (hb.lost_nonneg id)
  rw [promised_render] at hrequest
  rw [holdings, money_of_some hu, lost] at hlaw
  omega

/-- **A request on the way is solvent**, where nothing beyond `INT_MAX` has been given. -/
theorem Books.solvent (hb : Books ids h s) (hbound : ∀ a, given ids a h ≤ INT_MAX) {k : ℕ} {i : ι} {cmd : Command}
    (hget : s.requests[k]? = some (i, render cmd)) (hsums : ∀ n ∈ sums cmd, NotNegative n) :
    Balance.Solvent s.users cmd := by
  cases cmd with
  | sendTo id sum =>
    intro u hu
    have hsum : 0 ≤ sum.toInt := hsums sum List.mem_cons_self
    have hle := hb.money_le hu hget
    have hgive : gives id.bytes (.sendTo id sum) = sum.toInt := if_pos rfl
    have hmoney := (hb.inRange _ u hu).1
    have hmax := hbound id.bytes
    rw [hgive] at hle
    omega
  | get sum id =>
    intro u hu
    have hsum : 0 ≤ sum.toInt := hsums sum List.mem_cons_self
    have hmoney := (hb.inRange _ u hu).2
    omega
  | connect id => trivial
  | showSum id => trivial
  | exit id => trivial

theorem noOverflow_of_solvent {users : Users} (hrange : Balance.InRange users) {cmd : Command}
    (h : Balance.Solvent users cmd) : NoOverflow users cmd := by
  cases cmd with
  | sendTo id sum =>
    intro u hu
    have hmoney := hrange _ u hu
    have hsum := h u hu
    rw [INT_MAX] at *
    constructor
    · omega
    · omega
  | get sum id =>
    intro u hu hle
    have hmoney := hrange _ u hu
    have hsum := h u hu
    rw [INT_MAX] at *
    constructor
    · omega
    · omega
  | connect id => trivial
  | showSum id => trivial
  | exit id => trivial

/-- The additions and subtractions of a move do not overflow. -/
def Sound (p : Int32 → Prop) (s : State ι) : Act ι → Prop
  | .serve k _ => ∀ i cmd, s.requests[k]? = some (i, render cmd) → (∀ n ∈ sums cmd, p n) → NoOverflow s.users cmd
  | _ => True

theorem Books.sound (hb : Books ids h s) (hbound : ∀ a, given ids a h ≤ INT_MAX) (act : Act ι) :
    Sound NotNegative s act := by
  cases act with
  | serve k stale =>
    intro i cmd hget hsums
    exact noOverflow_of_solvent hb.inRange (hb.solvent hbound hget hsums)
  | start i => trivial
  | typed i line stale => trivial
  | answer k => trivial
  | loseRequest k => trivial
  | loseAnswer k => trivial

/-! ### The conservation law -/

section Conservation

variable [DecidableEq ι]

/-- **One move** conserves the money. -/
theorem holdings_move (h : Move ids p s act s' out) (hs : Proper ids p s) (hsound : Sound p s act) (a : Bytes) :
    holdings ids a s' + worth (pays ids a) out + forfeits ids a s act = holdings ids a s + givenBy ids a act := by
  cases h with
  | @start i hphase =>
    have hconnect : promised a (i, render (.connect (ids i))) = 0 := promised_render a i _
    simp only [holdings, forfeits, givenBy, worth_append, worth_cons, worth_nil, hconnect]
    omega
  | @typed i line stale hphase =>
    simp only [holdings, forfeits, givenBy, worth_append, promised_line, worth_nil]
    omega
  | @serve k stale i cmd r hget hown hsums happly =>
    have hmoney := @apply_money ι ids s.users cmd r (hsound i cmd hget hsums) happly i hown a
    have hrequest := worth_eraseIdx (promised a) hget
    rw [promised_render] at hrequest
    have hanswers : ∀ answer ∈ replies cmd (s.users (idOf cmd).bytes), answer.Fits := fun answer hanswer =>
      fits_of_replies (fun u hu => hs.users _ u hu) hanswer
    simp only [holdings, forfeits, givenBy, hget, Option.toList, worth_append, worth_cons, worth_nil,
      owed_answers a i hanswers, promised_render]
    split
    · rename_i hnone
      rw [if_pos hnone] at hmoney
      omega
    · rename_i hsome
      rw [if_neg hsome] at hmoney
      omega
  | answer hget hfits hphase =>
    have hanswer := worth_eraseIdx (owed ids a) hget
    rw [owed_datagram a _ hfits] at hanswer
    simp only [holdings, forfeits, givenBy, worth_cons, worth_nil]
    omega
  | loseRequest hget hsums =>
    have hrequest := worth_eraseIdx (promised a) hget
    simp only [holdings, forfeits, givenBy, hget, Option.toList, worth_cons, worth_nil]
    omega
  | loseAnswer hget hfits =>
    have hanswer := worth_eraseIdx (owed ids a) hget
    simp only [holdings, forfeits, givenBy, hget, Option.toList, worth_cons, worth_nil]
    omega

/-- **One move** keeps the balances in range. -/
theorem Books.inRange_move (hb : Books ids h s) (hbound : ∀ a, given ids a h ≤ INT_MAX)
    (hmove : Move ids NotNegative s act s' out) : Balance.InRange s'.users := by
  cases hmove with
  | @serve k stale i cmd r hget hown hcmd happly =>
    have hserve : Balance.serveCommand s.users (cmd, stale) = some r := (serveCommand_eq ..).trans happly
    exact (Balance.serveCommand_inRange hb.inRange hserve).mpr (hb.solvent hbound hget hcmd)
  | start hphase => exact hb.inRange
  | typed hphase => exact hb.inRange
  | answer hget hfits hphase => exact hb.inRange
  | loseRequest hget hsums => exact hb.inRange
  | loseAnswer hget hfits => exact hb.inRange

/-- **One move** answers with amounts that are not negative. -/
theorem Books.owed_move (hb : Books ids h s) (hmove : Move ids NotNegative s act s' out) (a : Bytes) :
    ∀ r ∈ s'.answers, 0 ≤ owed ids a r := by
  cases hmove with
  | @serve k stale i cmd r hget hown hcmd happly =>
    intro r' hr
    rcases List.mem_append.mp hr with hr | hr
    · exact hb.owed_nonneg a r' hr
    · obtain ⟨answer, hanswer, rfl⟩ := List.mem_map.mp hr
      rw [owed_datagram a i (fits_of_replies (fun u hu => hb.proper.users _ u hu) hanswer)]
      exact pays_nonneg hcmd hanswer a i
  | start hphase => exact hb.owed_nonneg a
  | typed hphase => exact hb.owed_nonneg a
  | answer hget hfits hphase => exact fun r hr => hb.owed_nonneg a r (List.mem_of_mem_eraseIdx hr)
  | loseRequest hget hsums => exact hb.owed_nonneg a
  | loseAnswer hget hfits => exact fun r hr => hb.owed_nonneg a r (List.mem_of_mem_eraseIdx hr)

/-- **One move** shows amounts that are not negative. -/
theorem Books.shown_move (hb : Books ids h s) (hmove : Move ids NotNegative s act s' out) (a : Bytes) :
    0 ≤ worth (pays ids a) out := by
  cases hmove with
  | @answer k i answer hget hfits hphase =>
    have hpays := hb.owed_nonneg a _ (List.mem_of_getElem? hget)
    rw [owed_datagram a i hfits] at hpays
    rw [worth_cons, worth_nil, add_zero]
    exact hpays
  | start hphase => exact le_rfl
  | typed hphase => exact le_rfl
  | serve hget hown hsums happly => exact le_rfl
  | loseRequest hget hsums => exact le_rfl
  | loseAnswer hget hfits => exact le_rfl

/-- **One move** keeps the books. -/
theorem Books.step (hb : Books ids h s) (hbound : ∀ a, given ids a h ≤ INT_MAX)
    (hsums : ∀ n ∈ act.sums, NotNegative n) (hmove : Move ids NotNegative s act s' out) :
    Books ids (⟨s, act, out⟩ :: h) s' := by
  refine ⟨hmove.proper hb.proper hsums, hb.inRange_move hbound hmove, hb.owed_move hmove, fun a => ?_, fun a => ?_,
    fun a => ?_⟩
  · rw [told_cons]
    exact add_nonneg (hb.shown_move hmove a) (hb.told_nonneg a)
  · rw [List.forall_mem_cons]
    exact ⟨forfeits_nonneg hb.proper hb.owed_nonneg act a, hb.lost_nonneg a⟩
  · have hlaw := hb.law a
    have hnow := holdings_move hmove hb.proper (hb.sound hbound act) a
    rw [told_cons, lost_cons, given_cons]
    omega

theorem books_of_run (run : Run (Steps (step ids)) init h s)
    (hsums : ∀ st ∈ h, ∀ n ∈ st.input.sums, NotNegative n) (hbound : ∀ a, given ids a h ≤ INT_MAX) :
    Books ids h s := by
  induction run with
  | start => exact books_init
  | @next h s s' act out run hstep ih =>
    rw [List.forall_mem_cons] at hsums
    -- what was given before the last line was not more
    have hbefore : ∀ a, given ids a h ≤ INT_MAX := by
      intro a
      have hnow : 0 ≤ givenBy ids a act := (givenBy_bounds hsums.1 a).1
      have hall := hbound a
      rw [given_cons] at hall
      omega
    have hb := ih hsums.2 hbefore
    exact hb.step hbefore hsums.1 (move_of_step hb.proper hstep)

/-- What a run has done with the money given to the account `a`. -/
structure Conserved (ids : ι → Id) (a : Bytes) (h : List (Step (State ι) (Act ι) (ι × Answer))) (s : State ι) :
    Prop where
  /-- The balance is an amount. -/
  balance : 0 ≤ money s.users a
  /-- What the account has, and its clients were told to have received, was given to it. -/
  backed : money s.users a + told ids a h ≤ given ids a h
  /-- The rest is on the way or lost. -/
  law : given ids a h = money s.users a + told ids a h + worth (promised a) s.requests +
    worth (owed ids a) s.answers + lost ids a h
  closes : money s.users a + told ids a h = given ids a h ↔
    (∀ r ∈ s.requests, promised a r = 0) ∧ (∀ r ∈ s.answers, owed ids a r = 0) ∧
      ∀ st ∈ h, forfeits ids a st.before st.input = 0

/-- **The money is conserved**, in every run: whichever commands are typed at however many clients, and whatever the
network does with the datagrams, as long as no sum is negative and no account is given more than `INT_MAX`. -/
theorem balanced_of_run (run : Run (Steps (step ids)) init h s)
    (hsums : ∀ st ∈ h, ∀ n ∈ st.input.sums, NotNegative n) (hbound : ∀ a, given ids a h ≤ INT_MAX) (a : Bytes) :
    Conserved ids a h s := by
  have hb := books_of_run run hsums hbound
  have hlaw := hb.law a
  have hpromised := promised_nonneg hb.proper a
  have hrequests := worth_nonneg hpromised
  have hanswers := worth_nonneg (hb.owed_nonneg a)
  have hlost := worth_nonneg (hb.lost_nonneg a)
  have hbalance : 0 ≤ money s.users a := by
    rw [money]
    cases hu : s.users a with
    | none => exact le_rfl
    | some u => exact (hb.inRange a u hu).1
  rw [holdings, lost] at hlaw
  refine ⟨hbalance, by omega, by rw [lost]; omega, ?_⟩
  rw [← worth_eq_zero_iff hpromised, ← worth_eq_zero_iff (hb.owed_nonneg a), ← worth_eq_zero_iff (hb.lost_nonneg a)]
  omega

end Conservation

/-! ### A run of two clients -/

/-- No account is given more than the sums typed. -/
theorem given_le (hsums : ∀ st ∈ h, ∀ n ∈ st.input.sums, NotNegative n) (a : Bytes) :
    given ids a h ≤ worth (fun st => worth Int32.toInt st.input.sums) h := by
  induction h with
  | nil => exact le_rfl
  | cons st h ih =>
    rw [List.forall_mem_cons] at hsums
    have hrest := ih hsums.2
    have hnow : givenBy ids a st.input ≤ worth Int32.toInt st.input.sums := (givenBy_bounds hsums.1 a).2
    rw [given, worth_cons, worth_cons, ← given]
    omega

/-- The first client is ana's, the second bob's. -/
def anaAndBob : Bool → Id := fun i => if i then bob else Balance.ana

/-- Ana gives 5 and 4 to bob, who takes 3; the second gift is lost. -/
def twoGifts : List (Act Bool) :=
  [.start false, .start true, .serve 1 Balance.noStale, .serve 0 Balance.noStale,
    .typed false (.sendTo bob 5) ⟨[], []⟩, .serve 0 Balance.noStale, .answer 0,
    .typed true (.get 3) ⟨[], []⟩, .serve 0 Balance.noStale, .answer 0,
    .typed false (.sendTo bob 4) ⟨[], []⟩, .loseRequest 0]

/-- Bob has 2 and was told of 3; 4 were lost. -/
theorem two_gifts_conserved : ∃ h s, Run (Steps (step anaAndBob)) init h s ∧
    (money s.users bob.bytes = 2 ∧ told anaAndBob bob.bytes h = 3 ∧ lost anaAndBob bob.bytes h = 4) ∧
      Conserved anaAndBob bob.bytes h s := by
  obtain ⟨h, s, run, hcheck⟩ := Run.of_check (step anaAndBob) init twoGifts
    (fun h s => h.all (fun st => st.input.sums.all fun n => decide (NotNegative n)) &&
      decide (worth (fun st => worth Int32.toInt st.input.sums) h ≤ INT_MAX ∧
        money s.users bob.bytes = 2 ∧ told anaAndBob bob.bytes h = 3 ∧ lost anaAndBob bob.bytes h = 4))
    (by decide +kernel)
  obtain ⟨hchecked, hamounts⟩ := Bool.and_eq_true_iff.mp hcheck
  obtain ⟨hall, hmoney⟩ := of_decide_eq_true hamounts
  have hsums : ∀ st ∈ h, ∀ n ∈ st.input.sums, NotNegative n := by
    intro st hst n hn
    exact of_decide_eq_true (List.all_eq_true.mp (List.all_eq_true.mp hchecked st hst) n hn)
  exact ⟨h, s, run, hmoney, balanced_of_run run hsums (fun a => (given_le hsums a).trans hall) bob.bytes⟩

end Pcom.Partial.Money
