import Pcom.Tema2.Bookkeeping

/-!
# What a failing connection does to the broker

Every system call of the loop but the first `recv` on a new connection is followed by
`DIE(res < 0, …)`, that is `exit(1)`; a `send` that raises `SIGPIPE` ends the process as well.  This
file compares a turn of the loop in which a call on the connection of one client fails with the turn in
which this client had disconnected before.

* `Fails` — the places at which a call on a client's connection can fail;
* `publish_spares` — the tables a datagram leaves for the other clients are the right ones, whatever
  becomes of the `send`s: only the `DIE` behind each of them is in the way;
* `unharmed_iff` — **the exact condition**: in every run, the server outlives each turn with the other
  clients' tables intact exactly when no checked call fails and no turn is undefined;
* `reset_ends_server` — one reset connection ends the server for everybody.
-/

namespace Pcom.Tema2.Failures

open Pcom.Lib.Scan Pcom.Lib.StepSystem Pcom.Tema2.Datagram Pcom.Tema2.Server Pcom.Tema2.Bookkeeping

/-! ### Turns of the loop -/

/-- One turn: a ready descriptor, or a call of the listening side that returned `-1`. -/
inductive Turn
  | ready (input : Input)
  | selectError
  | recvfromError
  | acceptError

/-- The loop body. -/
def turn (s : State) : Turn → Outcome
  | .ready input => step s input
  | .selectError => .error .die
  | .recvfromError => .error .die
  | .acceptError => .error .die

/-- The process: in the loop, or past it. -/
inductive Phase
  | running (s : State)
  | ended (reason : Halt)

/-- What a turn leaves behind, and what it sent if it came to its end. -/
def phaseOf : Outcome → Phase × List Out
  | .ok r => (.running r.1, r.2)
  | .error reason => (.ended reason, [])

/-- The turns of the server; none follows the end of the process. -/
inductive Turns (l : Listeners) : Phase → Turn → Phase → List Out → Prop
  | serve {s : State} {input : Input} (hk : Kernel l s input.event) :
      Turns l (.running s) (.ready input) (phaseOf (step s input)).1 (phaseOf (step s input)).2
  | selectError {s : State} : Turns l (.running s) .selectError (.ended .die) []
  | recvfromError {s : State} : Turns l (.running s) .recvfromError (.ended .die) []
  | acceptError {s : State} : Turns l (.running s) .acceptError (.ended .die) []

/-- The maps of the broker stay linked as long as it runs. -/
def Phase.Linked : Phase → Prop
  | .running s => Bookkeeping.Linked s
  | .ended _ => True

theorem Turns.linked {l : Listeners} {p p' : Phase} {t : Turn} {out : List Out} (h : p.Linked)
    (ht : Turns l p t p' out) : p'.Linked := by
  cases ht with
  | @serve s input hk =>
    cases hstep : step s input with
    | error reason => trivial
    | ok r => exact Linked.books h (Serves.books ⟨hk, hstep⟩)
  | selectError => trivial
  | recvfromError => trivial
  | acceptError => trivial

theorem Run.turns_linked {l : Listeners} {h : List (Step Phase Turn Out)} {p : Phase}
    (run : Run (Turns l) (.running (init l)) h p) : p.Linked :=
  run.invariant (P := Phase.Linked) (E := fun _ _ => True)
    (show (Phase.running (init l)).Linked from linked_init l)
    (fun _ _ _ _ hp _ ht => Turns.linked hp ht) (fun _ _ => trivial)

/-! ### Failing calls -/

/-- The calls on a client's connection. -/
inductive Site
  | command
  | publish
  | announcement
  | rejection
  | replay
  | farewell
  deriving DecidableEq

/-- In this turn the call at `site` returns `-1`, on the connection `fd` of the given client; a
connection that is being rejected belongs to none. -/
inductive Fails (s : State) : Turn → Site → ℕ → Option Bytes → Prop
  | command {i : ℕ} {sendOk : ℕ → Bool} :
      Fails s (.ready ⟨.recvError i, sendOk⟩) .command i (idOf s i)
  | publish {sender : SockAddr} {received : Bytes} {sendOk : ℕ → Bool} {pkt : UdpPacket}
      {subs : List Subscriber} {e : Subscriber} {fd : ℕ} (hpkt : processUdpPacket received = some pkt)
      (hvalid : pkt.valid = true) (htopic : s.topics pkt.topic = some subs) (he : e ∈ subs)
      (hconn : connFd s e.clientID = some fd) (hfail : sendOk fd = false) :
      Fails s (.ready ⟨.datagram sender received, sendOk⟩) .publish fd (some e.clientID)
  /-- The result of this `recv` is not looked at; the buffer stays empty, and so does the id. -/
  | announcement {fd : ℕ} {addr : SockAddr} {sendOk : ℕ → Bool} :
      Fails s (.ready ⟨.accept fd addr [], sendOk⟩) .announcement fd (some [])
  | rejection {fd : ℕ} {addr : SockAddr} {received id : Bytes} {sendOk : ℕ → Bool}
      (hbuf : bufferString MAX_LEN received = some id) (hcon : isConnected s id = true)
      (hfail : sendOk fd = false) :
      Fails s (.ready ⟨.accept fd addr received, sendOk⟩) .rejection fd none
  | replay {fd : ℕ} {addr : SockAddr} {received id : Bytes} {sendOk : ℕ → Bool}
      (hbuf : bufferString MAX_LEN received = some id) (hcon : isConnected s id = false)
      (hstored : stored s id ≠ []) (hfail : sendOk fd = false) :
      Fails s (.ready ⟨.accept fd addr received, sendOk⟩) .replay fd (some id)
  /-- `;EXIT;` is sent to every entry of `clientsConnected` before the loop is left. -/
  | farewell {fd : ℕ} {sendOk : ℕ → Bool} (hcon : s.clientsConnected fd ≠ none)
      (hfail : sendOk fd = false) :
      Fails s (.ready ⟨.stdin (ascii "exit\n"), sendOk⟩) .farewell fd (idOf s fd)

/-- The state in which the turn ends if the connection `fd` had simply been closed by its client. -/
def afterDisconnect (s : State) (fd : ℕ) : Turn → State
  | .ready ⟨.recvError _, _⟩ => (onEof s fd).1
  | .ready ⟨.datagram sender received, _⟩ =>
    match onDatagram (onEof s fd).1 sender received with
    | .ok r => r.1
    | .error _ => s
  | _ => s

/-- The topics and the entries of all clients but `owner` are as if that one had disconnected. -/
structure Spared (s s' : State) (t : Turn) (fd : ℕ) (owner : Option Bytes) : Prop where
  topics : s'.topics = (afterDisconnect s fd t).topics
  others : ∀ c, owner ≠ some c → s'.subscribers c = (afterDisconnect s fd t).subscribers c

/-- The `exit` command on stdin. -/
def IsExit (t : Turn) : Prop := ∃ sendOk, t = .ready ⟨.stdin (ascii "exit\n"), sendOk⟩

/-- **The property of a turn.**  Unless it is the `exit` command the server keeps running, and a
failing call leaves the tables of the other clients as if the client behind it had disconnected. -/
structure Unharmed (s : State) (t : Turn) : Prop where
  continues : IsExit t ∨ ∃ r, turn s t = .ok r
  spared : ∀ s' out site fd owner, turn s t = .ok (s', out) → Fails s t site fd owner →
    Spared s s' t fd owner

/-! ### The tables of the other clients -/

/-- The branch of a datagram, on two states with the same topics: it keeps equal entries equal. -/
theorem onDatagram_congr {s₁ s₂ s₁' : State} {sender : SockAddr} {received : Bytes} {out : List Out}
    (htopics : s₂.topics = s₁.topics) (h : onDatagram s₁ sender received = .ok (s₁', out)) :
    ∃ s₂' out', onDatagram s₂ sender received = .ok (s₂', out') ∧ s₂'.topics = s₁'.topics ∧
      ∀ c, s₂.subscribers c = s₁.subscribers c → s₂'.subscribers c = s₁'.subscribers c := by
  unfold onDatagram at h ⊢
  rw [htopics]
  cases hp : processUdpPacket received with
  | none => simp only [hp, reduceCtorEq] at h
  | some pkt =>
    simp only [hp] at h ⊢
    cases hv : pkt.valid with
    | false =>
      simp only [hv, Bool.false_eq_true, if_false, Except.ok.injEq, Prod.mk.injEq] at h
      obtain ⟨rfl, -⟩ := h
      exact ⟨s₂, [], rfl, htopics, fun _ hc => hc⟩
    | true =>
      simp only [hv, if_true] at h ⊢
      cases ht : s₁.topics pkt.topic with
      | none =>
        simp only [ht, Except.ok.injEq, Prod.mk.injEq] at h
        obtain ⟨rfl, -⟩ := h
        exact ⟨s₂, [], rfl, htopics, fun _ hc => hc⟩
      | some subs =>
        simp only [ht, Except.ok.injEq] at h
        -- in closed form `deliver` maps each entry on its own
        rw [deliver_eq, Prod.mk.injEq] at h
        obtain ⟨rfl, -⟩ := h
        simp only [deliver_eq]
        refine ⟨_, _, rfl, htopics, fun c hc => ?_⟩
        show (s₂.subscribers c).map _ = (s₁.subscribers c).map _
        rw [hc]

/-- **Publishing spares the others.**  The tables a datagram leaves for the topics and for the other
clients are those it leaves after `c` has disconnected, whatever becomes of the `send` to `c`. -/
theorem publish_spares {s s' : State} {sender : SockAddr} {received c : Bytes} {out : List Out}
    {fd : ℕ} (hl : Linked s) (hconn : connFd s c = some fd) (sendOk : ℕ → Bool)
    (h : onDatagram s sender received = .ok (s', out)) :
    Spared s s' (.ready ⟨.datagram sender received, sendOk⟩) fd (some c) := by
  have htopics : (onEof s fd).1.topics = s.topics := onEof_topics s fd
  -- the descriptor the broker sends on is the one behind which it knows this client
  have hid : idOf s fd = some c := hl.mapped hconn
  obtain ⟨s₂', out', heq, htopics', hsubs'⟩ := onDatagram_congr htopics h
  have hafter : afterDisconnect s fd (.ready ⟨.datagram sender received, sendOk⟩) = s₂' := by
    simp only [afterDisconnect, heq]
  refine ⟨by rw [hafter, htopics'], fun c' hc' => ?_⟩
  have hsame : (onEof s fd).1.subscribers c' = s.subscribers c' := by
    rw [onEof_subscribers, hid, if_neg fun hown => hc' hown.1]
  rw [hafter, hsubs' c' hsame]

/-- A new connection changes no topic and no entry but that of the id it announces. -/
theorem accept_spares {s s' : State} {fd : ℕ} {addr : SockAddr} {received : Bytes} {out : List Out}
    {owner : Option Bytes} {sendOk : ℕ → Bool}
    (hid : ∀ id, bufferString MAX_LEN received = some id → isConnected s id = false →
      owner = some id)
    (h : step s ⟨.accept fd addr received, sendOk⟩ = .ok (s', out)) :
    Spared s s' (.ready ⟨.accept fd addr received, sendOk⟩) fd owner := by
  obtain ⟨id, hbuf, ⟨-, rfl, -⟩ | ⟨hcon, rfl, -⟩⟩ := step_accept h
  · exact ⟨rfl, fun _ _ => rfl⟩
  · refine ⟨rfl, fun c hc => ?_⟩
    have hne : c ≠ id := by
      rintro rfl
      exact hc (hid c hbuf hcon)
    exact Function.update_of_ne hne ..

/-- A turn that comes to its end has spared the clients whose calls did not fail. -/
theorem spared_of_ok {s s' : State} {t : Turn} {site : Site} {fd : ℕ} {owner : Option Bytes}
    {out : List Out} (hl : Linked s) (h : turn s t = .ok (s', out)) (hf : Fails s t site fd owner) :
    Spared s s' t fd owner := by
  cases hf with
  | command => cases h
  | @publish sender received sendOk _ _ _ _ _ _ _ _ hconn =>
    exact publish_spares hl hconn sendOk (checkSends_ok h)
  | announcement =>
    refine accept_spares (fun id hbuf _ => ?_) h
    have hnil : ([] : Bytes) = id := Option.some.inj hbuf
    rw [hnil]
  | rejection hbuf hcon =>
    refine accept_spares (fun id hbuf' hcon' => ?_) h
    obtain rfl := Option.some.inj (hbuf.symm.trans hbuf')
    rw [hcon] at hcon'
    cases hcon'
  | replay hbuf =>
    refine accept_spares (fun id hbuf' _ => ?_) h
    rw [← hbuf, hbuf']
  | farewell => cases h

/-! ### The exact condition -/

/-- Erasing the entry of an unsubscribing client stays inside the list of the topic. -/
def EraseInside (s : State) (i : ℕ) (topicStr : Bytes) : Prop :=
  ∀ subs clientCon, s.topics topicStr = some subs → s.clientsConnected i = some clientCon →
    (∃ sub ∈ subs, clientCon.clientID = sub.clientID) → i < subs.length

/-- A command whose scan is defined, and whose erasure is. -/
def CommandDefined (s : State) (i : ℕ) (received : Bytes) (stale : Stale) : Prop :=
  if startsWith (ascii "unsubscribe") (received.take MAX_LEN) then
    ∃ args, (bufferString MAX_LEN received).bind (sscanf [.word 16, .word 51]) = some args ∧
      EraseInside s i (wordArg args 1 stale.topicStr)
  else
    startsWith (ascii "subscribe") (received.take MAX_LEN) = true →
      ((bufferString MAX_LEN received).bind (sscanf [.word 16, .word 51, .int])).isSome = true

/-- The behaviour of the branch for this event is defined. -/
def Defined (s : State) : Event → Prop
  | .datagram _ received => (processUdpPacket received).isSome = true
  | .accept _ _ received => (bufferString MAX_LEN received).isSome = true
  | .recv i received stale => received ≠ [] → CommandDefined s i received stale
  | _ => True

/-- **The condition.**  The turn comes from a ready descriptor, its branch is defined, and no call on
a client's connection fails but the first `recv` on a new one or a farewell. -/
def Sound (s : State) : Turn → Prop
  | .ready input => Defined s input.event ∧
      ∀ site fd owner, Fails s (.ready input) site fd owner → site = .announcement ∨ site = .farewell
  | _ => False

theorem onCommand_ok_iff {s : State} {i : ℕ} {received : Bytes} {stale : Stale} :
    (∃ s', onCommand s i received stale = .ok s') ↔ CommandDefined s i received stale := by
  have herase : ∀ topicStr, (∃ s', onUnsubscribe s i topicStr = .ok s') ↔ EraseInside s i topicStr := by
    intro topicStr
    unfold onUnsubscribe EraseInside
    cases hs : s.topics topicStr with
    | none => simp
    | some subs =>
      cases hc : s.clientsConnected i with
      | none => simp
      | some clientCon =>
        by_cases hany : ∃ sub ∈ subs, clientCon.clientID = sub.clientID
        · by_cases hi : i < subs.length <;> simp [hany, hi]
        · simp only [List.any_eq_true, decide_eq_true_eq, hany, if_false, Except.ok.injEq,
            exists_eq', Option.some.injEq, true_iff]
          rintro _ _ rfl rfl hfound
          exact absurd hfound hany
  unfold CommandDefined onCommand
  by_cases hun : startsWith (ascii "unsubscribe") (received.take MAX_LEN) = true
  · simp only [hun, if_true]
    cases (bufferString MAX_LEN received).bind (sscanf [.word 16, .word 51]) with
    | none => simp
    | some args => simp [herase]
  · simp only [hun]
    by_cases hsub : startsWith (ascii "subscribe") (received.take MAX_LEN) = true
    · simp only [hsub, if_true]
      cases (bufferString MAX_LEN received).bind (sscanf [.word 16, .word 51, .int]) with
      | none => simp
      | some args => simp
    · simp [hsub]

theorem datagram_continues_iff {s : State} {sender : SockAddr} {received : Bytes}
    {sendOk : ℕ → Bool} :
    (∃ r, step s ⟨.datagram sender received, sendOk⟩ = .ok r) ↔
      Sound s (.ready ⟨.datagram sender received, sendOk⟩) := by
  show (∃ r, (onDatagram s sender received >>= checkSends sendOk) = .ok r) ↔ _
  simp only [checkSends_bind_iff]
  constructor
  · rintro ⟨⟨s', out⟩, h, hsent⟩
    have hdef : (processUdpPacket received).isSome = true := by
      cases hp : processUdpPacket received with
      | none => simp only [onDatagram, hp, reduceCtorEq] at h
      | some pkt => rfl
    refine ⟨hdef, fun site fd owner hf => ?_⟩
    cases hf with
    | @publish _ _ _ pkt subs e fd hpkt hvalid htopic he hconn hfail =>
      simp only [onDatagram, hpkt, hvalid, if_true, htopic, deliver_eq, Except.ok.injEq,
        Prod.mk.injEq] at h
      have hmem : Out.send fd (line sender pkt) ∈ out := by
        rw [← h.2]
        exact List.mem_filterMap.mpr ⟨e, he, by rw [sendFor_eq, hconn]; rfl⟩
      rw [hsent fd _ hmem] at hfail
      cases hfail
  · rintro ⟨hdef, hok⟩
    obtain ⟨pkt, hpkt⟩ := Option.isSome_iff_exists.mp hdef
    unfold onDatagram
    simp only [hpkt]
    cases hvalid : pkt.valid with
    | false => exact ⟨(s, []), rfl, by simp⟩
    | true =>
      simp only [if_true]
      cases htopic : s.topics pkt.topic with
      | none => exact ⟨(s, []), rfl, by simp⟩
      | some subs =>
        refine ⟨_, rfl, fun fd bytes hmem => ?_⟩
        rw [deliver_eq] at hmem
        obtain ⟨e, he, hsend⟩ := List.mem_filterMap.mp hmem
        rw [sendFor_eq, Option.map_eq_some_iff] at hsend
        obtain ⟨fd', hconn, heq⟩ := hsend
        obtain ⟨rfl, -⟩ := Out.send.inj heq
        by_contra hfail
        rw [Bool.not_eq_true] at hfail
        have hsite := hok _ _ _ (.publish hpkt hvalid htopic he hconn hfail)
        simp at hsite

theorem accept_continues_iff {s : State} {fd : ℕ} {addr : SockAddr} {received : Bytes}
    {sendOk : ℕ → Bool} :
    (∃ r, step s ⟨.accept fd addr received, sendOk⟩ = .ok r) ↔
      Sound s (.ready ⟨.accept fd addr received, sendOk⟩) := by
  show (∃ r, (onAccept s fd addr received >>= checkSends sendOk) = .ok r) ↔ _
  simp only [checkSends_bind_iff]
  cases hbuf : bufferString MAX_LEN received with
  | none =>
    refine iff_of_false ?_ fun h => ?_
    · rintro ⟨r, h, -⟩
      simp only [onAccept, hbuf, reduceCtorEq] at h
    · have hdef : (bufferString MAX_LEN received).isSome = true := h.1
      rw [hbuf] at hdef
      cases hdef
  | some id =>
    cases hcon : isConnected s id with
    | true =>
      simp only [onAccept, hbuf, hcon, if_true, Except.ok.injEq]
      constructor
      · rintro ⟨r, rfl, hsent⟩
        refine ⟨by show (bufferString MAX_LEN received).isSome = true; rw [hbuf]; rfl, ?_⟩
        intro site fd' owner hf
        cases hf with
        | announcement => exact Or.inl rfl
        | rejection _ _ hfail =>
          rw [hsent fd _ (List.mem_singleton_self _)] at hfail
          cases hfail
        | replay hbuf' hcon' =>
          obtain rfl := Option.some.inj (hbuf.symm.trans hbuf')
          rw [hcon] at hcon'
          cases hcon'
      · rintro ⟨-, hok⟩
        refine ⟨_, rfl, fun fd' bytes hmem => ?_⟩
        obtain ⟨rfl, -⟩ := Out.send.inj (List.mem_singleton.mp hmem)
        by_contra hfail
        rw [Bool.not_eq_true] at hfail
        have hsite := hok _ _ _ (.rejection hbuf hcon hfail)
        simp at hsite
    | false =>
      simp only [onAccept, hbuf, hcon, Bool.false_eq_true, if_false, Except.ok.injEq]
      constructor
      · rintro ⟨r, rfl, hsent⟩
        refine ⟨by show (bufferString MAX_LEN received).isSome = true; rw [hbuf]; rfl, ?_⟩
        intro site fd' owner hf
        cases hf with
        | announcement => exact Or.inl rfl
        | rejection hbuf' hcon' =>
          obtain rfl := Option.some.inj (hbuf.symm.trans hbuf')
          rw [hcon] at hcon'
          cases hcon'
        | replay hbuf' _ hstored hfail =>
          obtain rfl := Option.some.inj (hbuf.symm.trans hbuf')
          obtain ⟨text, htext⟩ := List.exists_mem_of_ne_nil _ hstored
          rw [hsent fd text (List.mem_map.mpr ⟨text, htext, rfl⟩)] at hfail
          cases hfail
      · rintro ⟨-, hok⟩
        refine ⟨_, rfl, fun fd' bytes hmem => ?_⟩
        obtain ⟨text, htext, heq⟩ := List.mem_map.mp hmem
        obtain ⟨rfl, -⟩ := Out.send.inj heq
        by_contra hfail
        rw [Bool.not_eq_true] at hfail
        have hsite := hok _ _ _ (.replay hbuf hcon (List.ne_nil_of_mem htext) hfail)
        simp at hsite

theorem recv_continues_iff {s : State} {i : ℕ} {received : Bytes} {stale : Stale}
    {sendOk : ℕ → Bool} :
    (∃ r, step s ⟨.recv i received stale, sendOk⟩ = .ok r) ↔
      Sound s (.ready ⟨.recv i received stale, sendOk⟩) := by
  have hcalls : Sound s (.ready ⟨.recv i received stale, sendOk⟩) ↔
      (received ≠ [] → CommandDefined s i received stale) :=
    ⟨fun h => h.1, fun h => ⟨h, fun _ _ _ hf => by cases hf⟩⟩
  rw [hcalls]
  by_cases hnil : received = []
  · exact iff_of_true ⟨onEof s i, by simp only [step, hnil, if_true]⟩ fun h => absurd hnil h
  · simp only [step, hnil, if_false, ne_eq, not_false_eq_true, true_implies, ← onCommand_ok_iff]
    cases onCommand s i received stale with
    | error reason => simp [Except.map]
    | ok s' => simp [Except.map]

/-- **The exact condition for one turn** of a server whose books are linked. -/
theorem turn_unharmed_iff {s : State} (hl : Linked s) (t : Turn) : Unharmed s t ↔ Sound s t := by
  have hspared : ∀ s' out site fd owner, turn s t = .ok (s', out) → Fails s t site fd owner →
      Spared s s' t fd owner := fun _ _ _ _ _ h hf => spared_of_ok hl h hf
  have hiff : Unharmed s t ↔ IsExit t ∨ ∃ r, turn s t = .ok r :=
    ⟨fun h => h.continues, fun h => ⟨h, hspared⟩⟩
  have hready : ∀ {event : Event} {sendOk : ℕ → Bool}, (∀ line, event ≠ .stdin line) →
      ¬ IsExit (.ready ⟨event, sendOk⟩) := by
    rintro event sendOk hne ⟨sendOk', heq⟩
    injection heq with heq
    injection heq with hev
    exact hne _ hev
  rw [hiff]
  cases t with
  | selectError => exact iff_of_false (by rintro (⟨_, h⟩ | ⟨_, h⟩) <;> cases h) id
  | recvfromError => exact iff_of_false (by rintro (⟨_, h⟩ | ⟨_, h⟩) <;> cases h) id
  | acceptError => exact iff_of_false (by rintro (⟨_, h⟩ | ⟨_, h⟩) <;> cases h) id
  | ready input =>
    obtain ⟨event, sendOk⟩ := input
    cases event with
    | stdin text =>
      refine iff_of_true ?_ ⟨trivial, fun site fd owner hf => ?_⟩
      · by_cases hexit : text = ascii "exit\n"
        · exact Or.inl ⟨sendOk, by rw [hexit]⟩
        · exact Or.inr ⟨(s, []), by simp only [turn, step, hexit, if_false]⟩
      · cases hf with
        | farewell => exact Or.inr rfl
    | datagram sender received =>
      rw [or_iff_right (hready (by simp))]
      exact datagram_continues_iff
    | accept fd addr received =>
      rw [or_iff_right (hready (by simp))]
      exact accept_continues_iff
    | recv i received stale =>
      rw [or_iff_right (hready (by simp))]
      exact recv_continues_iff
    | recvError i =>
      refine iff_of_false ?_ fun h => ?_
      · rintro (h | ⟨r, h⟩)
        · exact hready (by simp) h
        · cases h
      · have hsite := h.2 _ _ _ .command
        simp at hsite

/-- A condition on the turns of a process; past its end there are none. -/
def Phase.Meets (P : State → Turn → Prop) : Phase → Turn → Prop
  | .running s, t => P s t
  | .ended _, _ => True

/-- **The exact condition for the server to outlive its clients.**  In every run, all turns leave the
server running and the other clients' tables intact exactly when all turns are sound. -/
theorem unharmed_iff {l : Listeners} {h : List (Step Phase Turn Out)} {p : Phase}
    (run : Run (Turns l) (.running (init l)) h p) :
    (∀ st ∈ h, st.before.Meets Unharmed st.input) ↔ ∀ st ∈ h, st.before.Meets Sound st.input := by
  refine forall₂_congr fun st hst => ?_
  obtain ⟨h', -, hrun⟩ := run.before hst
  have hl := Run.turns_linked hrun
  cases hp : st.before with
  | running s =>
    rw [hp] at hl
    exact turn_unharmed_iff hl st.input
  | ended reason => exact Iff.rfl

/-! ### A reset connection -/

theorem Turns.of_serves {l : Listeners} {s s' : State} {input : Input} {out : List Out}
    (h : Serves l s input s' out) : Turns l (.running s) (.ready input) (.running s') out := by
  have ht := Turns.serve h.1
  rw [h.2] at ht
  exact ht

/-- A client that announces a fresh id, is registered, and closes its connection. -/
theorem visit_unharmed : ∃ h p, Run (Turns listeners) (.running (init listeners)) h p ∧ h.length = 2 ∧
    ∀ st ∈ h, st.before.Meets Unharmed st.input := by
  have hleave : Serves listeners connectedA ⟨.recv 5 [] ⟨[], 0⟩, fun _ => false⟩
      (onEof connectedA 5).1 [.close 5] := ⟨⟨⟨by decide, by decide, by decide⟩, rfl⟩, rfl⟩
  have run := (Run.start.next (Turns.of_serves connectA)).next (Turns.of_serves hleave)
  refine ⟨_, _, run, rfl, (unharmed_iff run).mpr ?_⟩
  intro st hst
  rcases List.mem_cons.mp hst with rfl | hst
  · exact ⟨fun h => absurd rfl h, fun _ _ _ hf => by cases hf⟩
  · obtain rfl := List.mem_singleton.mp hst
    refine ⟨rfl, fun site fd owner hf => ?_⟩
    cases hf with
    | rejection _ _ hfail => cases hfail
    | replay _ _ _ hfail => cases hfail

def connectedAB : State := register (watch connectedA 6) 6 localhost (ascii "b")

theorem connectB : Serves listeners connectedA
    ⟨.accept 6 localhost (ascii "b"), fun _ => true⟩ connectedAB [] := by
  refine ⟨rfl, ?_⟩
  rfl

/-- **The connection of `a` is reset, and the server of `b` is gone.** -/
theorem reset_ends_server :
    ∃ h, Run (Turns listeners) (.running (init listeners)) h (.ended .die) ∧
      ¬ ∀ st ∈ h, st.before.Meets Unharmed st.input := by
  have hreset : Turns listeners (.running connectedAB) (.ready ⟨.recvError 5, fun _ => true⟩)
      (.ended .die) [] := Turns.serve ⟨⟨by decide, by decide, by decide⟩, rfl⟩
  refine ⟨_, ((Run.start.next (.of_serves connectA)).next (.of_serves connectB)).next hreset,
    fun hall => ?_⟩
  have hlast : Unharmed connectedAB (.ready ⟨.recvError 5, fun _ => true⟩) :=
    hall _ List.mem_cons_self
  obtain ⟨sendOk, heq⟩ | ⟨r, heq⟩ := hlast.continues
  · cases heq
  · cases heq

end Pcom.Tema2.Failures
