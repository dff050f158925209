import Mathlib.Logic.Function.Basic
import Pcom.Lib.StepSystem
import Pcom.Tema2.Datagram

/-!
# The broker of `Tema2/server.cpp`

One ready descriptor handled by the `select` loop is one step.  The state is the three tables of the
program and the set of watched descriptors; the inputs carry what the system calls return, and what
the storage of the uninitialised block-local variables happens to hold.  A step that has no successor
ends the program: by the `exit` command, by `DIE`, or by undefined behaviour (`Halt`).

* `onDatagram`, `onAccept`, `onEof`, `onUnsubscribe`, `onSubscribe` — the branches of the loop;
* `step` — the loop body, and `Serves` — the same together with what the kernel guarantees: `accept`
  returns a descriptor that is not open, and only watched client sockets become ready.

The socket set-up and the console output are left out.
-/

namespace Pcom.Tema2.Server

open Pcom.Lib.Scan Pcom.Lib.StepSystem Pcom.Tema2.Datagram

/-! ### State -/

/-- `struct data`. -/
structure Data where
  ipClientTcp : Bytes := []
  portClientTcp : ℕ := 0
  clientID : Bytes := []
  deriving DecidableEq

/-- `struct subscriber`. An entry of `topics` sets only the first two fields, a value of `subscribers`
only the others and the id; the defaults stand for fields that are never read. -/
structure Subscriber where
  clientID : Bytes
  SF : Bool := false
  connected : Bool := false
  fd : ℕ := 0
  packets : List Bytes := []
  deriving DecidableEq

/-- The globals of the program and the descriptor set of the loop. -/
structure State where
  readFds : ℕ → Bool
  fdMax : ℕ
  clientsConnected : ℕ → Option Data
  topics : Bytes → Option (List Subscriber)
  subscribers : Bytes → Option Subscriber

/-- The two listening sockets. -/
structure Listeners where
  sockTcp : ℕ
  sockUDP : ℕ

/-- The state in which the loop is entered. -/
def init (l : Listeners) : State where
  readFds := fun fd => fd == 0 || fd == l.sockTcp || fd == l.sockUDP
  fdMax := max l.sockTcp l.sockUDP
  clientsConnected := fun _ => none
  topics := fun _ => none
  subscribers := fun _ => none

/-! ### Inputs and outputs -/

/-- What the storage of `topicStr` and `SFInt` held before the scan of a command. -/
structure Stale where
  topicStr : Bytes
  SFInt : ℤ

/-- One ready descriptor, with what the system call on it returns. -/
inductive Event
  | stdin (line : Bytes)
  | datagram (sender : SockAddr) (received : Bytes)
  /-- `accept` returned `newsockFd` and the first `recv` on it `received` (empty also for an error). -/
  | accept (newsockFd : ℕ) (clientAddr : SockAddr) (received : Bytes)
  /-- `recv` on a client socket; the empty string is an orderly close. -/
  | recv (i : ℕ) (received : Bytes) (stale : Stale)
  /-- `recv` on a client socket returned `-1`. -/
  | recvError (i : ℕ)

/-- An event, and whether a `send` on a descriptor succeeds meanwhile. -/
structure Input where
  event : Event
  sendOk : ℕ → Bool

inductive Out
  | send (fd : ℕ) (bytes : Bytes)
  | close (fd : ℕ)
  deriving DecidableEq

/-- Why the loop ends. -/
inductive Halt
  | exit
  | die
  | undefined
  deriving DecidableEq

abbrev Outcome := Except Halt (State × List Out)

/-! ### The branches of the loop -/

/-- `DIE(res < 0, …)` after every `send`. -/
def checkSends (sendOk : ℕ → Bool) (r : State × List Out) : Outcome :=
  if r.2.all fun | .send fd _ => sendOk fd | .close _ => true then .ok r else .error .die

/-- `if (!subscriberData->second.connected && subscriber.SF)`: queue the text. -/
def storeFor (text : Bytes) (s : State) (subscriber : Subscriber) : State :=
  match s.subscribers subscriber.clientID with
  | none => s
  | some data =>
    if !data.connected && subscriber.SF then
      { s with
        subscribers := Function.update s.subscribers subscriber.clientID
          (some { data with packets := data.packets ++ [text] }) }
    else s

/-- `if (subscriberData->second.connected)`: send the text. -/
def sendFor (text : Bytes) (s : State) (subscriber : Subscriber) : Option Out :=
  match s.subscribers subscriber.clientID with
  | none => none
  | some data => if data.connected then some (.send data.fd text) else none

/-- The loop over the subscribers of the topic of a datagram. -/
def deliver (text : Bytes) : State → List Subscriber → State × List Out
  | s, [] => (s, [])
  | s, subscriber :: rest =>
    let r := deliver text (storeFor text s subscriber) rest
    (r.1, (sendFor text s subscriber).toList ++ r.2)

def onDatagram (s : State) (sender : SockAddr) (received : Bytes) : Except Halt (State × List Out) :=
  match processUdpPacket received with
  | none => .error .undefined
  | some pkt =>
    if pkt.valid then
      match s.topics pkt.topic with
      | none => .ok (s, [])
      | some subscribers => .ok (deliver (line sender pkt) s subscribers)
    else .ok (s, [])

/-- Is there a connected client with this id? -/
def isConnected (s : State) (id : Bytes) : Bool :=
  match s.subscribers id with
  | none => false
  | some data => data.connected

/-- `FD_SET(fd, &read_fds)`. -/
def watch (s : State) (fd : ℕ) : State :=
  { s with readFds := Function.update s.readFds fd true, fdMax := max s.fdMax fd }

/-- The stored packets of a client. -/
def stored (s : State) (id : Bytes) : List Bytes :=
  match s.subscribers id with
  | none => []
  | some data => data.packets

/-- Enter a new connection in `clientsConnected` and `subscribers`; the stored packets are cleared, as
they have been sent by then. -/
def register (s : State) (newsockFd : ℕ) (clientAddr : SockAddr) (id : Bytes) : State :=
  let clientCon : Data := ⟨inetNtop clientAddr, clientAddr.sinPort.toNat, id⟩
  let data : Subscriber :=
    match s.subscribers id with
    | none => { clientID := id, connected := true, fd := newsockFd }
    | some data => { data with connected := true, fd := newsockFd, packets := [] }
  { s with
    clientsConnected := Function.update s.clientsConnected newsockFd (some clientCon)
    subscribers := Function.update s.subscribers id (some data) }

def onAccept (s : State) (newsockFd : ℕ) (clientAddr : SockAddr) (received : Bytes) : Outcome :=
  match bufferString MAX_LEN received with
  | none => .error .undefined
  | some buf =>
    -- the rejected socket stays in `read_fds` and gets no entry in `clientsConnected`
    if isConnected s buf then .ok (watch s newsockFd, [.send newsockFd (ascii ";ID_EXISTS;\n")])
    else .ok (register (watch s newsockFd) newsockFd clientAddr buf,
      (stored s buf).map (Out.send newsockFd))

/-- `res == 0`: with a known client behind the socket, forget and close it. Reading the entry with
`operator[]` creates it when it is missing. -/
def onEof (s : State) (i : ℕ) : State × List Out :=
  let clientCon := (s.clientsConnected i).getD {}
  if clientCon.clientID = [] then
    ({ s with clientsConnected := Function.update s.clientsConnected i (some clientCon) }, [])
  else
    ({ s with
        readFds := Function.update s.readFds i false
        clientsConnected := Function.update s.clientsConnected i none
        subscribers :=
          match s.subscribers clientCon.clientID with
          | none => s.subscribers
          | some data =>
            Function.update s.subscribers clientCon.clientID (some { data with connected := false }) },
      [.close i])

def onUnsubscribe (s : State) (i : ℕ) (topicStr : Bytes) : Except Halt State :=
  match s.topics topicStr, s.clientsConnected i with
  | some subscribers, some clientCon =>
    if subscribers.any fun sub => clientCon.clientID = sub.clientID then
      -- `erase(begin() + i)`: the position erased is the descriptor, not the index found
      if i < subscribers.length then
        .ok { s with topics := Function.update s.topics topicStr (some (subscribers.eraseIdx i)) }
      else .error .undefined
    else .ok s
  | _, _ => .ok s

def onSubscribe (s : State) (i : ℕ) (topicStr : Bytes) (SF : Bool) : State :=
  match s.clientsConnected i with
  | none => s
  | some clientCon =>
    let subscriberNew : Subscriber := { clientID := clientCon.clientID, SF }
    match s.topics topicStr with
    | none => { s with topics := Function.update s.topics topicStr (some [subscriberNew]) }
    | some subscribers =>
      -- a found entry is assigned in the loop's own copy of it, so the list keeps the old flag
      if subscribers.any fun sub => sub.clientID = clientCon.clientID then s
      else { s with
        topics := Function.update s.topics topicStr (some (subscribers ++ [subscriberNew])) }

/-- The command part of the branch of the client sockets. -/
def onCommand (s : State) (i : ℕ) (received : Bytes) (stale : Stale) : Except Halt State :=
  let buf := received.take MAX_LEN
  if startsWith (ascii "unsubscribe") buf then
    match (bufferString MAX_LEN received).bind (sscanf [.word 16, .word 51]) with
    | none => .error .undefined
    | some args => onUnsubscribe s i (wordArg args 1 stale.topicStr)
  else if startsWith (ascii "subscribe") buf then
    match (bufferString MAX_LEN received).bind (sscanf [.word 16, .word 51, .int]) with
    | none => .error .undefined
    | some args =>
      .ok (onSubscribe s i (wordArg args 1 stale.topicStr) (intArg args 2 stale.SFInt != 0))
  else .ok s

/-- The loop body on one ready descriptor. -/
def step (s : State) (input : Input) : Outcome :=
  match input.event with
  | .stdin text => if text = ascii "exit\n" then .error .exit else .ok (s, [])
  | .datagram sender received => onDatagram s sender received >>= checkSends input.sendOk
  | .accept newsockFd clientAddr received =>
    onAccept s newsockFd clientAddr received >>= checkSends input.sendOk
  | .recv i received stale =>
    if received = [] then .ok (onEof s i)
    else (onCommand s i received stale).map fun s => (s, [])
  | .recvError _ => .error .die

/-! ### What each branch does -/

/-- The `DIE`s let a branch pass exactly when all its `send`s succeed. -/
theorem checkSends_bind_iff {sendOk : ℕ → Bool} {o : Outcome} {r : State × List Out} :
    (o >>= checkSends sendOk) = .ok r ↔
      o = .ok r ∧ ∀ fd bytes, Out.send fd bytes ∈ r.2 → sendOk fd = true := by
  cases o with
  | error reason => exact iff_of_false (fun h => by cases h) (fun h => by cases h.1)
  | ok r₀ =>
    show checkSends sendOk r₀ = .ok r ↔ _
    unfold checkSends
    split
    · rename_i hall
      rw [List.all_eq_true] at hall
      refine ⟨fun h => ⟨h, fun fd bytes hmem => ?_⟩, fun h => h.1⟩
      obtain rfl := Except.ok.inj h
      exact hall (.send fd bytes) hmem
    · rename_i hall
      refine iff_of_false (fun h => by cases h) fun h => hall ?_
      obtain rfl := Except.ok.inj h.1
      rw [List.all_eq_true]
      intro x hx
      cases x with
      | send fd bytes => exact h.2 fd bytes hx
      | close fd => rfl

theorem checkSends_ok {sendOk : ℕ → Bool} {r : Outcome} {r' : State × List Out}
    (h : (r >>= checkSends sendOk) = .ok r') : r = .ok r' :=
  (checkSends_bind_iff.mp h).1

theorem checkSends_bind {sendOk : ℕ → Bool} (hall : ∀ fd, sendOk fd = true) (r : Outcome) :
    (r >>= checkSends sendOk) = r := by
  cases r with
  | error e => rfl
  | ok r => exact checkSends_bind_iff.mpr ⟨rfl, fun fd _ _ => hall fd⟩

/-- How often a line for this topic is queued for an absent client. -/
def queued (subs : List Subscriber) (c : Bytes) : ℕ :=
  subs.countP fun e => e.clientID = c && e.SF

/-- What `deliver` makes of the record of client `c`. -/
def queueFor (text : Bytes) (subs : List Subscriber) (c : Bytes) (data : Subscriber) : Subscriber :=
  if data.connected then data
  else { data with packets := data.packets ++ List.replicate (queued subs c) text }

theorem queueFor_nil (text c : Bytes) : queueFor text [] c = id := by
  funext data
  rw [queueFor, show queued [] c = 0 from rfl, List.replicate_zero, List.append_nil]
  split <;> rfl

/-- One entry of the topic, seen from the record of client `c`. -/
theorem storeFor_subscribers (text : Bytes) (s : State) (e : Subscriber) (rest : List Subscriber)
    (c : Bytes) :
    ((storeFor text s e).subscribers c).map (queueFor text rest c) =
      (s.subscribers c).map (queueFor text (e :: rest) c) := by
  by_cases hc : e.clientID = c
  · subst hc
    cases hsub : s.subscribers e.clientID with
    | none => simp only [storeFor, hsub, Option.map_none]
    | some data =>
      cases hcon : data.connected with
      | true => simp [storeFor, hsub, hcon, queueFor]
      | false =>
        cases hsf : e.SF with
        | true =>
          have hq : queued (e :: rest) e.clientID = queued rest e.clientID + 1 := by
            simp [queued, hsf]
          simp [storeFor, hsub, hcon, hsf, queueFor, hq, List.replicate_succ]
        | false =>
          have hq : queued (e :: rest) e.clientID = queued rest e.clientID := by
            simp [queued, hsf]
          simp [storeFor, hsub, hcon, hsf, queueFor, hq]
  · have hq : queued (e :: rest) c = queued rest c := by simp [queued, hc]
    have hs : (storeFor text s e).subscribers c = s.subscribers c := by
      unfold storeFor
      split
      · rfl
      · split
        · exact Function.update_of_ne (Ne.symm hc) ..
        · rfl
    have hf : queueFor text rest c = queueFor text (e :: rest) c := by
      funext data
      simp only [queueFor, hq]
    rw [hs, hf]

/-- Queuing changes neither a connected flag nor a descriptor. -/
theorem sendFor_storeFor (text : Bytes) (s : State) (e : Subscriber) :
    sendFor text (storeFor text s e) = sendFor text s := by
  funext e'
  unfold storeFor
  split
  · rfl
  · rename_i data hsub
    split
    · by_cases hc : e'.clientID = e.clientID
      · simp only [sendFor, hc, Function.update_self, hsub]
      · simp only [sendFor, Function.update_of_ne hc]
    · rfl

/-- **The loop over the subscribers, in closed form**: one line per entry of a connected client, and
one stored line per storing entry of an absent one. -/
theorem deliver_eq (text : Bytes) (s : State) (subs : List Subscriber) :
    deliver text s subs =
      ({ s with subscribers := fun c => (s.subscribers c).map (queueFor text subs c) },
        subs.filterMap (sendFor text s)) := by
  induction subs generalizing s with
  | nil =>
    have hid : (fun c => (s.subscribers c).map (queueFor text [] c)) = s.subscribers := by
      funext c
      rw [queueFor_nil, Option.map_id_fun, id]
    simp only [deliver, hid, List.filterMap_nil]
  | cons e rest ih =>
    have hframe : (storeFor text s e).readFds = s.readFds ∧ (storeFor text s e).fdMax = s.fdMax ∧
        (storeFor text s e).clientsConnected = s.clientsConnected ∧
        (storeFor text s e).topics = s.topics := by
      unfold storeFor
      split
      · exact ⟨rfl, rfl, rfl, rfl⟩
      · split <;> exact ⟨rfl, rfl, rfl, rfl⟩
    simp only [deliver, ih, hframe, storeFor_subscribers, sendFor_storeFor]
    cases h : sendFor text s e with
    | none => simp [h]
    | some o => simp [h]

theorem step_datagram {s s' : State} {sender : SockAddr} {received : Bytes} {sendOk : ℕ → Bool}
    {out : List Out} (h : step s ⟨.datagram sender received, sendOk⟩ = .ok (s', out)) :
    ∃ pkt, processUdpPacket received = some pkt ∧
      ((¬ (pkt.valid = true ∧ (s.topics pkt.topic).isSome) ∧ s' = s ∧ out = []) ∨
        ∃ subs, pkt.valid = true ∧ s.topics pkt.topic = some subs ∧
          (s', out) = deliver (line sender pkt) s subs) := by
  have hd : onDatagram s sender received = .ok (s', out) := checkSends_ok h
  unfold onDatagram at hd
  cases hp : processUdpPacket received with
  | none => simp [hp] at hd
  | some pkt =>
    refine ⟨pkt, rfl, ?_⟩
    simp only [hp] at hd
    cases hv : pkt.valid with
    | false =>
      simp only [hv, Bool.false_eq_true, if_false, Except.ok.injEq, Prod.mk.injEq] at hd
      exact Or.inl ⟨by simp, hd.1.symm, hd.2.symm⟩
    | true =>
      simp only [hv, if_true] at hd
      cases ht : s.topics pkt.topic with
      | none =>
        simp only [ht, Except.ok.injEq, Prod.mk.injEq] at hd
        exact Or.inl ⟨by simp, hd.1.symm, hd.2.symm⟩
      | some subs =>
        simp only [ht, Except.ok.injEq] at hd
        exact Or.inr ⟨subs, rfl, rfl, hd.symm⟩

theorem step_accept {s s' : State} {fd : ℕ} {addr : SockAddr} {received : Bytes} {sendOk : ℕ → Bool}
    {out : List Out} (h : step s ⟨.accept fd addr received, sendOk⟩ = .ok (s', out)) :
    ∃ id, bufferString MAX_LEN received = some id ∧
      ((isConnected s id = true ∧ s' = watch s fd ∧ out = [.send fd (ascii ";ID_EXISTS;\n")]) ∨
        (isConnected s id = false ∧ s' = register (watch s fd) fd addr id ∧
          out = (stored s id).map (Out.send fd))) := by
  have ha : onAccept s fd addr received = .ok (s', out) := checkSends_ok h
  unfold onAccept at ha
  cases hb : bufferString MAX_LEN received with
  | none => simp [hb] at ha
  | some id =>
    refine ⟨id, rfl, ?_⟩
    simp only [hb] at ha
    cases hc : isConnected s id with
    | true =>
      simp only [hc, if_true, Except.ok.injEq, Prod.mk.injEq] at ha
      exact Or.inl ⟨rfl, ha.1.symm, ha.2.symm⟩
    | false =>
      simp only [hc, Bool.false_eq_true, if_false, Except.ok.injEq, Prod.mk.injEq] at ha
      exact Or.inr ⟨rfl, ha.1.symm, ha.2.symm⟩

theorem onUnsubscribe_topics {s s' : State} {i : ℕ} {t : Bytes} (h : onUnsubscribe s i t = .ok s') :
    ∃ topics, s' = { s with topics } := by
  unfold onUnsubscribe at h
  split at h
  · split at h
    · split at h
      · exact ⟨_, (Except.ok.inj h).symm⟩
      · cases h
    · exact ⟨s.topics, (Except.ok.inj h).symm⟩
  · exact ⟨s.topics, (Except.ok.inj h).symm⟩

theorem onSubscribe_topics (s : State) (i : ℕ) (t : Bytes) (SF : Bool) :
    ∃ topics, onSubscribe s i t SF = { s with topics } := by
  unfold onSubscribe
  split
  · exact ⟨s.topics, rfl⟩
  · split
    · exact ⟨_, rfl⟩
    · split
      · exact ⟨s.topics, rfl⟩
      · exact ⟨_, rfl⟩

/-- A command changes nothing but the topics. -/
theorem onCommand_topics {s s' : State} {i : ℕ} {received : Bytes} {stale : Stale}
    (h : onCommand s i received stale = .ok s') : ∃ topics, s' = { s with topics } := by
  simp only [onCommand] at h
  split at h
  · split at h
    · cases h
    · exact onUnsubscribe_topics h
  · split at h
    · split at h
      · cases h
      · obtain rfl := Except.ok.inj h
        exact onSubscribe_topics ..
    · exact ⟨s.topics, (Except.ok.inj h).symm⟩

theorem step_recv {s s' : State} {i : ℕ} {received : Bytes} {stale : Stale} {sendOk : ℕ → Bool}
    {out : List Out} (h : step s ⟨.recv i received stale, sendOk⟩ = .ok (s', out)) :
    (received = [] ∧ (s', out) = onEof s i) ∨
      (received ≠ [] ∧ onCommand s i received stale = .ok s' ∧ out = []) := by
  by_cases hr : received = []
  · simp only [step, hr, if_true, Except.ok.injEq] at h
    exact Or.inl ⟨hr, h.symm⟩
  · simp only [step, hr, if_false] at h
    cases hc : onCommand s i received stale with
    | error e => simp [hc, Except.map] at h
    | ok s₁ =>
      simp only [hc, Except.map, Except.ok.injEq, Prod.mk.injEq] at h
      obtain ⟨rfl, rfl⟩ := h
      exact Or.inr ⟨hr, rfl, rfl⟩

theorem step_stdin {s s' : State} {text : Bytes} {sendOk : ℕ → Bool} {out : List Out}
    (h : step s ⟨.stdin text, sendOk⟩ = .ok (s', out)) : s' = s ∧ out = [] := by
  unfold step at h
  simp only at h
  split at h
  · cases h
  · cases h
    exact ⟨rfl, rfl⟩

/-! ### Runs of the broker -/

/-- The descriptor of an accepted connection, as opposed to stdin and the two listeners. -/
def Listeners.isClient (l : Listeners) (fd : ℕ) : Prop := fd ≠ 0 ∧ fd ≠ l.sockTcp ∧ fd ≠ l.sockUDP

/-- What the kernel guarantees about the next ready descriptor. -/
def Kernel (l : Listeners) (s : State) : Event → Prop
  | .accept newsockFd _ _ => s.readFds newsockFd = false
  | .recv i _ _ => l.isClient i ∧ s.readFds i = true
  | .recvError i => l.isClient i ∧ s.readFds i = true
  | _ => True

instance (l : Listeners) (s : State) : DecidablePred (Kernel l s)
  | .accept newsockFd _ _ => inferInstanceAs (Decidable (s.readFds newsockFd = false))
  | .recv i _ _ => inferInstanceAs (Decidable ((i ≠ 0 ∧ i ≠ l.sockTcp ∧ i ≠ l.sockUDP) ∧ s.readFds i = true))
  | .recvError i => inferInstanceAs (Decidable ((i ≠ 0 ∧ i ≠ l.sockTcp ∧ i ≠ l.sockUDP) ∧ s.readFds i = true))
  | .stdin _ => .isTrue trivial
  | .datagram _ _ => .isTrue trivial

/-- One step of the broker that the kernel can cause. -/
def Serves (l : Listeners) (s : State) (input : Input) (s' : State) (out : List Out) : Prop :=
  Kernel l s input.event ∧ step s input = .ok (s', out)

/-- The same as a function. -/
def serve (l : Listeners) (s : State) (input : Input) : Option (State × List Out) :=
  if Kernel l s input.event then (step s input).toOption else none

theorem serves_of_serve {l : Listeners} {s s' : State} {input : Input} {out : List Out}
    (h : Steps (serve l) s input s' out) : Serves l s input s' out := by
  rw [Steps, serve] at h
  split at h
  · rename_i hkernel
    refine ⟨hkernel, ?_⟩
    cases hstep : step s input with
    | error e =>
      rw [hstep] at h
      cases h
    | ok r =>
      rw [hstep] at h
      exact congrArg Except.ok (Option.some.inj h)
  · cases h

end Pcom.Tema2.Server
