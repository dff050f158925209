import Mathlib.Logic.Relation
import Pcom.Lab03.LinkedQueue
import Pcom.Lib.Memory
import Pcom.Lib.StepSystem

/-!
# The link emulator of `Lab03`

`link_emulator/link.c` carries the messages of link 1 to link 2 with two threads: `run_forwarding` receives them into
`buffer`, and `link_scheduler` moves them to the queue `in_flight` and sends them when their time has come.  A step is
one section under `buffer_lock`, or one other statement of a thread; both threads see the same buffer.

* `order_of_run` — in every run, the messages sent are the first ones received, in order;
* `running_of_run` — **the exact condition**: no `assert` fails in a run in which no message is put into the buffer
  once the scheduler, having seen an empty buffer, is on its way to wait for one;
* `abort_of_careless` — after a step against the condition, the scheduler on its own runs into a failing `assert`;
* `late_message_aborts` — one message that arrives between the two looks at the buffer.
-/

namespace Pcom.Lab03.Link

open Pcom.Lab03.LinkedQueue Pcom.Lib.Memory Pcom.Lib.StepSystem

/-! ### Messages -/

def MSGSIZE : ℕ := 1400

/-- `msg`: a message is sent whole, whatever its `len`. -/
structure Msg where
  len : ℤ
  payload : Buf

/-- What `run_forwarding` draws to corrupt a payload: a bit of one of the first `len` bytes. -/
structure Flip where
  byte : ℕ
  bit : Fin 8
  deriving DecidableEq

/-- `m->payload[byte] ^= 1 << bit`. -/
def Flip.apply (f : Flip) (m : Msg) : Msg :=
  { m with payload := Function.update m.payload f.byte (m.payload f.byte ^^^ ((1 : UInt8) <<< f.bit.val.toUInt8)) }

/-- `msg_in_flight`. -/
structure MsgInFlight where
  m : Option Msg
  finishTime : ℤ

/-! ### The two threads -/

def BUFFER_SIZE : ℕ := 1000

/-- The parameters of the link. -/
structure Config where
  serializationDelay : ℤ
  delay : ℤ
  loss : ℤ
  corrupt : ℤ

/-- The next statement of `link_scheduler`. -/
inductive Pc
  | now
  | whileInFlight
  | compare
  | dequeueInFlight
  | checkMif
  | send
  | free
  | sample
  | resetWaits
  | test
  | setIdle
  | malloc
  | dequeueBuffer
  | assertM
  | setFinish
  | enqueueInFlight
  | waitIdle
  | waitSend
  | decide
  | sleep
  | park
  | parked
  deriving DecidableEq

/-- The next statement of `run_forwarding`, with the message it has received. -/
inductive Forwarding
  | receive
  | checkSpace (m : Msg)
  | testLoss (m : Msg) (overflow : Bool)
  | testCorrupt (m : Msg)
  | enqueue (m : Msg)

/-- The variables of both threads.  Times are in microseconds. -/
structure State where
  pc : Pc
  crtTime : ℤ
  idleTime : ℤ
  waitTimeIdle : ℤ
  waitTimeSend : ℤ
  stuff : Bool
  mif : Option MsgInFlight
  inFlight : Queue MsgInFlight
  forwarding : Forwarding
  buffer : Queue Msg

/-- The process; a failed `assert` aborts it, as does a null pointer followed. -/
inductive Process
  | running (s : State)
  | aborted
  | exited

/-- What `run_forwarding` draws with `rand`. -/
structure Rand where
  loss : Fin 100
  corrupt : Fin 100
  flip : Flip

/-- Which thread goes on, with what the calls it may make return: `now`, `malloc`, `receive_message1`, `rand`. -/
inductive Act
  | scheduler (clock : ℤ) (address : ℕ)
  | forwarding (m : Msg) (rand : Rand) (address : ℕ)

inductive Out
  | received (m : Msg)
  | sent (m : Msg)

/-- Both threads have been created; the locals without an initial value are read only after they have been set. -/
def init : State := ⟨.now, 0, 0, 0, 0, false, none, createQueue, .receive, createQueue⟩

/-- A statement without output. -/
def go (s : State) : Option (Process × List Out) := some (.running s, [])

def abort : Option (Process × List Out) := some (.aborted, [])

/-- One statement of `link_scheduler`; `none` where the clock would go backwards or `malloc` return memory in use. -/
def scheduler (cfg : Config) (clock : ℤ) (address : ℕ) (s : State) : Option (Process × List Out) :=
  match s.pc with
  | .now => if s.crtTime ≤ clock then go { s with crtTime := clock, pc := .whileInFlight } else none
  | .whileInFlight => go { s with pc := if 0 < s.inFlight.size then .compare else .sample }
  | .compare =>
    match s.inFlight.oldest with
    | none => abort
    | some last => go { s with pc := if s.crtTime < last.finishTime then .sample else .dequeueInFlight }
  | .dequeueInFlight =>
    match dequeue s.inFlight with
    | none => abort
    | some (mif, inFlight) => go { s with mif, inFlight, pc := .checkMif }
  | .checkMif => if s.mif.isNone then some (.exited, []) else go { s with pc := .send }
  | .send =>
    match s.mif.bind MsgInFlight.m with
    | none => abort
    | some m => some (.running { s with pc := .free }, [.sent m])
  | .free => go { s with mif := none, pc := .whileInFlight }
  | .sample => go { s with stuff := Decidable.decide (0 < s.buffer.size), pc := .resetWaits }
  | .resetWaits => go { s with waitTimeSend := 0, waitTimeIdle := 0, pc := .test }
  | .test => go { s with pc := if s.stuff = true ∧ s.idleTime ≤ s.crtTime then .setIdle else .waitIdle }
  | .setIdle => go { s with idleTime := s.crtTime + cfg.serializationDelay, pc := .malloc }
  | .malloc => go { s with mif := some ⟨none, 0⟩, pc := .dequeueBuffer }
  | .dequeueBuffer =>
    match s.mif, dequeue s.buffer with
    | some mif, some (m, buffer) => go { s with mif := some { mif with m }, buffer, pc := .assertM }
    | _, _ => abort
  | .assertM => if (s.mif.bind MsgInFlight.m).isNone then abort else go { s with pc := .setFinish }
  | .setFinish =>
    match s.mif with
    | none => abort
    | some mif =>
      go { s with
        mif := some { mif with finishTime := s.crtTime + cfg.serializationDelay + cfg.delay }
        pc := .enqueueInFlight }
  | .enqueueInFlight =>
    match s.mif with
    | none => abort
    | some mif =>
      if (s.inFlight.heap address).isSome then none
      else
        match enqueue s.inFlight address mif with
        | none => abort
        | some inFlight => go { s with inFlight, pc := .waitIdle }
  | .waitIdle => go { s with waitTimeIdle := s.idleTime - s.crtTime, pc := .waitSend }
  | .waitSend =>
    if 0 < s.inFlight.size then
      match s.inFlight.oldest with
      | none => abort
      | some last => go { s with waitTimeSend := last.finishTime - s.crtTime, pc := .decide }
    else go { s with pc := .decide }
  | .decide => go { s with pc := if 0 < s.waitTimeIdle ∨ 0 < s.waitTimeSend then .sleep else .park }
  | .sleep => go { s with pc := .now }
  -- `assert(!buffer->size)` and `pthread_cond_wait`, which gives the lock up
  | .park => if s.buffer.size = 0 then go { s with pc := .parked } else abort
  -- woken by a signal, or spuriously
  | .parked => go { s with pc := .now }

/-- One statement of `run_forwarding`. -/
def forwarding (cfg : Config) (m : Msg) (rand : Rand) (address : ℕ) (s : State) : Option (Process × List Out) :=
  match s.forwarding with
  | .receive => some (.running { s with forwarding := .checkSpace m }, [.received m])
  | .checkSpace m => go { s with forwarding := .testLoss m (Decidable.decide (BUFFER_SIZE ≤ s.buffer.size)) }
  | .testLoss m overflow =>
    go { s with forwarding := if overflow = true ∨ (rand.loss : ℤ) < cfg.loss then .receive else .testCorrupt m }
  | .testCorrupt m =>
    if (rand.corrupt : ℤ) < cfg.corrupt then
      if (rand.flip.byte : ℤ) < m.len then go { s with forwarding := .enqueue (rand.flip.apply m) } else none
    else go { s with forwarding := .enqueue m }
  | .enqueue m =>
    if (s.buffer.heap address).isSome then none
    else
      match enqueue s.buffer address m with
      | none => abort
      | some buffer => go { s with buffer, forwarding := .receive }

/-- One statement of one of the two threads. -/
def step (cfg : Config) : Process → Act → Option (Process × List Out)
  | .running s, .scheduler clock address => scheduler cfg clock address s
  | .running s, .forwarding m rand address => forwarding cfg m rand address s
  | _, _ => none

/-! ### Where the messages are -/

/-- The messages `receive_message1` has returned. -/
def receivedOf (out : List Out) : List Msg := out.filterMap fun
  | .received m => some m
  | .sent _ => none

/-- The messages handed to `send_message2`. -/
def sentOf (out : List Out) : List Msg := out.filterMap fun
  | .received _ => none
  | .sent m => some m

theorem receivedOf_append (out out' : List Out) : receivedOf (out ++ out') = receivedOf out ++ receivedOf out' :=
  List.filterMap_append ..

theorem sentOf_append (out out' : List Out) : sentOf (out ++ out') = sentOf out ++ sentOf out' :=
  List.filterMap_append ..

/-- The message the scheduler has taken from `in_flight` and not yet sent. -/
def inHand (s : State) : List Msg :=
  match s.pc with
  | .checkMif | .send => (s.mif.bind MsgInFlight.m).toList
  | _ => []

/-- The message the scheduler is moving from `buffer` to `in_flight`. -/
def moving (s : State) : List Msg :=
  match s.pc with
  | .assertM | .setFinish | .enqueueInFlight => (s.mif.bind MsgInFlight.m).toList
  | _ => []

/-- The message `run_forwarding` has received and not yet put into `buffer`. -/
def forwarded (s : State) : List Msg :=
  match s.forwarding with
  | .receive => []
  | .checkSpace m | .testLoss m _ | .testCorrupt m | .enqueue m => [m]

/-- What the scheduler relies on at its next statement. -/
def Control (s : State) (flying : List MsgInFlight) (waiting : List Msg) : Prop :=
  match s.pc with
  | .compare | .dequeueInFlight => flying ≠ []
  | .checkMif | .send | .assertM | .setFinish | .enqueueInFlight => ∃ m t, s.mif = some ⟨some m, t⟩
  | .resetWaits | .test => s.stuff = true → waiting ≠ []
  | .setIdle | .malloc => waiting ≠ []
  | .dequeueBuffer => waiting ≠ [] ∧ ∃ mif, s.mif = some mif
  | _ => True

/-- Both queues are well-formed, and the messages received are, in order, those sent, those on their way through the
emulator, and the one just received. -/
structure Inv (s : State) (received sent : List Msg) (flying : List MsgInFlight) (waiting : List Msg) : Prop where
  buffer : Holds s.buffer waiting
  inFlight : Holds s.inFlight flying
  carried : ∀ e ∈ flying, ∃ m, e.m = some m
  order : received = sent ++ inHand s ++ flying.filterMap MsgInFlight.m ++ moving s ++ waiting ++ forwarded s
  control : Control s flying waiting
  space : ∀ m overflow, s.forwarding = .testLoss m overflow → overflow = false

variable {cfg : Config} {s s' : State} {received sent waiting : List Msg} {flying : List MsgInFlight} {p' : Process}
  {out : List Out} {clock : ℤ} {address : ℕ}

theorem inv_init : Inv init [] [] [] [] :=
  ⟨holds_createQueue, holds_createQueue, fun _ h => (List.not_mem_nil h).elim, rfl, trivial, fun _ _ h => by cases h⟩

/-- The invariant after a statement. -/
def Kept (received sent : List Msg) (p' : Process) (out : List Out) : Prop :=
  ∃ s' flying waiting, p' = .running s' ∧ Inv s' (received ++ receivedOf out) (sent ++ sentOf out) flying waiting

theorem kept_of_go (h : go s' = some (p', out)) (hi : Inv s' received sent flying waiting) :
    Kept received sent p' out := by
  obtain ⟨rfl, rfl⟩ := Prod.mk.inj (Option.some.inj h)
  refine ⟨s', flying, waiting, rfl, ?_⟩
  rw [receivedOf, sentOf, List.filterMap_nil, List.filterMap_nil, List.append_nil, List.append_nil]
  exact hi

/-- A statement of the scheduler that leaves the queues alone. -/
theorem Inv.next (hi : Inv s received sent flying waiting) (h : go s' = some (p', out)) (hbuffer : s'.buffer = s.buffer)
    (hinFlight : s'.inFlight = s.inFlight) (hforwarding : s'.forwarding = s.forwarding) (hhand : inHand s' = inHand s)
    (hmoving : moving s' = moving s) (hcontrol : Control s' flying waiting) : Kept received sent p' out := by
  refine kept_of_go h
    ⟨hbuffer ▸ hi.buffer, hinFlight ▸ hi.inFlight, hi.carried, ?_, hcontrol, hforwarding ▸ hi.space⟩
  rw [hhand, hmoving, forwarded, hforwarding]
  exact hi.order

/-- **One statement of the scheduler**: the order of the messages is kept, and the only `assert` that can fail is the
one in front of the wait, on a buffer that is not empty. -/
theorem scheduler_inv (hi : Inv s received sent flying waiting)
    (h : scheduler cfg clock address s = some (p', out)) :
    (p' = .aborted ∧ out = [] ∧ s.pc = .park ∧ waiting ≠ []) ∨ Kept received sent p' out := by
  have hcontrol := hi.control
  obtain ⟨pc, crtTime, idleTime, waitTimeIdle, waitTimeSend, stuff, mif, inFlight, fw, buffer⟩ := s
  cases pc with
  | now =>
    simp only [scheduler] at h
    split at h
    · exact Or.inr (hi.next h rfl rfl rfl rfl rfl trivial)
    · cases h
  | whileInFlight =>
    simp only [scheduler] at h
    refine Or.inr ?_
    split at h
    · rename_i hsize
      rw [hi.inFlight.size] at hsize
      exact hi.next h rfl rfl rfl rfl rfl (List.length_pos_iff.mp hsize)
    · exact hi.next h rfl rfl rfl rfl rfl trivial
  | compare =>
    obtain ⟨e, flying', rfl⟩ := List.exists_cons_of_ne_nil hcontrol
    have hoff : inFlight.oldest = some e := hi.inFlight.oldest
    simp only [scheduler, hoff] at h
    refine Or.inr ?_
    split at h
    · exact hi.next h rfl rfl rfl rfl rfl trivial
    · exact hi.next h rfl rfl rfl rfl rfl hcontrol
  | dequeueInFlight =>
    obtain ⟨e, flying', rfl⟩ := List.exists_cons_of_ne_nil hcontrol
    obtain ⟨q', hq', hholds⟩ := hi.inFlight.dequeue
    obtain ⟨m, hm⟩ := hi.carried e List.mem_cons_self
    obtain ⟨_, time⟩ := e
    subst hm
    simp only [scheduler, hq'] at h
    refine Or.inr (kept_of_go h ⟨hi.buffer, hholds, fun e he => hi.carried e (List.mem_cons_of_mem _ he), ?_,
      ⟨m, time, rfl⟩, hi.space⟩)
    have horder := hi.order
    simpa [inHand, moving, forwarded] using horder
  | checkMif =>
    obtain ⟨m, time, rfl⟩ := hcontrol
    exact Or.inr (hi.next h rfl rfl rfl rfl rfl ⟨m, time, rfl⟩)
  | send =>
    obtain ⟨m, time, rfl⟩ := hcontrol
    obtain ⟨rfl, rfl⟩ := Prod.mk.inj (Option.some.inj h)
    refine Or.inr ⟨_, flying, waiting, rfl, hi.buffer, hi.inFlight, hi.carried, ?_, trivial, hi.space⟩
    have horder := hi.order
    simpa [inHand, moving, forwarded, receivedOf, sentOf] using horder
  | free | waitIdle | sleep | parked => exact Or.inr (hi.next h rfl rfl rfl rfl rfl trivial)
  | sample =>
    refine Or.inr (hi.next h rfl rfl rfl rfl rfl fun hstuff => ?_)
    have hsize := of_decide_eq_true hstuff
    rw [hi.buffer.size] at hsize
    exact List.length_pos_iff.mp hsize
  | resetWaits | setIdle => exact Or.inr (hi.next h rfl rfl rfl rfl rfl hcontrol)
  | test =>
    simp only [scheduler] at h
    refine Or.inr ?_
    split at h
    · rename_i hstuff
      exact hi.next h rfl rfl rfl rfl rfl (hcontrol hstuff.1)
    · exact hi.next h rfl rfl rfl rfl rfl trivial
  | malloc => exact Or.inr (hi.next h rfl rfl rfl rfl rfl ⟨hcontrol, _, rfl⟩)
  | dequeueBuffer =>
    obtain ⟨hne, ⟨m, time⟩, rfl⟩ := hcontrol
    obtain ⟨m', waiting', rfl⟩ := List.exists_cons_of_ne_nil hne
    obtain ⟨q', hq', hholds⟩ := hi.buffer.dequeue
    simp only [scheduler, hq'] at h
    refine Or.inr (kept_of_go h ⟨hholds, hi.inFlight, hi.carried, ?_, ⟨m', time, rfl⟩, hi.space⟩)
    have horder := hi.order
    simpa [inHand, moving, forwarded] using horder
  | assertM =>
    obtain ⟨m, time, rfl⟩ := hcontrol
    exact Or.inr (hi.next h rfl rfl rfl rfl rfl ⟨m, time, rfl⟩)
  | setFinish =>
    obtain ⟨m, time, rfl⟩ := hcontrol
    exact Or.inr (hi.next h rfl rfl rfl rfl rfl ⟨m, _, rfl⟩)
  | enqueueInFlight =>
    obtain ⟨m, time, rfl⟩ := hcontrol
    simp only [scheduler] at h
    split at h
    · cases h
    · rename_i hfresh
      rw [Option.not_isSome_iff_eq_none] at hfresh
      obtain ⟨q', hq', hholds⟩ := hi.inFlight.enqueue hfresh ⟨some m, time⟩
      simp only [hq'] at h
      refine Or.inr (kept_of_go h ⟨hi.buffer, hholds, fun e he => ?_, ?_, trivial, hi.space⟩)
      · rcases List.mem_append.mp he with he | he
        · exact hi.carried e he
        · exact ⟨m, by rw [List.mem_singleton.mp he]⟩
      · have horder := hi.order
        simpa [inHand, moving, forwarded] using horder
  | waitSend =>
    simp only [scheduler] at h
    refine Or.inr ?_
    split at h
    · rename_i hsize
      rw [hi.inFlight.size] at hsize
      obtain ⟨e, flying', rfl⟩ := List.exists_cons_of_ne_nil (List.length_pos_iff.mp hsize)
      have hoff : inFlight.oldest = some e := hi.inFlight.oldest
      simp only [hoff] at h
      exact hi.next h rfl rfl rfl rfl rfl trivial
    · exact hi.next h rfl rfl rfl rfl rfl trivial
  | decide =>
    simp only [scheduler] at h
    refine Or.inr ?_
    split at h
    all_goals exact hi.next h rfl rfl rfl rfl rfl trivial
  | park =>
    simp only [scheduler] at h
    split at h
    · exact Or.inr (hi.next h rfl rfl rfl rfl rfl trivial)
    · rename_i hsize
      obtain ⟨rfl, rfl⟩ := Prod.mk.inj (Option.some.inj h)
      refine Or.inl ⟨rfl, rfl, rfl, ?_⟩
      rintro rfl
      exact hsize hi.buffer.size

/-- **One statement of the other thread**, on a link that neither loses nor corrupts, with room in the buffer. -/
theorem forwarding_inv (hloss : cfg.loss = 0) (hcorrupt : cfg.corrupt = 0) (hfull : s.buffer.size < BUFFER_SIZE)
    (hi : Inv s received sent flying waiting) {m : Msg} {rand : Rand}
    (h : forwarding cfg m rand address s = some (p', out)) : Kept received sent p' out := by
  have horder := hi.order
  obtain ⟨pc, crtTime, idleTime, waitTimeIdle, waitTimeSend, stuff, mif, inFlight, fw, buffer⟩ := s
  cases fw with
  | receive =>
    obtain ⟨rfl, rfl⟩ := Prod.mk.inj (Option.some.inj h)
    refine ⟨_, flying, waiting, rfl, hi.buffer, hi.inFlight, hi.carried, ?_, hi.control, fun _ _ h => by cases h⟩
    rw [horder]
    simp only [receivedOf, sentOf, List.filterMap_cons, List.filterMap_nil, List.append_nil, forwarded]
    rfl
  | checkSpace m =>
    refine kept_of_go h ⟨hi.buffer, hi.inFlight, hi.carried, horder, hi.control, fun _ _ heq => ?_⟩
    obtain ⟨-, rfl⟩ := Forwarding.testLoss.inj heq
    exact decide_eq_false (Nat.not_le_of_lt hfull)
  | testLoss m overflow =>
    obtain rfl := hi.space m overflow rfl
    have hkeep : ¬ (false = true ∨ (rand.loss : ℤ) < cfg.loss) := by
      rw [hloss]
      simp
    simp only [forwarding, if_neg hkeep] at h
    exact kept_of_go h ⟨hi.buffer, hi.inFlight, hi.carried, horder, hi.control, fun _ _ heq => by cases heq⟩
  | testCorrupt m =>
    have hkeep : ¬ (rand.corrupt : ℤ) < cfg.corrupt := by
      rw [hcorrupt]
      simp
    simp only [forwarding, if_neg hkeep] at h
    exact kept_of_go h ⟨hi.buffer, hi.inFlight, hi.carried, horder, hi.control, fun _ _ heq => by cases heq⟩
  | enqueue m =>
    simp only [forwarding] at h
    split at h
    · cases h
    · rename_i hfresh
      rw [Option.not_isSome_iff_eq_none] at hfresh
      obtain ⟨q', hq', hholds⟩ := hi.buffer.enqueue hfresh m
      simp only [hq'] at h
      refine kept_of_go h ⟨hholds, hi.inFlight, hi.carried, ?_, ?_, fun _ _ heq => by cases heq⟩
      · simpa [inHand, moving, forwarded] using horder
      · have hcontrol := hi.control
        have hne : waiting ++ [m] ≠ [] := by simp
        cases pc with
        | resetWaits => exact fun _ => hne
        | test => exact fun _ => hne
        | setIdle => exact hne
        | malloc => exact hne
        | dequeueBuffer => exact ⟨hne, hcontrol.2⟩
        | _ => exact hcontrol

/-! ### The way to the wait -/

/-- When the oldest message in flight is due, and `d` if there is none. -/
def due (s : State) (d : ℤ) : ℤ := s.inFlight.oldest.elim d fun last => last.finishTime - s.crtTime

theorem finishTime_sub (cfg : Config) (crtTime : ℤ) :
    crtTime + cfg.serializationDelay + cfg.delay - crtTime = cfg.serializationDelay + cfg.delay := by omega

theorem due_eq {s : State} {flying : List MsgInFlight} (h : Holds s.inFlight flying) (d : ℤ) :
    due s d = flying.head?.elim d fun last => last.finishTime - s.crtTime := by
  rw [due, h.oldest]

/-- A message that is sent is the oldest in flight only if it is the only one. -/
theorem due_enqueue {s : State} {flying : List MsgInFlight} {e : MsgInFlight} {q' : Queue MsgInFlight}
    (h : Holds s.inFlight flying) (h' : Holds q' (flying ++ [e])) (pc : Pc) (d : ℤ) :
    due { s with inFlight := q', pc := pc } d = due s (e.finishTime - s.crtTime) := by
  rw [due_eq h, due_eq h']
  cases flying <;> rfl

/-- **The scheduler is on its way to the wait**: it has looked at the buffer, and neither the line nor a message in
flight will make it sleep instead. -/
def Committed (cfg : Config) (s : State) : Prop :=
  match s.pc with
  | .resetWaits => s.stuff = false ∧ s.idleTime ≤ s.crtTime ∧ due s 0 ≤ 0
  | .test => s.stuff = false ∧ s.idleTime ≤ s.crtTime ∧ due s s.waitTimeSend ≤ 0
  | .assertM | .setFinish => s.idleTime ≤ s.crtTime ∧ due s (cfg.serializationDelay + cfg.delay) ≤ 0
  | .enqueueInFlight =>
    s.idleTime ≤ s.crtTime ∧ due s (s.mif.elim 0 MsgInFlight.finishTime - s.crtTime) ≤ 0
  | .waitIdle => s.idleTime ≤ s.crtTime ∧ due s s.waitTimeSend ≤ 0
  | .waitSend => s.waitTimeIdle ≤ 0 ∧ due s s.waitTimeSend ≤ 0
  | .decide => s.waitTimeIdle ≤ 0 ∧ s.waitTimeSend ≤ 0
  | .park => True
  | _ => False

/-- The condition on a step.  No message is put into the buffer while the scheduler is on its way to the wait; and when
the scheduler takes a message and leaves others in the buffer, the line is busy for some time, or a message in flight is
due later. -/
def Careful (cfg : Config) : Process → Act → Prop
  | .running s, .forwarding .. => (∃ m, s.forwarding = .enqueue m) → ¬ Committed cfg s
  | .running s, .scheduler .. => s.pc = .dequeueBuffer →
      s.buffer.size ≤ 1 ∨ s.crtTime < s.idleTime ∨ 0 < due s (cfg.serializationDelay + cfg.delay)
  | _, _ => True

/-- On its way to the wait the scheduler has an empty buffer behind it. -/
def Quiet (cfg : Config) (s : State) : Prop := Committed cfg s → s.buffer.size = 0

theorem scheduler_quiet (hi : Inv s received sent flying waiting) (hq : Quiet cfg s)
    (hcare : Careful cfg (.running s) (.scheduler clock address))
    (h : scheduler cfg clock address s = some (.running s', out)) : Quiet cfg s' := by
  have hcontrol := hi.control
  have hgo : ∀ {s₁ : State}, go s₁ = some (.running s', out) → s₁ = s' := fun hs₁ =>
    Process.running.inj (Prod.mk.inj (Option.some.inj hs₁)).1
  obtain ⟨pc, crtTime, idleTime, waitTimeIdle, waitTimeSend, stuff, mif, inFlight, fw, buffer⟩ := s
  cases pc with
  | now =>
    simp only [scheduler] at h
    split at h
    · obtain rfl := hgo h
      exact False.elim
    · cases h
  | whileInFlight =>
    simp only [scheduler] at h
    split at h
    all_goals
      obtain rfl := hgo h
      exact False.elim
  | compare =>
    obtain ⟨e, flying', rfl⟩ := List.exists_cons_of_ne_nil hcontrol
    have hoff : inFlight.oldest = some e := hi.inFlight.oldest
    simp only [scheduler, hoff] at h
    split at h
    all_goals
      obtain rfl := hgo h
      exact False.elim
  | dequeueInFlight =>
    obtain ⟨e, flying', rfl⟩ := List.exists_cons_of_ne_nil hcontrol
    obtain ⟨q', hq', hholds⟩ := hi.inFlight.dequeue
    simp only [scheduler, hq'] at h
    obtain rfl := hgo h
    exact False.elim
  | checkMif =>
    obtain ⟨m, time, rfl⟩ := hcontrol
    obtain rfl := hgo h
    exact False.elim
  | send =>
    obtain ⟨m, time, rfl⟩ := hcontrol
    obtain rfl := Process.running.inj (Prod.mk.inj (Option.some.inj h)).1
    exact False.elim
  | free | setIdle | malloc | sleep | parked =>
    obtain rfl := hgo h
    exact False.elim
  | sample =>
    obtain rfl := hgo h
    intro hc
    have hsize : ¬ 0 < buffer.size := of_decide_eq_false hc.1
    exact Nat.eq_zero_of_not_pos hsize
  | resetWaits =>
    obtain rfl := hgo h
    exact hq
  | test =>
    simp only [scheduler] at h
    split at h
    · obtain rfl := hgo h
      exact False.elim
    · rename_i hstuff
      obtain rfl := hgo h
      intro hc
      refine hq ⟨Bool.eq_false_iff.mpr fun htrue => hstuff ⟨htrue, hc.1⟩, hc.1, hc.2⟩
  | dequeueBuffer =>
    obtain ⟨hne, ⟨m, time⟩, rfl⟩ := hcontrol
    obtain ⟨m', waiting', rfl⟩ := List.exists_cons_of_ne_nil hne
    obtain ⟨q', hq', hholds⟩ := hi.buffer.dequeue
    simp only [scheduler, hq'] at h
    obtain rfl := hgo h
    intro hc
    rcases hcare rfl with hone | hbusy | hlater
    · have hsize : buffer.size = waiting'.length + 1 := hi.buffer.size
      have hsize' : q'.size = waiting'.length := hholds.size
      show q'.size = 0
      have hone' : buffer.size ≤ 1 := hone
      omega
    · exact absurd hc.1 (not_le_of_gt hbusy)
    · exact absurd hc.2 (not_le_of_gt hlater)
  | assertM =>
    obtain ⟨m, time, rfl⟩ := hcontrol
    obtain rfl := hgo h
    exact hq
  | setFinish =>
    obtain ⟨m, time, rfl⟩ := hcontrol
    obtain rfl := hgo h
    intro hc
    have hlast := finishTime_sub cfg crtTime
    refine hq ⟨hc.1, ?_⟩
    have hdue := hc.2
    rw [← hlast]
    exact hdue
  | enqueueInFlight =>
    obtain ⟨m, time, rfl⟩ := hcontrol
    simp only [scheduler] at h
    split at h
    · cases h
    · rename_i hfresh
      rw [Option.not_isSome_iff_eq_none] at hfresh
      obtain ⟨q', hq', hholds⟩ := hi.inFlight.enqueue hfresh ⟨some m, time⟩
      simp only [hq'] at h
      obtain rfl := hgo h
      intro hc
      have hdue := due_enqueue hi.inFlight hholds .waitIdle waitTimeSend
      exact hq ⟨hc.1, hdue.symm.trans_le hc.2⟩
  | waitIdle =>
    obtain rfl := hgo h
    intro hc
    refine hq ⟨?_, hc.2⟩
    have hidle : idleTime - crtTime ≤ 0 := hc.1
    show idleTime ≤ crtTime
    omega
  | waitSend =>
    simp only [scheduler] at h
    split at h
    · rename_i hsize
      rw [hi.inFlight.size] at hsize
      obtain ⟨e, flying', rfl⟩ := List.exists_cons_of_ne_nil (List.length_pos_iff.mp hsize)
      have hoff : inFlight.oldest = some e := hi.inFlight.oldest
      simp only [hoff] at h
      obtain rfl := hgo h
      intro hc
      refine hq ⟨hc.1, ?_⟩
      rw [due_eq hi.inFlight]
      exact hc.2
    · rename_i hsize
      obtain rfl := hgo h
      intro hc
      refine hq ⟨hc.1, ?_⟩
      rw [hi.inFlight.size] at hsize
      obtain rfl : flying = [] := List.eq_nil_of_length_eq_zero (Nat.eq_zero_of_not_pos hsize)
      rw [due_eq hi.inFlight]
      exact hc.2
  | decide =>
    simp only [scheduler] at h
    split at h
    · obtain rfl := hgo h
      exact False.elim
    · rename_i hwait
      rw [not_or, not_lt, not_lt] at hwait
      obtain rfl := hgo h
      exact fun _ => hq hwait
  | park =>
    simp only [scheduler] at h
    split at h
    · obtain rfl := hgo h
      exact False.elim
    · cases h

theorem forwarding_quiet (hq : Quiet cfg s) {m : Msg} {rand : Rand}
    (hcare : Careful cfg (.running s) (.forwarding m rand address))
    (h : forwarding cfg m rand address s = some (.running s', out)) : Quiet cfg s' := by
  have hgo : ∀ {s₁ : State}, go s₁ = some (.running s', out) → s₁ = s' := fun hs₁ =>
    Process.running.inj (Prod.mk.inj (Option.some.inj hs₁)).1
  obtain ⟨pc, crtTime, idleTime, waitTimeIdle, waitTimeSend, stuff, mif, inFlight, fw, buffer⟩ := s
  cases fw with
  | receive =>
    obtain rfl := Process.running.inj (Prod.mk.inj (Option.some.inj h)).1
    exact hq
  | checkSpace m =>
    obtain rfl := hgo h
    exact hq
  | testLoss m overflow =>
    obtain rfl := hgo h
    exact hq
  | testCorrupt m =>
    simp only [forwarding] at h
    split at h
    · split at h
      · obtain rfl := hgo h
        exact hq
      · cases h
    · obtain rfl := hgo h
      exact hq
  | enqueue m =>
    have hfree : ¬ Committed cfg
        ⟨pc, crtTime, idleTime, waitTimeIdle, waitTimeSend, stuff, mif, inFlight, .enqueue m, buffer⟩ :=
      hcare ⟨m, rfl⟩
    simp only [forwarding] at h
    split at h
    · cases h
    · split at h
      · cases h
      · obtain rfl := hgo h
        exact fun hc => absurd hc hfree

/-! ### Runs -/

/-- There is room in the buffer. -/
def NotFull : Process → Prop
  | .running s => s.buffer.size < BUFFER_SIZE
  | _ => True

/-- The messages sent are the first of those received; the invariant holds as long as the process runs. -/
def Tracks (p : Process) (received sent : List Msg) : Prop :=
  sent <+: received ∧ ∀ s, p = .running s → ∃ flying waiting, Inv s received sent flying waiting

theorem Inv.sent_first (hi : Inv s received sent flying waiting) : sent <+: received := by
  rw [hi.order]
  simp only [List.append_assoc]
  exact List.prefix_append ..

theorem Kept.tracks (h : Kept received sent p' out) :
    Tracks p' (received ++ receivedOf out) (sent ++ sentOf out) := by
  obtain ⟨s', flying, waiting, rfl, hi⟩ := h
  refine ⟨hi.sent_first, fun s hs => ?_⟩
  obtain rfl := Process.running.inj hs
  exact ⟨flying, waiting, hi⟩

theorem step_tracks (hloss : cfg.loss = 0) (hcorrupt : cfg.corrupt = 0) {p : Process} {a : Act} (hfull : NotFull p)
    (ht : Tracks p received sent) (h : step cfg p a = some (p', out)) :
    Tracks p' (received ++ receivedOf out) (sent ++ sentOf out) := by
  obtain ⟨hfirst, hrunning⟩ := ht
  cases p with
  | aborted => cases a <;> cases h
  | exited => cases a <;> cases h
  | running s =>
    obtain ⟨flying, waiting, hi⟩ := hrunning s rfl
    cases a with
    | scheduler clock address =>
      rcases scheduler_inv hi h with ⟨rfl, rfl, -, -⟩ | hkept
      · refine ⟨by simpa [receivedOf, sentOf] using hfirst, fun s hs => by cases hs⟩
      · exact hkept.tracks
    | forwarding m rand address => exact (forwarding_inv hloss hcorrupt hfull hi h).tracks

variable {h : List (Step Process Act Out)} {p : Process}

theorem tracks_of_run (hloss : cfg.loss = 0) (hcorrupt : cfg.corrupt = 0)
    (run : Run (Steps (step cfg)) (.running init) h p) (hfull : ∀ st ∈ h, NotFull st.before) :
    Tracks p (receivedOf (emitted h)) (sentOf (emitted h)) := by
  refine run.history (E := fun p _ => NotFull p)
    (P := fun h p => Tracks p (receivedOf (emitted h)) (sentOf (emitted h))) ?_
    (fun h p a p' out ht hfull hstep => ?_) hfull
  · refine ⟨List.prefix_refl _, fun s hs => ?_⟩
    obtain rfl := Process.running.inj hs
    exact ⟨[], [], inv_init⟩
  · have hnext := step_tracks hloss hcorrupt hfull ht hstep
    rwa [← receivedOf_append, ← sentOf_append] at hnext

/-- **The order is always kept**: in every run, up to its end in an abort, the messages sent are the first of those
received, in the same order. -/
theorem order_of_run (hloss : cfg.loss = 0) (hcorrupt : cfg.corrupt = 0)
    (run : Run (Steps (step cfg)) (.running init) h p) (hfull : ∀ st ∈ h, NotFull st.before) :
    sentOf (emitted h) <+: receivedOf (emitted h) :=
  (tracks_of_run hloss hcorrupt run hfull).1

/-- The process runs, with nothing in the buffer if the scheduler is on its way to the wait. -/
def Safe (cfg : Config) (p : Process) (received sent : List Msg) : Prop :=
  ∃ s flying waiting, p = .running s ∧ Inv s received sent flying waiting ∧ Quiet cfg s

theorem step_safe (hloss : cfg.loss = 0) (hcorrupt : cfg.corrupt = 0) {p : Process} {a : Act} (hfull : NotFull p)
    (hcare : Careful cfg p a) (hs : Safe cfg p received sent) (h : step cfg p a = some (p', out)) :
    Safe cfg p' (received ++ receivedOf out) (sent ++ sentOf out) := by
  obtain ⟨s, flying, waiting, rfl, hi, hq⟩ := hs
  cases a with
  | scheduler clock address =>
    rcases scheduler_inv hi h with ⟨-, -, hpark, hne⟩ | ⟨s', flying', waiting', rfl, hi'⟩
    · -- at the wait the scheduler is committed, so that the buffer is empty
      have hcommitted : Committed cfg s := by
        rw [Committed, hpark]
        trivial
      have hsize := hq hcommitted
      rw [hi.buffer.size] at hsize
      exact absurd (List.eq_nil_of_length_eq_zero hsize) hne
    · exact ⟨s', flying', waiting', rfl, hi', scheduler_quiet hi hq hcare h⟩
  | forwarding m rand address =>
    obtain ⟨s', flying', waiting', rfl, hi'⟩ := forwarding_inv hloss hcorrupt hfull hi h
    exact ⟨s', flying', waiting', rfl, hi', forwarding_quiet hq hcare h⟩

/-- **No `assert` fails** in a run all of whose steps are careful, and the order is kept. -/
theorem running_of_run (hloss : cfg.loss = 0) (hcorrupt : cfg.corrupt = 0)
    (run : Run (Steps (step cfg)) (.running init) h p) (hfull : ∀ st ∈ h, NotFull st.before)
    (hcare : ∀ st ∈ h, Careful cfg st.before st.input) :
    (∃ s, p = .running s) ∧ sentOf (emitted h) <+: receivedOf (emitted h) := by
  refine ⟨?_, order_of_run hloss hcorrupt run hfull⟩
  have hsafe := run.history (E := fun p a => NotFull p ∧ Careful cfg p a)
    (P := fun h p => Safe cfg p (receivedOf (emitted h)) (sentOf (emitted h)))
    ⟨init, [], [], rfl, inv_init, fun hc => hc.elim⟩ (fun h p a p' out hs hok hstep => ?_)
    (fun st hst => ⟨hfull st hst, hcare st hst⟩)
  · obtain ⟨s, -, -, rfl, -⟩ := hsafe
    exact ⟨s, rfl⟩
  · have hnext := step_safe hloss hcorrupt hok.1 hok.2 hs hstep
    rwa [← receivedOf_append, ← sentOf_append] at hnext

/-! ### Steps against the condition -/

/-- The scheduler goes on alone, without output. -/
def Alone (cfg : Config) (p p' : Process) : Prop :=
  ∃ clock address, step cfg p (.scheduler clock address) = some (p', [])

/-- How many statements there are in front of the wait. -/
def Pc.distance : Pc → ℕ
  | .assertM => 7
  | .setFinish => 6
  | .resetWaits => 6
  | .enqueueInFlight => 5
  | .test => 5
  | .waitIdle => 4
  | .waitSend => 3
  | .decide => 2
  | .park => 1
  | _ => 0

/-- On the way to the wait, the next statement leads closer to it, or is the failing `assert`. -/
theorem committed_step (hi : Inv s received sent flying waiting) (hc : Committed cfg s) (hne : s.buffer.size ≠ 0) :
    Alone cfg (.running s) .aborted ∨ ∃ s', Alone cfg (.running s) (.running s') ∧ Committed cfg s' ∧
      s'.buffer = s.buffer ∧ s'.pc.distance < s.pc.distance := by
  have hcontrol := hi.control
  obtain ⟨pc, crtTime, idleTime, waitTimeIdle, waitTimeSend, stuff, mif, inFlight, fw, buffer⟩ := s
  cases pc with
  | resetWaits => exact Or.inr ⟨_, ⟨0, 0, rfl⟩, hc, rfl, Nat.lt_succ_self 5⟩
  | test =>
    obtain ⟨rfl, hidle, hdue⟩ := hc
    have hno : ¬ (false = true ∧ idleTime ≤ crtTime) := fun h => by cases h.1
    refine Or.inr ⟨⟨.waitIdle, crtTime, idleTime, waitTimeIdle, waitTimeSend, false, mif, inFlight, fw, buffer⟩,
      ⟨0, 0, ?_⟩, ⟨hidle, hdue⟩, rfl, Nat.lt_succ_self 4⟩
    simp only [step, scheduler, if_neg hno]
    rfl
  | assertM =>
    obtain ⟨m, time, rfl⟩ := hcontrol
    exact Or.inr ⟨_, ⟨0, 0, rfl⟩, hc, rfl, Nat.lt_succ_self 6⟩
  | setFinish =>
    obtain ⟨m, time, rfl⟩ := hcontrol
    refine Or.inr ⟨_, ⟨0, 0, rfl⟩, ⟨hc.1, ?_⟩, rfl, Nat.lt_succ_self 5⟩
    have hlast := finishTime_sub cfg crtTime
    show due _ (crtTime + cfg.serializationDelay + cfg.delay - crtTime) ≤ 0
    rw [hlast]
    exact hc.2
  | enqueueInFlight =>
    obtain ⟨m, time, rfl⟩ := hcontrol
    obtain ⟨address, hfresh⟩ := hi.inFlight.exists_fresh
    obtain ⟨q', hq', hholds⟩ := hi.inFlight.enqueue hfresh ⟨some m, time⟩
    have hheap : inFlight.heap address = none := hfresh
    refine Or.inr ⟨⟨.waitIdle, crtTime, idleTime, waitTimeIdle, waitTimeSend, stuff, some ⟨some m, time⟩, q', fw,
      buffer⟩, ⟨0, address, ?_⟩, ⟨hc.1, ?_⟩, rfl, Nat.lt_succ_self 4⟩
    · simp only [step, scheduler, hheap, Option.isSome_none, hq']
      rfl
    · exact (due_enqueue hi.inFlight hholds .waitIdle waitTimeSend).trans_le hc.2
  | waitIdle =>
    refine Or.inr ⟨_, ⟨0, 0, rfl⟩, ⟨?_, hc.2⟩, rfl, Nat.lt_succ_self 3⟩
    have hidle : idleTime ≤ crtTime := hc.1
    show idleTime - crtTime ≤ 0
    omega
  | waitSend =>
    cases flying with
    | nil =>
      have hsize : inFlight.size = 0 := hi.inFlight.size
      refine Or.inr ⟨⟨.decide, crtTime, idleTime, waitTimeIdle, waitTimeSend, stuff, mif, inFlight, fw, buffer⟩,
        ⟨0, 0, ?_⟩, ⟨hc.1, ?_⟩, rfl, Nat.lt_succ_self 2⟩
      · simp only [step, scheduler, hsize]
        rfl
      · have hdue := hc.2
        rw [due_eq hi.inFlight] at hdue
        exact hdue
    | cons e flying =>
      have hsize : inFlight.size = flying.length + 1 := hi.inFlight.size
      have hoff : inFlight.oldest = some e := hi.inFlight.oldest
      refine Or.inr ⟨⟨.decide, crtTime, idleTime, waitTimeIdle, e.finishTime - crtTime, stuff, mif, inFlight, fw,
        buffer⟩, ⟨0, 0, ?_⟩, ⟨hc.1, ?_⟩, rfl, Nat.lt_succ_self 2⟩
      · simp only [step, scheduler, hsize, Nat.succ_pos, if_true, hoff]
        rfl
      · have hdue := hc.2
        rw [due_eq hi.inFlight] at hdue
        exact hdue
  | decide =>
    have hwait : ¬ (0 < waitTimeIdle ∨ 0 < waitTimeSend) := by
      rw [not_or, not_lt, not_lt]
      exact hc
    refine Or.inr ⟨⟨.park, crtTime, idleTime, waitTimeIdle, waitTimeSend, stuff, mif, inFlight, fw, buffer⟩, ⟨0, 0, ?_⟩,
      trivial, rfl, Nat.lt_succ_self 1⟩
    simp only [step, scheduler, if_neg hwait]
    rfl
  | park =>
    have hsize : ¬ buffer.size = 0 := hne
    exact Or.inl ⟨0, 0, by simp only [step, scheduler, if_neg hsize]; rfl⟩
  | _ => exact hc.elim

/-- On its way to the wait with a message in the buffer, the scheduler alone runs into the failing `assert`. -/
theorem abort_of_committed (hi : Inv s received sent flying waiting) (hc : Committed cfg s) (hne : s.buffer.size ≠ 0) :
    Relation.ReflTransGen (Alone cfg) (.running s) .aborted := by
  induction hn : s.pc.distance using Nat.strong_induction_on generalizing s flying waiting with
  | _ n ih =>
    rcases committed_step hi hc hne with habort | ⟨s', hstep, hc', hbuffer, hlt⟩
    · exact .single habort
    · obtain ⟨clock, address, hs'⟩ := hstep
      rcases scheduler_inv hi hs' with ⟨heq, -⟩ | ⟨s'', flying', waiting', heq, hi'⟩
      · cases heq
      · obtain rfl := Process.running.inj heq
        have hi'' : Inv s' received sent flying' waiting' := by
          simpa [receivedOf, sentOf] using hi'
        exact .head ⟨clock, address, hs'⟩ (ih _ (hn ▸ hlt) hi'' hc' (hbuffer ▸ hne) rfl)

/-- **The condition is exact**: after a step against it, the scheduler on its own runs into the failing `assert`. -/
theorem abort_of_careless (hloss : cfg.loss = 0) (hcorrupt : cfg.corrupt = 0)
    (run : Run (Steps (step cfg)) (.running init) h p) (hfull : ∀ st ∈ h, NotFull st.before) (hroom : NotFull p)
    {a : Act} (hcareless : ¬ Careful cfg p a) (hstep : step cfg p a = some (p', out)) :
    Relation.ReflTransGen (Alone cfg) p' .aborted := by
  cases p with
  | aborted => exact absurd trivial hcareless
  | exited => exact absurd trivial hcareless
  | running s =>
    obtain ⟨flying, waiting, hi⟩ := (tracks_of_run hloss hcorrupt run hfull).2 s rfl
    have hcontrol := hi.control
    obtain ⟨pc, crtTime, idleTime, waitTimeIdle, waitTimeSend, stuff, mif, inFlight, fw, buffer⟩ := s
    cases a with
    | scheduler clock address =>
      simp only [Careful, not_forall, not_or, not_le, not_lt] at hcareless
      obtain ⟨rfl, hmany, hidle, hdue⟩ := hcareless
      obtain ⟨hne, ⟨m, time⟩, rfl⟩ := hcontrol
      obtain ⟨m', waiting', rfl⟩ := List.exists_cons_of_ne_nil hne
      obtain ⟨q', hq', hholds⟩ := hi.buffer.dequeue
      have hsize : q'.size ≠ 0 := by
        have hbefore : buffer.size = waiting'.length + 1 := hi.buffer.size
        rw [hholds.size]
        omega
      have hsched : scheduler cfg clock address
          ⟨.dequeueBuffer, crtTime, idleTime, waitTimeIdle, waitTimeSend, stuff, some ⟨m, time⟩, inFlight, fw, buffer⟩ =
            some (p', out) := hstep
      rcases scheduler_inv hi hsched with ⟨-, -, hpark, -⟩ | ⟨s', flying', waiting'', rfl, hi'⟩
      · cases hpark
      · simp only [step, scheduler, hq'] at hstep
        obtain rfl := Process.running.inj (Prod.mk.inj (Option.some.inj hstep)).1
        exact abort_of_committed hi' ⟨hidle, hdue⟩ hsize
    | forwarding m rand address =>
      simp only [Careful, not_forall, not_not] at hcareless
      obtain ⟨⟨m', rfl⟩, hc⟩ := hcareless
      have hfw : forwarding cfg m rand address
          ⟨pc, crtTime, idleTime, waitTimeIdle, waitTimeSend, stuff, mif, inFlight, .enqueue m', buffer⟩ =
            some (p', out) := hstep
      obtain ⟨s', flying', waiting', rfl, hi'⟩ := forwarding_inv hloss hcorrupt hroom hi hfw
      simp only [step, forwarding] at hstep
      split at hstep
      · cases hstep
      · rename_i hfresh
        rw [Option.not_isSome_iff_eq_none] at hfresh
        obtain ⟨q', hq', hholds⟩ := hi.buffer.enqueue hfresh m'
        simp only [hq'] at hstep
        obtain rfl := Process.running.inj (Prod.mk.inj (Option.some.inj hstep)).1
        refine abort_of_committed hi' hc ?_
        show q'.size ≠ 0
        rw [hholds.size, List.length_append]
        simp

/-! ### Two runs -/

/-- The default parameters. -/
def defaultConfig : Config := ⟨1000, 1000, 0, 0⟩

/-- `run_forwarding` takes a message through. -/
def arrive (m : Msg) : List Act := List.replicate 5 (.forwarding m ⟨0, 0, 0, 0⟩ 0)

/-- The scheduler's next statements, on a clock that stands still. -/
def ticks (n : ℕ) : List Act := List.replicate n (.scheduler 0 0)

instance : DecidablePred NotFull
  | .running s => inferInstanceAs (Decidable (s.buffer.size < BUFFER_SIZE))
  | .aborted => isTrue trivial
  | .exited => isTrue trivial

/-- `run_forwarding` goes on while the scheduler is about to look at the buffer, which never holds two messages. -/
def beforeLook (st : Step Process Act Out) : Bool :=
  match st.before, st.input with
  | .running s, .forwarding .. => s.pc = .sample
  | .running s, .scheduler .. => s.buffer.size ≤ 1
  | _, _ => true

theorem careful_of_beforeLook {cfg : Config} {st : Step Process Act Out} (h : beforeLook st = true) :
    Careful cfg st.before st.input := by
  obtain ⟨p, a, out⟩ := st
  cases p with
  | running s =>
    cases a with
    | scheduler clock address => exact fun _ => Or.inl (of_decide_eq_true h)
    | forwarding m rand address =>
      intro _ hc
      have hpc : s.pc = .sample := of_decide_eq_true h
      rw [Committed, hpc] at hc
      exact hc
  | aborted => cases a <;> trivial
  | exited => cases a <;> trivial

/-- A message that is in the buffer when the scheduler looks is put in flight, and the process runs on. -/
theorem early_message_runs : ∃ h p, Run (Steps (step defaultConfig)) (.running init) h p ∧
    (receivedOf (emitted h)).length = 1 ∧ (∃ s, p = .running s) ∧ sentOf (emitted h) <+: receivedOf (emitted h) := by
  obtain ⟨h, p, run, hcheck⟩ := Run.of_check (step defaultConfig) (.running init)
    (ticks 2 ++ arrive ⟨1, fun _ => 0⟩ ++ ticks 12)
    (fun h _ => h.all beforeLook && h.all (fun st => decide (NotFull st.before)) &&
      decide ((receivedOf (emitted h)).length = 1)) (by decide +kernel)
  rw [Bool.and_eq_true, Bool.and_eq_true, List.all_eq_true, List.all_eq_true] at hcheck
  obtain ⟨⟨hlook, hfull⟩, hone⟩ := hcheck
  exact ⟨h, p, run, of_decide_eq_true hone, running_of_run rfl rfl run (fun st hst => of_decide_eq_true (hfull st hst))
    fun st hst => careful_of_beforeLook (hlook st hst)⟩

/-- **A message between two looks**: the scheduler finds the buffer empty, the message is put into it, and the
scheduler fails the `assert` in front of the wait. -/
theorem late_message_aborts : ∃ h, Run (Steps (step defaultConfig)) (.running init) h .aborted ∧
    ∀ st ∈ h, NotFull st.before := by
  obtain ⟨h, p, run, hcheck⟩ := Run.of_check (step defaultConfig) (.running init)
    (ticks 3 ++ arrive ⟨1, fun _ => 0⟩ ++ ticks 6)
    (fun h p => h.all (fun st => decide (NotFull st.before)) && p matches .aborted) (by decide +kernel)
  rw [Bool.and_eq_true, List.all_eq_true] at hcheck
  obtain ⟨hfull, hend⟩ := hcheck
  cases p with
  | running s => cases hend
  | exited => cases hend
  | aborted => exact ⟨h, run, fun st hst => of_decide_eq_true (hfull st hst)⟩

end Pcom.Lab03.Link
