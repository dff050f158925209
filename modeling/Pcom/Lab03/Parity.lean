import Pcom.Lab03.Link
import Pcom.Lib.Scan

/-!
# Error detection and retransmission in `Lab03`

`send.c` sends the file in pieces of 4 bytes, five messages at a time, and then takes five replies.  `recv.c`
returns each message as it came in, with its parity in `len`.  The link may flip one bit of a payload on the way to
the receiver; the way back is clean.

* `echoed_of_run` — the invariant: the `len` of a reply is the parity of the very payload the reply carries;
* `detects_iff` — **the exact condition**: the test works on those messages that need none;
* `flipped_bit_accepted` — a flipped bit that is taken for a correct acknowledgement.
-/

namespace Pcom.Lab03.Parity

open Pcom.Lab03.Link (Msg Flip MSGSIZE)
open Pcom.Lib.Memory Pcom.Lib.Scan Pcom.Lib.StepSystem

/-! ### Messages and their parity -/

/-- How many rounds `send.c` makes, and how many messages `recv.c` takes. -/
def COUNT : ℕ := 100

def BITSNR : ℕ := 8

/-- `strlen` of a payload; `none` if there is no terminator in the array. -/
def strlen (payload : Buf) : Option ℕ := (bufferString MSGSIZE (bytes payload 0 MSGSIZE)).map List.length

/-- The loop over the bits of one byte; a `char` is signed. -/
def parityByte (parity : BitVec 32) (c : UInt8) : BitVec 32 :=
  (List.range BITSNR).foldl (fun parity j => parity ^^^ ((1#32 <<< j) &&& c.toBitVec.signExtend 32)) parity

/-- The loop both programs compute the parity with. -/
def parity (payload : Buf) : Option (BitVec 32) :=
  (strlen payload).map fun n => (bytes payload 0 n).foldl parityByte 0

/-! ### The link -/

/-- A message on its way to the receiver: what `send_message` was given, and what the link did to it. -/
structure Flight where
  sent : Msg
  flip : Option Flip

/-- The message as the receiver gets it. -/
def Flight.arrived (f : Flight) : Msg := f.flip.elim f.sent fun flip => flip.apply f.sent

/-- A reply on its way back, and the flight it is the reply to. -/
structure Reply where
  flight : Flight
  msg : Msg

/-! ### The two programs between blocking calls -/

/-- `send.c`: about to send message `i` of round `q`, waiting for reply `i` of the round with `t` the last message
sent, or at its end. -/
inductive Sender
  | sending (q i : ℕ) (inputFile : Bytes)
  | waiting (q i : ℕ) (t : Msg) (inputFile : Bytes)
  | done

/-- The number of messages of a round. -/
def df : ℕ := 5

/-- `memset` and `read`: the next 4 bytes of the file. -/
def nextMessage (inputFile : Bytes) : Msg := ⟨(inputFile.take 4).length, ofBytes (inputFile.take 4)⟩

def afterSend (q i : ℕ) (t : Msg) (inputFile : Bytes) : Sender :=
  if i + 1 < df then .sending q (i + 1) inputFile else .waiting q 0 t inputFile

def afterReply (q i : ℕ) (t : Msg) (inputFile : Bytes) : Sender :=
  if i + 1 < 5 then .waiting q (i + 1) t inputFile
  else if q + 1 < COUNT then .sending (q + 1) 0 inputFile
  else .done

/-- What `send.c` makes of a reply: whether the parity is right, and `t`, the message to send if it is not.
The `memcpy` goes from `t` to `p`, so `t` keeps its bytes, and its `len` is set either way. -/
def onReply (t p : Msg) : Option (Bool × Msg) := do
  let sum ← parity p.payload
  let n ← strlen p.payload
  let len ← strlen (overwrite p.payload (bytes t.payload 0 n))
  some (decide (sum.toInt = p.len), { t with len })

/-- What `recv.c` answers. -/
def onMessage (r : Msg) : Option Msg := (parity r.payload).map fun sum => { r with len := sum.toInt }

/-! ### The system -/

/-- Both programs and the messages on their way; `taken` counts the messages `recv.c` has handled. -/
structure State where
  sender : Sender
  taken : ℕ
  toLink : List Msg
  toReceiver : List Flight
  toSender : List Reply

/-- Who goes on; the link may flip a bit or lose the message. -/
inductive Act
  | sender
  | forward (flip : Option Flip)
  | lose
  | receiver

/-- A reply the sender has handled: the outcome of its test, and the message it sent again. -/
structure Check where
  flight : Flight
  correct : Bool
  resent : Option Msg

/-- Both have called `init`; the message each of them sends there ends at the link, which learns their
addresses from it. -/
def start (inputFile : Bytes) : State := ⟨.sending 0 0 inputFile, 0, [], [], []⟩

/-- One of the three goes on; `none` where it is blocked, at its end, or undefined. -/
def step (s : State) : Act → Option (State × List Check)
  | .sender =>
    match s.sender, s.toSender with
    | .sending q i inputFile, _ =>
      let t := nextMessage inputFile
      some ({ s with sender := afterSend q i t (inputFile.drop 4), toLink := s.toLink ++ [t] }, [])
    | .waiting q i t inputFile, p :: toSender =>
      match onReply t p.msg with
      | none => none
      | some (true, t) =>
        some ({ s with sender := afterReply q i t inputFile, toSender }, [⟨p.flight, true, none⟩])
      | some (false, t) =>
        some ({ s with sender := afterReply q i t inputFile, toSender, toLink := s.toLink ++ [t] },
          [⟨p.flight, false, some t⟩])
    | _, _ => none
  | .forward flip =>
    match s.toLink with
    | [] => none
    | m :: toLink =>
      if ∀ f ∈ flip, (f.byte : ℤ) < m.len then
        some ({ s with toLink, toReceiver := s.toReceiver ++ [⟨m, flip⟩] }, [])
      else none
  | .lose =>
    match s.toLink with
    | [] => none
    | _ :: toLink => some ({ s with toLink }, [])
  | .receiver =>
    match s.toReceiver with
    | [] => none
    | f :: toReceiver =>
      if s.taken < COUNT then
        (onMessage f.arrived).map fun r =>
          ({ s with taken := s.taken + 1, toReceiver, toSender := s.toSender ++ [⟨f, r⟩] }, [])
      else none

/-! ### The specification -/

/-- The bytes of the file a message carries. -/
def chunk (m : Msg) : Bytes := bytes m.payload 0 m.len.toNat

/-- A reply to a non-empty piece of the file without zero bytes. -/
def Check.IsData (c : Check) : Prop := chunk c.flight.sent ≠ [] ∧ NoNul (chunk c.flight.sent)

instance (c : Check) : Decidable c.IsData := inferInstanceAs (Decidable (_ ∧ _))

/-- A flipped bit is found, and the piece sent again; nothing else is. -/
structure Check.Detects (c : Check) : Prop where
  flipped : c.flight.flip ≠ none → c.correct = false ∧ ∃ m, c.resent = some m ∧ chunk m = chunk c.flight.sent
  clean : c.flight.flip = none → c.correct = true ∧ c.resent = none

/-! ### The test of the sender -/

/-- The `len` of the reply is the parity of the payload the reply carries. -/
def Reply.Echoes (p : Reply) : Prop := ∃ sum, parity p.msg.payload = some sum ∧ p.msg.len = sum.toInt

theorem onMessage_echoes {f : Flight} {r : Msg} (h : onMessage f.arrived = some r) : Reply.Echoes ⟨f, r⟩ := by
  obtain ⟨sum, hsum, rfl⟩ := Option.map_eq_some_iff.mp h
  exact ⟨sum, hsum, rfl⟩

/-- **The test never fails**: the sender computes the parity from the payload the receiver computed it from. -/
theorem onReply_correct {t t' : Msg} {p : Reply} {correct : Bool} (hp : p.Echoes)
    (h : onReply t p.msg = some (correct, t')) : correct = true := by
  obtain ⟨sum, hsum, hlen⟩ := hp
  simp only [onReply, hsum, Option.bind_eq_bind, Option.bind_some, Option.bind_eq_some_iff] at h
  obtain ⟨n, -, len, -, heq⟩ := h
  obtain ⟨rfl, -⟩ := Prod.mk.inj (Option.some.inj heq)
  exact decide_eq_true hlen.symm

/-- Everything one of the three can do, as far as replies are concerned. -/
theorem step_replies {s s' : State} {a : Act} {out : List Check} (h : step s a = some (s', out)) :
    (s'.toSender = s.toSender ∧ out = []) ∨
      (∃ f r, onMessage f.arrived = some r ∧ s'.toSender = s.toSender ++ [⟨f, r⟩] ∧ out = []) ∨
      ∃ p toSender t t' correct, s.toSender = p :: toSender ∧ s'.toSender = toSender ∧
        onReply t p.msg = some (correct, t') ∧ out = [⟨p.flight, correct, if correct then none else some t'⟩] := by
  cases a with
  | sender =>
    simp only [step] at h
    split at h
    · cases h
      exact Or.inl ⟨rfl, rfl⟩
    · rename_i q i t inputFile p toSender _ hto
      split at h
      · cases h
      · rename_i t' hreply
        cases h
        exact Or.inr (Or.inr ⟨p, toSender, t, t', true, hto, rfl, hreply, rfl⟩)
      · rename_i t' hreply
        cases h
        exact Or.inr (Or.inr ⟨p, toSender, t, t', false, hto, rfl, hreply, rfl⟩)
    · cases h
  | forward flip =>
    simp only [step] at h
    split at h
    · cases h
    · split at h
      · cases h
        exact Or.inl ⟨rfl, rfl⟩
      · cases h
  | lose =>
    simp only [step] at h
    split at h
    · cases h
    · cases h
      exact Or.inl ⟨rfl, rfl⟩
  | receiver =>
    simp only [step] at h
    split at h
    · cases h
    · rename_i f toReceiver _
      split at h
      · obtain ⟨r, hr, heq⟩ := Option.map_eq_some_iff.mp h
        cases heq
        exact Or.inr (Or.inl ⟨f, r, hr, rfl, rfl⟩)
      · cases h

variable {inputFile : Bytes} {h : List (Step State Act Check)} {s : State}

/-- Whatever the link has flipped and lost, every reply on its way echoes its own parity, and every test so far has
succeeded. -/
theorem echoed_of_run (run : Run (Steps step) (start inputFile) h s) :
    (∀ p ∈ s.toSender, p.Echoes) ∧ ∀ c ∈ emitted h, c.correct = true ∧ c.resent = none := by
  induction run with
  | start => exact ⟨fun p hp => (List.not_mem_nil hp).elim, fun c hc => (List.not_mem_nil hc).elim⟩
  | @next h s s' a out _ hstep ih =>
    obtain ⟨hechoes, htests⟩ := ih
    have hout : ∀ {out : List Check}, (∀ c ∈ out, c.correct = true ∧ c.resent = none) →
        ∀ c ∈ emitted (⟨s, a, out⟩ :: h), c.correct = true ∧ c.resent = none := fun hnew c hc =>
      (List.mem_append.mp hc).elim (htests c) (hnew c)
    rcases step_replies hstep with ⟨hto, rfl⟩ | ⟨f, r, hr, hto, rfl⟩ |
      ⟨p, toSender, t, t', correct, hfrom, hto, hreply, rfl⟩
    · exact ⟨by rwa [hto], hout fun c hc => (List.not_mem_nil hc).elim⟩
    · refine ⟨fun p hp => ?_, hout fun c hc => (List.not_mem_nil hc).elim⟩
      rw [hto, List.mem_append, List.mem_singleton] at hp
      rcases hp with hp | rfl
      · exact hechoes p hp
      · exact onMessage_echoes hr
    · rw [hfrom, List.forall_mem_cons] at hechoes
      obtain rfl := onReply_correct hechoes.1 hreply
      refine ⟨by rw [hto]; exact hechoes.2, hout fun c hc => ?_⟩
      obtain rfl := List.mem_singleton.mp hc
      exact ⟨rfl, rfl⟩

/-- **Errors are detected exactly where there are none**: in every run, the replies to pieces of the file have the
effect they should have if and only if no bit of these pieces was flipped. -/
theorem detects_iff (run : Run (Steps step) (start inputFile) h s) :
    (∀ c ∈ emitted h, c.IsData → c.Detects) ↔ ∀ c ∈ emitted h, c.IsData → c.flight.flip = none := by
  obtain ⟨-, htests⟩ := echoed_of_run run
  refine forall₃_congr fun c hc _ => ⟨fun hdetects => ?_, fun hclean =>
    ⟨fun hflip => absurd hclean hflip, fun _ => htests c hc⟩⟩
  by_contra hflip
  have hwrong := (hdetects.flipped hflip).1
  rw [(htests c hc).1] at hwrong
  cases hwrong

/-- A round of one piece and four empty messages; the link does `flip` to the piece. -/
def oneReply (flip : Option Flip) : List Act := List.replicate 5 .sender ++ [.forward flip, .receiver, .sender]

/-- A piece that comes through as it was sent. -/
theorem clean_piece_accepted : ∃ h s, Run (Steps step) (start (ascii "abcd")) h s ∧
    (∃ c ∈ emitted h, c.IsData) ∧ ∀ c ∈ emitted h, c.IsData → c.Detects := by
  obtain ⟨h, s, run, hcheck⟩ := Run.of_check step (start (ascii "abcd")) (oneReply none)
    (fun h _ => decide (∃ c ∈ emitted h, c.IsData) && decide (∀ c ∈ emitted h, c.flight.flip = none))
    (by decide +kernel)
  rw [Bool.and_eq_true] at hcheck
  exact ⟨h, s, run, of_decide_eq_true hcheck.1,
    (detects_iff run).mpr fun c hc _ => of_decide_eq_true hcheck.2 c hc⟩

/-- **A flipped bit passes**: the lowest bit of the first byte is flipped, the receiver acknowledges what it got,
and the sender takes that for a correct acknowledgement. -/
theorem flipped_bit_accepted : ∃ h s, Run (Steps step) (start (ascii "abcd")) h s ∧
    ∃ c ∈ emitted h, c.IsData ∧ c.flight.flip = some ⟨0, 0⟩ ∧ ¬ c.Detects := by
  obtain ⟨h, s, run, hcheck⟩ := Run.of_check step (start (ascii "abcd")) (oneReply (some ⟨0, 0⟩))
    (fun h _ => decide (∃ c ∈ emitted h, c.IsData ∧ c.flight.flip = some ⟨0, 0⟩ ∧ c.correct = true))
    (by decide +kernel)
  obtain ⟨c, hc, hdata, hflip, hcorrect⟩ := of_decide_eq_true hcheck
  refine ⟨h, s, run, c, hc, hdata, hflip, fun hdetects => ?_⟩
  have hwrong := (hdetects.flipped (by simp [hflip])).1
  rw [hcorrect] at hwrong
  cases hwrong

end Pcom.Lab03.Parity
