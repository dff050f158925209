import Mathlib.Data.List.Count
import Pcom.Lab03.Parity

/-!
# The window of `Lab03`

`send.c` sends five messages and then waits for five replies, `COUNT` times over; `recv.c` takes `COUNT` messages in
all.  The two programs and the link are those of `Parity`, in any order, with any bits flipped and messages lost.

* `inv_of_run` — what has been sent is on its way, answered or lost, **in the order of the file**;
* `sender_never_done` — no run gets to the end of the sender, and none has more than 410 steps: it waits for ever;
* `ends_of_run` — without losses **all runs end alike**, however the three take turns: the first 100 pieces have been
  taken and answered, and the sender waits;
* `round_of_lost` — where a message is lost, the sender never leaves the round.
-/

namespace Pcom.Lab03.Window

open Pcom.Lab03.Link (Msg Flip MSGSIZE)
open Pcom.Lab03.Parity
open Pcom.Lib.Memory Pcom.Lib.Scan Pcom.Lib.StepSystem

/-! ### What the three can do -/

/-- The steps of the system, where the replies echo their own parity. -/
inductive Move (s : State) : Act → State → List Check → Prop
  | sends {q i : ℕ} {file : Bytes} (hsender : s.sender = .sending q i file) :
      Move s .sender { s with
        sender := afterSend q i (nextMessage file) (file.drop 4), toLink := s.toLink ++ [nextMessage file] } []
  | hears {q i : ℕ} {t t' : Msg} {file : Bytes} {p : Reply} {toSender : List Reply}
      (hsender : s.sender = .waiting q i t file) (hreply : s.toSender = p :: toSender) :
      Move s .sender { s with sender := afterReply q i t' file, toSender } [⟨p.flight, true, none⟩]
  | forwards {flip : Option Flip} {m : Msg} {toLink : List Msg} (hlink : s.toLink = m :: toLink)
      (hflip : ∀ f ∈ flip, (f.byte : ℤ) < m.len) :
      Move s (.forward flip) { s with toLink, toReceiver := s.toReceiver ++ [⟨m, flip⟩] } []
  | loses {m : Msg} {toLink : List Msg} (hlink : s.toLink = m :: toLink) : Move s .lose { s with toLink } []
  | takes {f : Flight} {r : Msg} {toReceiver : List Flight} (hreceiver : s.toReceiver = f :: toReceiver)
      (htaken : s.taken < COUNT) (hanswer : onMessage f.arrived = some r) :
      Move s .receiver
        { s with taken := s.taken + 1, toReceiver, toSender := s.toSender ++ [⟨f, r⟩] } []

variable {s s' : State} {a : Act} {out : List Check}

theorem move_of_step (hechoes : ∀ p ∈ s.toSender, p.Echoes) (h : step s a = some (s', out)) : Move s a s' out := by
  cases a with
  | sender =>
    simp only [step] at h
    split at h
    · rename_i q i file _ hsender
      cases h
      exact .sends hsender
    · rename_i q i t file p toSender hsender hreply
      split at h
      · cases h
      · cases h
        exact .hears hsender hreply
      · -- no test fails
        rename_i t' hwrong
        cases onReply_correct (hechoes p (hreply ▸ List.mem_cons_self)) hwrong
    · cases h
  | forward flip =>
    simp only [step] at h
    split at h
    · cases h
    · rename_i m toLink hlink
      split at h
      · rename_i hflip
        cases h
        exact .forwards hlink hflip
      · cases h
  | lose =>
    simp only [step] at h
    split at h
    · cases h
    · rename_i m toLink hlink
      cases h
      exact .loses hlink
  | receiver =>
    simp only [step] at h
    split at h
    · cases h
    · rename_i f toReceiver hreceiver
      split at h
      · rename_i htaken
        obtain ⟨r, hanswer, heq⟩ := Option.map_eq_some_iff.mp h
        cases heq
        exact .takes hreceiver htaken hanswer
      · cases h

/-! ### The invariant -/

/-- How many messages the sender has sent, and how many replies it has handled. -/
def sent : Sender → ℕ
  | .sending q i _ => df * q + i
  | .waiting q _ _ _ => df * (q + 1)
  | .done => df * COUNT

def answered : Sender → ℕ
  | .sending q _ _ => df * q
  | .waiting q i _ _ => df * q + i
  | .done => df * COUNT

/-- The pieces of the file, as messages. -/
def piece (inputFile : Bytes) (k : ℕ) : Msg := nextMessage (inputFile.drop (4 * k))

/-- The counters of the sender are in range, and it has read as far as it has sent. -/
def Reading (inputFile : Bytes) : Sender → Prop
  | .sending q i file => i < df ∧ q < COUNT ∧ file = inputFile.drop (4 * (df * q + i))
  | .waiting q i _ file => i < df ∧ q < COUNT ∧ file = inputFile.drop (4 * (df * (q + 1)))
  | .done => False

def Lost (st : Step State Act Check) : Prop := st.input = .lose

instance : DecidablePred Lost := fun st =>
  match hinput : st.input with
  | .lose => .isTrue hinput
  | .sender => .isFalse fun h => by rw [Lost, hinput] at h; cases h
  | .forward _ => .isFalse fun h => by rw [Lost, hinput] at h; cases h
  | .receiver => .isFalse fun h => by rw [Lost, hinput] at h; cases h

/-- How many messages have been lost. -/
def losses (h : List (Step State Act Check)) : ℕ := h.countP fun st => decide (Lost st)

/-- The messages that have been sent, as far as they are not lost. -/
def survivors (h : List (Step State Act Check)) (s : State) : List Msg :=
  (emitted h).map (fun c => c.flight.sent) ++ s.toSender.map (fun p => p.flight.sent) ++
    s.toReceiver.map Flight.sent ++ s.toLink

structure Inv (inputFile : Bytes) (h : List (Step State Act Check)) (s : State) : Prop where
  reading : Reading inputFile s.sender
  order : (survivors h s).Sublist ((List.range (sent s.sender)).map (piece inputFile))
  count : (survivors h s).length + losses h = sent s.sender
  answers : (emitted h).length = answered s.sender
  taken : s.taken = answered s.sender + s.toSender.length
  atMost : s.taken ≤ COUNT
  steps : h.length + s.toLink.length = 2 * sent s.sender + answered s.sender + s.taken
  flips : ∀ f ∈ s.toReceiver, ∀ flip ∈ f.flip, (flip.byte : ℤ) < f.sent.len
  ended : ∀ p ∈ s.toSender, p.msg.payload 4 = 0

theorem inv_start (inputFile : Bytes) : Inv inputFile [] (start inputFile) where
  reading := ⟨by decide, by decide, rfl⟩
  order := List.nil_sublist _
  count := rfl
  answers := rfl
  taken := rfl
  atMost := Nat.zero_le _
  steps := rfl
  flips := fun f hf => (List.not_mem_nil hf).elim
  ended := fun p hp => (List.not_mem_nil hp).elim

variable {inputFile : Bytes} {h : List (Step State Act Check)}

theorem losses_cons (st : Step State Act Check) : losses (st :: h) = losses h + if Lost st then 1 else 0 := by
  rw [losses, List.countP_cons, losses]
  simp only [decide_eq_true_eq]

theorem sent_afterSend {q i : ℕ} (hi : i < df) (t : Msg) (file : Bytes) :
    sent (afterSend q i t file) = df * q + i + 1 ∧ answered (afterSend q i t file) = df * q := by
  rw [afterSend]
  split
  · exact ⟨rfl, rfl⟩
  · refine ⟨?_, rfl⟩
    show df * (q + 1) = df * q + i + 1
    simp only [df] at *
    omega

theorem sent_afterReply {q i : ℕ} (hi : i < df) (hq : q < COUNT) (t : Msg) (file : Bytes) :
    sent (afterReply q i t file) = df * (q + 1) ∧ answered (afterReply q i t file) = df * q + i + 1 := by
  rw [afterReply]
  split
  · exact ⟨rfl, rfl⟩
  · split
    · refine ⟨rfl, ?_⟩
      show df * (q + 1) = df * q + i + 1
      simp only [df] at *
      omega
    · constructor
      · show df * COUNT = df * (q + 1)
        simp only [df, COUNT] at *
        omega
      · show df * COUNT = df * q + i + 1
        simp only [df, COUNT] at *
        omega

/-- A piece, and what the link makes of it, ends after four bytes. -/
theorem piece_ended (k : ℕ) : (piece inputFile k).len ≤ 4 ∧ (piece inputFile k).payload 4 = 0 := by
  constructor
  · show (((inputFile.drop (4 * k)).take 4).length : ℤ) ≤ 4
    rw [List.length_take]
    omega
  · exact ofBytes_of_le (List.length_take_le _ _)

theorem arrived_ended {f : Flight} {k : ℕ} (hpiece : f.sent = piece inputFile k)
    (hflip : ∀ flip ∈ f.flip, (flip.byte : ℤ) < f.sent.len) : f.arrived.payload 4 = 0 := by
  obtain ⟨hlen, hend⟩ : (piece inputFile k).len ≤ 4 ∧ (piece inputFile k).payload 4 = 0 := piece_ended k
  rw [← hpiece] at hlen hend
  obtain ⟨m, flip⟩ := f
  cases flip with
  | none => exact hend
  | some flip =>
    have hbyte := hflip flip rfl
    have hne : 4 ≠ flip.byte := by
      dsimp only at hbyte hlen
      omega
    exact (Function.update_of_ne hne _ _).trans hend

/-- Every message that is not lost is a piece. -/
theorem Inv.exists_piece (hi : Inv inputFile h s) {m : Msg} (hm : m ∈ survivors h s) :
    ∃ k, m = piece inputFile k := by
  obtain ⟨k, -, hk⟩ := List.mem_map.mp (hi.order.subset hm)
  exact ⟨k, hk.symm⟩

theorem Inv.move (hi : Inv inputFile h s) (hmove : Move s a s' out) : Inv inputFile (⟨s, a, out⟩ :: h) s' := by
  have hlosses := losses_cons (h := h) ⟨s, a, out⟩
  obtain ⟨reading, order, count, answers, taken, atMost, steps, flips, ended⟩ := hi
  cases hmove with
  | @sends q i file hsender =>
    rw [hsender] at reading order count answers taken steps
    obtain ⟨hlt, hq, rfl⟩ := reading
    obtain ⟨hsent, hanswered⟩ := sent_afterSend hlt (nextMessage (inputFile.drop (4 * (df * q + i))))
      ((inputFile.drop (4 * (df * q + i))).drop 4) (q := q)
    have hnew : survivors (⟨s, .sender, []⟩ :: h) { s with
        sender := afterSend q i (nextMessage (inputFile.drop (4 * (df * q + i))))
          ((inputFile.drop (4 * (df * q + i))).drop 4)
        toLink := s.toLink ++ [nextMessage (inputFile.drop (4 * (df * q + i)))] } =
        survivors h s ++ [piece inputFile (df * q + i)] := by
      simp only [survivors, emitted, List.append_nil, piece, List.append_assoc]
    have hlost : ¬ Lost ⟨s, .sender, []⟩ := fun hlose => by cases hlose
    rw [if_neg hlost] at hlosses
    simp only [sent, answered] at order count answers taken steps
    refine ⟨?_, ?_, ?_, ?_, ?_, atMost, ?_, flips, ended⟩
    · show Reading inputFile (afterSend q i _ _)
      rw [afterSend]
      split
      · rename_i hnext
        refine ⟨hnext, hq, ?_⟩
        rw [List.drop_drop]
        congr 1
      · refine ⟨by decide, hq, ?_⟩
        rw [List.drop_drop]
        simp only [df] at *
        congr 1
        omega
    · rw [hnew]
      show List.Sublist _ ((List.range (sent (afterSend q i _ _))).map _)
      rw [hsent, List.range_succ, List.map_append]
      exact order.append (List.Sublist.refl _)
    · rw [hnew, hlosses, List.length_append]
      show _ = sent (afterSend q i _ _)
      rw [hsent, List.length_singleton]
      omega
    · show (emitted h ++ []).length = answered (afterSend q i _ _)
      rw [hanswered, List.append_nil, answers]
    · show s.taken = answered (afterSend q i _ _) + s.toSender.length
      rw [hanswered, taken]
    · show h.length + 1 + (s.toLink ++ [_]).length =
        2 * sent (afterSend q i _ _) + answered (afterSend q i _ _) + s.taken
      rw [hsent, hanswered, List.length_append, List.length_singleton]
      omega
  | @hears q i t t' file p toSender hsender hreply =>
    rw [hsender] at reading order count answers taken steps
    obtain ⟨hlt, hq, rfl⟩ := reading
    rw [hreply, List.length_cons] at taken
    obtain ⟨hsent, hanswered⟩ := sent_afterReply hlt hq t' (inputFile.drop (4 * (df * (q + 1))))
    have hsame : survivors (⟨s, .sender, [⟨p.flight, true, none⟩]⟩ :: h) { s with
        sender := afterReply q i t' (inputFile.drop (4 * (df * (q + 1)))), toSender } = survivors h s := by
      simp only [survivors, emitted, hreply, List.map_append, List.map_cons, List.map_nil, List.append_assoc,
        List.cons_append, List.nil_append]
    have hlost : ¬ Lost ⟨s, .sender, [⟨p.flight, true, none⟩]⟩ := fun hlose => by cases hlose
    rw [if_neg hlost] at hlosses
    simp only [sent, answered] at order count answers taken steps
    refine ⟨?_, ?_, ?_, ?_, ?_, atMost, ?_, flips, ?_⟩
    · show Reading inputFile (afterReply q i _ _)
      rw [afterReply]
      split
      · rename_i hnext
        exact ⟨hnext, hq, rfl⟩
      · -- the receiver has answered too few messages for the last round
        have hround : q + 1 < COUNT := by
          simp only [COUNT, df] at *
          omega
        rw [if_pos hround]
        exact ⟨by decide, hround, rfl⟩
    · rw [hsame]
      show List.Sublist _ ((List.range (sent (afterReply q i _ _))).map _)
      rw [hsent]
      exact order
    · rw [hsame, hlosses]
      show _ = sent (afterReply q i _ _)
      rw [hsent]
      exact count
    · show (emitted h ++ [_]).length = answered (afterReply q i _ _)
      rw [hanswered, List.length_append, answers]
      rfl
    · show s.taken = answered (afterReply q i _ _) + toSender.length
      rw [hanswered]
      omega
    · show h.length + 1 + s.toLink.length = 2 * sent (afterReply q i _ _) + answered (afterReply q i _ _) + s.taken
      rw [hsent, hanswered]
      omega
    · intro p' hp'
      exact ended p' (hreply ▸ List.mem_cons_of_mem _ hp')
  | @forwards flip m toLink hlink hflip =>
    have hsame : survivors (⟨s, .forward flip, []⟩ :: h)
        { s with toLink, toReceiver := s.toReceiver ++ [⟨m, flip⟩] } = survivors h s := by
      simp only [survivors, emitted, hlink, List.map_append, List.map_cons, List.map_nil, List.append_assoc,
        List.cons_append, List.nil_append, List.append_nil]
    have hlost : ¬ Lost ⟨s, .forward flip, []⟩ := fun hlose => by cases hlose
    rw [if_neg hlost] at hlosses
    rw [hlink, List.length_cons] at steps
    refine ⟨reading, hsame ▸ order, ?_, ?_, taken, atMost, ?_, ?_, ended⟩
    · rw [hsame, hlosses]
      exact count
    · show (emitted h ++ []).length = answered s.sender
      rw [List.append_nil, answers]
    · show h.length + 1 + toLink.length = 2 * sent s.sender + answered s.sender + s.taken
      omega
    · intro f hf
      rcases List.mem_append.mp hf with hf | hf
      · exact flips f hf
      · rw [List.mem_singleton.mp hf]
        exact hflip
  | @loses m toLink hlink =>
    have hold : survivors h s = survivors (⟨s, .lose, []⟩ :: h) { s with toLink := [m] } ++ toLink := by
      simp only [survivors, emitted, hlink, List.append_assoc, List.cons_append, List.nil_append, List.append_nil]
    have hnew : survivors (⟨s, .lose, []⟩ :: h) { s with toLink } =
        survivors (⟨s, .lose, []⟩ :: h) { s with toLink := [] } ++ toLink := by
      simp only [survivors, List.append_nil]
    have hlost : Lost ⟨s, .lose, []⟩ := rfl
    rw [if_pos hlost] at hlosses
    rw [hlink, List.length_cons] at steps
    refine ⟨reading, ?_, ?_, ?_, taken, atMost, ?_, flips, ended⟩
    · refine List.Sublist.trans ?_ order
      rw [hnew, hold]
      refine List.Sublist.append ?_ (List.Sublist.refl _)
      exact List.Sublist.append (List.Sublist.refl _) (List.nil_sublist _)
    · rw [hold] at count
      rw [hnew, hlosses]
      simp only [survivors, List.length_append, List.length_nil, List.length_singleton] at count ⊢
      omega
    · show (emitted h ++ []).length = answered s.sender
      rw [List.append_nil, answers]
    · show h.length + 1 + toLink.length = 2 * sent s.sender + answered s.sender + s.taken
      omega
  | @takes f r toReceiver hreceiver htaken hanswer =>
    have hpiece : ∃ k, f.sent = piece inputFile k := by
      have hmem : f.sent ∈ survivors h s := by
        rw [survivors, hreceiver]
        simp
      obtain ⟨k, -, hk⟩ := List.mem_map.mp (order.subset hmem)
      exact ⟨k, hk.symm⟩
    obtain ⟨k, hpiece⟩ := hpiece
    have hsame : survivors (⟨s, .receiver, []⟩ :: h)
        { s with taken := s.taken + 1, toReceiver, toSender := s.toSender ++ [⟨f, r⟩] } = survivors h s := by
      simp only [survivors, emitted, hreceiver, List.map_append, List.map_cons, List.map_nil, List.append_assoc,
        List.cons_append, List.nil_append, List.append_nil]
    have hlost : ¬ Lost ⟨s, .receiver, []⟩ := fun hlose => by cases hlose
    rw [if_neg hlost] at hlosses
    refine ⟨reading, hsame ▸ order, ?_, ?_, ?_, htaken, ?_, ?_, ?_⟩
    · rw [hsame, hlosses]
      exact count
    · show (emitted h ++ []).length = answered s.sender
      rw [List.append_nil, answers]
    · show s.taken + 1 = answered s.sender + (s.toSender ++ [_]).length
      rw [List.length_append, List.length_singleton, taken, Nat.add_assoc]
    · show h.length + 1 + s.toLink.length = 2 * sent s.sender + answered s.sender + (s.taken + 1)
      omega
    · intro f' hf'
      exact flips f' (hreceiver ▸ List.mem_cons_of_mem _ hf')
    · intro p hp
      rcases List.mem_append.mp hp with hp | hp
      · exact ended p hp
      · obtain rfl := List.mem_singleton.mp hp
        obtain ⟨sum, -, rfl⟩ := Option.map_eq_some_iff.mp hanswer
        exact arrived_ended hpiece (flips f (hreceiver ▸ List.mem_cons_self))

/-- **In every run** the messages sent are on their way, answered or lost, in the order of the file. -/
theorem inv_of_run (run : Run (Steps step) (start inputFile) h s) : Inv inputFile h s := by
  induction run with
  | start => exact inv_start inputFile
  | next prev hstep ih => exact ih.move (move_of_step (echoed_of_run prev).1 hstep)

/-! ### The end of a run -/

/-- A payload that ends after four bytes is a string. -/
theorem strlen_ended {payload : Buf} (hend : payload 4 = 0) : ∃ n, n ≤ 4 ∧ strlen payload = some n := by
  have hle : (cString (bytes payload 0 MSGSIZE)).length ≤ 4 := by
    by_contra hlong
    have hlt : 4 < (cString (bytes payload 0 MSGSIZE)).length := not_le.mp hlong
    have hfront : cString (bytes payload 0 MSGSIZE) <+: bytes payload 0 MSGSIZE := List.takeWhile_prefix _
    have hzero : (cString (bytes payload 0 MSGSIZE))[4] = 0 := by
      rw [hfront.getElem hlt]
      simpa [bytes] using hend
    exact noNul_cString _ _ (List.getElem_mem hlt) hzero
  refine ⟨_, hle, ?_⟩
  have htake : (bytes payload 0 MSGSIZE).take MSGSIZE = bytes payload 0 MSGSIZE :=
    List.take_of_length_le (length_bytes payload 0 MSGSIZE).le
  rw [strlen, bufferString, htake, if_pos (lt_of_le_of_lt hle (by decide))]
  rfl

theorem onMessage_isSome {r : Msg} (hend : r.payload 4 = 0) : (onMessage r).isSome := by
  obtain ⟨n, -, hn⟩ := strlen_ended hend
  rw [onMessage, Option.isSome_map, parity, Option.isSome_map, hn]
  rfl

theorem onReply_isSome (t : Msg) {p : Msg} (hend : p.payload 4 = 0) : (onReply t p).isSome := by
  obtain ⟨n, hle, hn⟩ := strlen_ended hend
  have hover : overwrite p.payload (bytes t.payload 0 n) 4 = 0 := by
    rw [overwrite_of_le (by rw [length_bytes]; exact hle)]
    exact hend
  obtain ⟨len, -, hlen⟩ := strlen_ended hover
  simp only [onReply, parity, hn, Option.map_some, Option.bind_eq_bind, Option.bind_some, hlen]
  rfl

theorem Inv.not_done (hi : Inv inputFile h s) : s.sender ≠ .done := fun hdone => by
  have hreading := hi.reading
  rw [hdone] at hreading
  exact hreading

/-- **Nobody can go on** exactly when the sender waits, nothing is on its way to the receiver or back, or the receiver
has taken all the messages it takes. -/
theorem stuck_iff (hi : Inv inputFile h s) : (∀ a, step s a = none) ↔
    (∃ q i t file, s.sender = .waiting q i t file) ∧ s.toLink = [] ∧ s.toSender = [] ∧
      (s.toReceiver = [] ∨ s.taken = COUNT) := by
  constructor
  · intro hstuck
    have hlink : s.toLink = [] := by
      by_contra hne
      obtain ⟨m, toLink, hm⟩ := List.exists_cons_of_ne_nil hne
      have hlose := hstuck .lose
      rw [step, hm] at hlose
      cases hlose
    have hwaiting : ∃ q i t file, s.sender = .waiting q i t file := by
      have hsend := hstuck .sender
      rcases hsender : s.sender with ⟨q, i, file⟩ | ⟨q, i, t, file⟩ | _
      · rw [step, hsender] at hsend
        cases hsend
      · exact ⟨q, i, t, file, rfl⟩
      · exact (hi.not_done hsender).elim
    refine ⟨hwaiting, hlink, ?_, ?_⟩
    · by_contra hne
      obtain ⟨p, toSender, hp⟩ := List.exists_cons_of_ne_nil hne
      obtain ⟨q, i, t, file, hsender⟩ := hwaiting
      have hsend := hstuck .sender
      have hreply := onReply_isSome t (hi.ended p (hp ▸ List.mem_cons_self))
      rw [step, hsender, hp] at hsend
      dsimp only at hsend
      rcases hcase : onReply t p.msg with _ | ⟨_ | _, t'⟩
      · rw [hcase] at hreply
        cases hreply
      · rw [hcase] at hsend
        cases hsend
      · rw [hcase] at hsend
        cases hsend
    · by_contra hnot
      obtain ⟨hne, hcount⟩ := not_or.mp hnot
      obtain ⟨f, toReceiver, hf⟩ := List.exists_cons_of_ne_nil hne
      obtain ⟨k, hpiece⟩ : ∃ k, f.sent = piece inputFile k := by
        refine hi.exists_piece ?_
        rw [survivors, hf]
        simp
      have hanswer := onMessage_isSome (arrived_ended hpiece (hi.flips f (hf ▸ List.mem_cons_self)))
      obtain ⟨r, hr⟩ := Option.isSome_iff_exists.mp hanswer
      have htake := hstuck .receiver
      rw [step, hf] at htake
      dsimp only at htake
      rw [if_pos (lt_of_le_of_ne hi.atMost hcount), hr] at htake
      cases htake
  · rintro ⟨⟨q, i, t, file, hsender⟩, hlink, hback, hreceiver⟩ a
    cases a with
    | sender => rw [step, hsender, hback]
    | forward flip => rw [step, hlink]
    | lose => rw [step, hlink]
    | receiver =>
      rcases hreceiver with hnil | hcount
      · rw [step, hnil]
      · rw [step]
        split
        · rfl
        · rw [if_neg (by omega)]

/-- At most a window is not answered. -/
theorem sent_le_answered {sender : Sender} (hreading : Reading inputFile sender) :
    sent sender ≤ answered sender + df := by
  rcases sender with ⟨q, i, file⟩ | ⟨q, i, t, file⟩ | _
  · have hi : i < df := hreading.1
    simp only [sent, answered]
    omega
  · simp only [sent, answered, df]
    omega
  · exact hreading.elim

/-- The receiver answers 100 messages, so that 105 are sent at most. -/
theorem Inv.bounds (hi : Inv inputFile h s) : sent s.sender ≤ 105 ∧ h.length ≤ 410 := by
  have hwindow := sent_le_answered hi.reading
  have htaken := hi.taken
  have hatMost := hi.atMost
  have hsteps := hi.steps
  simp only [df, COUNT] at hwindow hatMost
  omega

/-- Every run can be continued to its end without a loss. -/
theorem exists_end (run : Run (Steps step) (start inputFile) h s) :
    ∃ more s', Run (Steps step) (start inputFile) (more ++ h) s' ∧ losses (more ++ h) = losses h ∧
      ∀ a, step s' a = none := by
  induction hleft : 410 - h.length using Nat.strong_induction_on generalizing h s with
  | _ left ih =>
    by_cases hstuck : ∀ a, step s a = none
    · exact ⟨[], s, run, rfl, hstuck⟩
    · have hgo : ∃ a s' out, step s a = some (s', out) ∧ a ≠ .lose := by
        obtain ⟨a, ha⟩ := not_forall.mp hstuck
        by_cases hlose : a = .lose
        · -- what can be lost can be forwarded
          subst hlose
          rcases hlink : s.toLink with _ | ⟨m, toLink⟩
          · rw [step, hlink] at ha
            exact absurd rfl ha
          · have hforward : step s (.forward none) =
                some ({ s with toLink, toReceiver := s.toReceiver ++ [⟨m, none⟩] }, []) := by
              rw [step, hlink]
              exact if_pos fun f hf => by cases hf
            exact ⟨.forward none, _, [], hforward, fun heq => by cases heq⟩
        · obtain ⟨⟨s', out⟩, hstep⟩ := Option.ne_none_iff_exists'.mp ha
          exact ⟨a, s', out, hstep, hlose⟩
      obtain ⟨a, s', out, hstep, hlose⟩ := hgo
      have hnext : Run (Steps step) (start inputFile) (⟨s, a, out⟩ :: h) s' := run.next hstep
      have hbound := (inv_of_run hnext).bounds.2
      rw [List.length_cons] at hbound
      obtain ⟨more, s'', hrun, hlosses, hend⟩ := ih (410 - (h.length + 1)) (by omega) hnext rfl
      refine ⟨more ++ [⟨s, a, out⟩], s'', ?_, ?_, hend⟩
      · rw [List.append_assoc]
        exact hrun
      · have hkept : ¬ Lost ⟨s, a, out⟩ := hlose
        rw [List.append_assoc, List.singleton_append, hlosses, losses_cons, if_neg hkept, Nat.add_zero]

/-- **The sender is never done**: the receiver answers 100 messages, which is 20 rounds; the 21 windows sent make 105
messages.  So every run is finite, and where it cannot go on the sender waits for a reply. -/
theorem sender_never_done (run : Run (Steps step) (start inputFile) h s) :
    s.sender ≠ .done ∧ sent s.sender ≤ 105 ∧ h.length ≤ 410 ∧
      ((∀ a, step s a = none) → ∃ q i t file, s.sender = .waiting q i t file) := by
  have hi := inv_of_run run
  exact ⟨hi.not_done, hi.bounds.1, hi.bounds.2, fun hstuck => ((stuck_iff hi).mp hstuck).1⟩

/-- The first five messages are all lost: the sender waits at the end. -/
theorem window_not_done : ∃ h s, Run (Steps step) (start (ascii "abcd")) h s ∧ losses h = 5 ∧
    (∀ a, step s a = none) ∧ ∃ q i t file, s.sender = .waiting q i t file := by
  obtain ⟨h, s, run, hcheck⟩ := Run.of_check step (start (ascii "abcd"))
    (List.replicate 5 .sender ++ List.replicate 5 .lose) (fun h _ => decide (losses h = 5)) (by decide +kernel)
  obtain ⟨more, s', run', hlosses, hstuck⟩ := exists_end run
  exact ⟨_, s', run', hlosses.trans (of_decide_eq_true hcheck), hstuck, (sender_never_done run').2.2.2 hstuck⟩

/-- **How a run ends.**  The sender waits for reply `i` of a round of which the other messages are lost or left with
the receiver; without losses it is the 21st round, and the first 100 pieces have been taken and answered in order. -/
theorem ends_of_run (run : Run (Steps step) (start inputFile) h s) (hstuck : ∀ a, step s a = none) :
    ∃ q i t file, s.sender = .waiting q i t file ∧ s.taken = df * q + i ∧
      i + losses h + s.toReceiver.length = df ∧
      (losses h = 0 → q = 20 ∧ i = 0 ∧ h.length = 410 ∧
        (emitted h).map (fun c => c.flight.sent) = (List.range COUNT).map (piece inputFile)) := by
  have hi := inv_of_run run
  obtain ⟨⟨q, i, t, file, hsender⟩, hlink, hback, hreceiver⟩ := (stuck_iff hi).mp hstuck
  obtain ⟨reading, order, count, answers, taken, atMost, steps, -, -⟩ := hi
  rw [hsender] at reading order count answers taken steps
  rw [hback] at taken
  rw [hlink] at steps
  have hsurvivors : (survivors h s).length = (emitted h).length + s.toReceiver.length := by
    simp [survivors, hlink, hback]
  rw [hsurvivors, answers] at count
  obtain ⟨hlt, -, -⟩ := reading
  refine ⟨q, i, t, file, hsender, taken, ?_, fun hlossless => ?_⟩
  · simp only [sent, answered, df] at count ⊢
    omega
  · -- the receiver has left messages, so it has taken all it takes
    have hfull : s.taken = COUNT := by
      refine hreceiver.resolve_left fun hnil => ?_
      rw [hnil, hlossless] at count
      simp only [sent, answered, df, List.length_nil] at count hlt
      omega
    simp only [sent, answered, df, COUNT, List.length_nil] at count taken steps hlt hfull
    have hq : q = 20 := by omega
    have hi : i = 0 := by omega
    refine ⟨hq, hi, by omega, ?_⟩
    have hall : survivors h s = (List.range (sent (.waiting q i t file))).map (piece inputFile) := by
      refine order.eq_of_length ?_
      rw [hsurvivors, answers, List.length_map, List.length_range]
      simp only [sent, answered, df]
      omega
    have hfirst : (emitted h).map (fun c => c.flight.sent) = (survivors h s).take COUNT := by
      have hlength : ((emitted h).map fun c => c.flight.sent).length = COUNT := by
        rw [List.length_map, answers, hq, hi]
        rfl
      rw [← hlength, survivors, List.append_assoc, List.append_assoc, List.take_left]
    rw [hfirst, hall, ← List.map_take, List.take_range, hq]
    rfl

/-- The file `abcd`, with nothing lost: all runs come to this end. -/
theorem abcd_ends : ∃ h s, Run (Steps step) (start (ascii "abcd")) h s ∧ losses h = 0 ∧ h.length = 410 ∧
    (∃ t file, s.sender = .waiting 20 0 t file) ∧
    (emitted h).map (fun c => c.flight.sent) = (List.range COUNT).map (piece (ascii "abcd")) := by
  have hstart : Run (Steps step) (start (ascii "abcd")) [] (start (ascii "abcd")) := .start
  obtain ⟨h, s, run, hlosses, hstuck⟩ := exists_end hstart
  rw [show losses [] = 0 from rfl] at hlosses
  obtain ⟨q, i, t, file, hsender, -, -, hlossless⟩ := ends_of_run run hstuck
  obtain ⟨rfl, rfl, hlength, hacknowledged⟩ := hlossless hlosses
  exact ⟨_, s, run, hlosses, hlength, ⟨t, file, hsender⟩, hacknowledged⟩

/-! ### Losses -/

/-- The round the sender is in. -/
def round : Sender → ℕ
  | .sending q _ _ => q
  | .waiting q _ _ _ => q
  | .done => COUNT

/-- **A lost message stops the sender** in the round in which it is lost. -/
theorem round_of_lost (run : Run (Steps step) (start inputFile) h s) {st : Step State Act Check} (hst : st ∈ h)
    (hlost : Lost st) : round s.sender = round st.before.sender := by
  induction run with
  | start => exact (List.not_mem_nil hst).elim
  | @next h s s' a out prev hstep ih =>
    have hi := inv_of_run prev
    have hmove := move_of_step (echoed_of_run prev).1 hstep
    rcases List.mem_cons.mp hst with rfl | hold
    · obtain rfl : a = .lose := hlost
      cases hmove
      rfl
    · rw [← ih hold]
      have hpos : 0 < losses h := List.countP_pos_iff.mpr ⟨st, hold, decide_eq_true hlost⟩
      cases hmove with
      | sends hsender =>
        rw [hsender]
        show round (afterSend _ _ _ _) = _
        rw [afterSend]
        split <;> rfl
      | @hears q i t t' file p toSender hsender hreply =>
        obtain ⟨reading, order, count, answers, taken, -, -, -, -⟩ := hi
        rw [hsender] at reading count answers
        have hsurvivors : (emitted h).length + 1 ≤ (survivors h s).length := by
          simp only [survivors, hreply, List.length_append, List.length_map, List.length_cons]
          omega
        -- the lost message is missing among the replies, so this is not the last one
        have hmore : i + 1 < 5 := by
          simp only [sent, answered, df] at count answers
          omega
        rw [hsender]
        show round (afterReply _ _ _ _) = _
        rw [afterReply, if_pos hmore]
        rfl
      | forwards => rfl
      | loses => rfl
      | takes => rfl

/-- The first message is lost, and whatever comes then, the sender waits in the first round. -/
theorem first_lost : ∃ h s, Run (Steps step) (start (ascii "abcd")) h s ∧ (∀ a, step s a = none) ∧
    round s.sender = 0 := by
  obtain ⟨h, s, run, hcheck⟩ := Run.of_check step (start (ascii "abcd")) [.sender, .lose]
    (fun h _ => decide (∃ st ∈ h, Lost st ∧ round st.before.sender = 0)) (by decide +kernel)
  obtain ⟨st, hst, hlost, hround⟩ := of_decide_eq_true hcheck
  obtain ⟨more, s', run', -, hstuck⟩ := exists_end run
  exact ⟨_, s', run', hstuck, (round_of_lost run' (List.mem_append_right more hst) hlost).trans hround⟩

end Pcom.Lab03.Window
