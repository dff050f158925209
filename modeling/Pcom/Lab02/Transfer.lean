import Pcom.Lib.Memory
import Pcom.Lib.StepSystem
import Pcom.Lib.Words

/-!
# The file transfer of `Lab02`

`send.c` announces the size of `send.txt` in a text, and then sends the file in pieces, each of which `recv.c`
acknowledges.  The two run concurrently over a link that delivers every message in order and unchanged.

* `stage_of_run` — **if the announced size is right**, every interleaving is a strict alternation, for files of
  any length and any number of pieces;
* `onHeader_header` — what `recv.c` reads from the announcement: the first two characters of the number;
* `faithful_iff` — **the exact condition** under which the transfer is faithful: fewer than 100 bytes.
-/

namespace Pcom.Lab02.Transfer

open Pcom.Lib.Memory Pcom.Lib.Scan Pcom.Lib.StepSystem

/-! ### Messages -/

def MAX_LEN : ℕ := 1400

def SEND_FILE_NAME : Bytes := ascii "send.txt"

/-- `msg`: a message is sent whole, whatever its `len`. -/
structure Msg where
  len : ℕ
  payload : Buf

/-- `snprintf`: as many characters as leave room for the terminator. -/
def snprintf (n : ℕ) (text : Bytes) : Bytes := text.take (n - 1) ++ [0]

/-- The first message of `send.c`, over what the variable `t` held. -/
def header (t : Msg) (sendTxt : Bytes) : Msg :=
  let inputFileSize := toInt sendTxt.length
  let payload := overwrite t.payload (snprintf 12 (SEND_FILE_NAME ++ 32 :: printInt inputFileSize))
  ⟨(cString (bytes payload 0 MAX_LEN)).length + 1, payload⟩

/-- The answer of `recv.c`. -/
def ack : Msg := ⟨4, ofBytes (ascii "ACK")⟩

/-! ### The two programs between blocking calls -/

/-- `send.c`: before its first message, waiting for an acknowledgement with this rest of the file unread, or at its
end.  `inLoop` tells the calls of `recv_message` apart: the one in the loop is followed by `memset`. -/
inductive Sender
  | header (t : Msg)
  | waiting (inLoop : Bool) (inputFile : Bytes)
  | closed

/-- `recv.c`: before the first message, waiting in the loop, or at its end. -/
inductive Receiver
  | header
  | waiting (outputFileSize : ℤ) (outputFile : Bytes)
  | closed (outputFileSize : ℤ) (outputFile : Bytes)
  deriving DecidableEq

/-- `send.c` from an acknowledgement to its next message, if the file goes on. -/
def nextPiece (inLoop : Bool) (inputFile : Bytes) (t : Msg) : Option (Msg × Bytes) :=
  let payload := if inLoop then fun _ => 0 else t.payload
  let piece := inputFile.take (MAX_LEN - 1)
  if piece = [] then none
  else some (⟨piece.length, overwrite payload piece⟩, inputFile.drop (MAX_LEN - 1))

/-- `sscanf(r.payload, "%s %d", inputFileName, &outputFileSize)`; the size is uninitialised before. -/
def onHeader (outputFileSize : ℤ) (r : Msg) : Option ℤ := do
  let vals ← sscanf [.word MAX_LEN, .int] (← bufferString MAX_LEN (bytes r.payload 0 MAX_LEN))
  some (intArg vals 1 outputFileSize)

/-- `while (outputFileSize)`. -/
def loop (outputFileSize : ℤ) (outputFile : Bytes) : Receiver :=
  if outputFileSize = 0 then .closed outputFileSize outputFile else .waiting outputFileSize outputFile

/-! ### The system -/

/-- Both programs, and the messages on their way in either direction. -/
structure State where
  sender : Sender
  receiver : Receiver
  toReceiver : List Msg
  toSender : List Msg

/-- Which of the two runs on. -/
inductive Party
  | sender
  | receiver

/-- Both have called `init`; the message each of them sends there ends at the link, which learns their
addresses from it. -/
def start (t : Msg) : State := ⟨.header t, .header, [], []⟩

/-- One party runs to its next blocking call; `none` where it is blocked, or at its end. -/
def step (sendTxt : Bytes) (stale : ℤ) (s : State) : Party → Option (State × List Msg)
  | .sender =>
    match s.sender, s.toSender with
    | .header t, _ =>
      let m := header t sendTxt
      some ({ s with sender := .waiting false sendTxt, toReceiver := s.toReceiver ++ [m] }, [m])
    | .waiting inLoop inputFile, t :: toSender =>
      match nextPiece inLoop inputFile t with
      | none => some ({ s with sender := .closed, toSender := toSender }, [])
      | some (m, inputFile) => some ({ s with
          sender := .waiting true inputFile
          toReceiver := s.toReceiver ++ [m]
          toSender := toSender }, [m])
    | _, _ => none
  | .receiver =>
    match s.receiver, s.toReceiver with
    | .header, r :: toReceiver =>
      (onHeader stale r).map fun outputFileSize => ({ s with
        receiver := loop outputFileSize []
        toReceiver := toReceiver
        toSender := s.toSender ++ [ack] }, [ack])
    | .waiting outputFileSize outputFile, r :: toReceiver =>
      if FitsInt (outputFileSize - r.len) then some ({ s with
        receiver := loop (outputFileSize - r.len) (outputFile ++ bytes r.payload 0 r.len)
        toReceiver := toReceiver
        toSender := s.toSender ++ [ack] }, [ack])
      else none
    | _, _ => none

/-! ### What the receiver reads from the announcement -/

/-- The part of the number that is sent. -/
def announcedSize (sendTxt : Bytes) : Bytes := (printInt (toInt sendTxt.length)).take 2

theorem header_payload (t : Msg) (sendTxt : Bytes) : (header t sendTxt).payload =
    overwrite t.payload (SEND_FILE_NAME ++ 32 :: announcedSize sendTxt ++ [0]) := by
  have hname : (SEND_FILE_NAME ++ [32]).length = 9 := by decide
  have htext : SEND_FILE_NAME ++ 32 :: printInt (toInt sendTxt.length) =
      (SEND_FILE_NAME ++ [32]) ++ printInt (toInt sendTxt.length) := by simp
  have htake : (SEND_FILE_NAME ++ 32 :: printInt (toInt sendTxt.length)).take (12 - 1) =
      (SEND_FILE_NAME ++ [32]) ++ announcedSize sendTxt := by
    rw [htext, List.take_append, hname, List.take_of_length_le (by rw [hname]; decide), announcedSize,
      show 12 - 1 - 9 = 2 from rfl]
  simp only [header]
  rw [snprintf, htake, List.append_assoc SEND_FILE_NAME, List.singleton_append]

/-- A text laid over the start of a buffer is the C string in it. -/
theorem bufferString_overwrite {b : Buf} {text : Bytes} {cap : ℕ} (hlen : text.length < cap) (h : NoNul text) :
    bufferString cap (bytes (overwrite b (text ++ [0])) 0 cap) = some text := by
  have hsplit : bytes (overwrite b (text ++ [0])) 0 cap =
      text ++ 0 :: bytes b (text.length + 1) (cap - (text.length + 1)) := by
    refine List.ext_getElem (by simp [bytes]; omega) fun k hk _ => ?_
    have hk' : k < cap := by simpa [bytes] using hk
    simp only [bytes, List.getElem_map, List.getElem_range, Nat.zero_add, overwrite]
    rcases lt_trichotomy k text.length with hlt | rfl | hgt
    · simp [hlt, List.getElem_append_left, List.getElem?_append_left]
    · simp
    · obtain ⟨j, rfl⟩ := Nat.exists_eq_add_of_lt hgt
      simp [List.getElem_append_right, Nat.add_assoc, Nat.add_comm 1]
  have htake : (bytes (overwrite b (text ++ [0])) 0 cap).take cap =
      bytes (overwrite b (text ++ [0])) 0 cap := List.take_of_length_le (by simp [bytes])
  have hstring : cString (text ++ 0 :: bytes b (text.length + 1) (cap - (text.length + 1))) = text :=
    takeWhile_append_stop (fun c hc => bne_iff_ne.mpr (h c hc)) (by simp [StopsAt])
  show (if (cString ((bytes (overwrite b (text ++ [0])) 0 cap).take cap)).length < cap then
    some (cString ((bytes (overwrite b (text ++ [0])) 0 cap).take cap)) else none) = some text
  rw [htake, hsplit, hstring, if_pos hlen]

theorem length_announcedSize (sendTxt : Bytes) : (announcedSize sendTxt).length ≤ 2 := by
  simp [announcedSize]

theorem noNul_announcedSize (sendTxt : Bytes) : NoNul (announcedSize sendTxt) := fun c hc =>
  noNul_printInt _ c (List.mem_of_mem_take hc)

/-- **The receiver reads the first two characters of the number.** -/
theorem onHeader_header (t : Msg) (sendTxt : Bytes) (stale : ℤ) : onHeader stale (header t sendTxt) =
    some (((scanInt (announcedSize sendTxt)).map Prod.fst).getD stale) := by
  have hlen : (SEND_FILE_NAME ++ 32 :: announcedSize sendTxt).length < MAX_LEN := by
    have h := length_announcedSize sendTxt
    have hname : SEND_FILE_NAME.length = 8 := by decide
    rw [List.length_append, List.length_cons, MAX_LEN]
    omega
  have hclean : NoNul (SEND_FILE_NAME ++ 32 :: announcedSize sendTxt) :=
    noNul_append.mpr ⟨fun c hc => by
      have hall : ∀ c ∈ SEND_FILE_NAME, c ≠ 0 := by decide
      exact hall c hc, noNul_cons.mpr ⟨by decide, noNul_announcedSize sendTxt⟩⟩
  have hword : sscanf [.word MAX_LEN, .int] (SEND_FILE_NAME ++ 32 :: announcedSize sendTxt) =
      (sscanf [.int] (32 :: announcedSize sendTxt)).map (.word SEND_FILE_NAME :: ·) :=
    sscanf_word _ (by decide) (by decide) (by decide) (by simp [StopsAt, isWordByte, isSpace])
  have hint : sscanf [.int] (announcedSize sendTxt) =
      some ((scanInt (announcedSize sendTxt)).map fun r => Val.int r.1).toList := by
    rw [sscanf]
    cases scanInt (announcedSize sendTxt) with
    | none => rfl
    | some r => rfl
  rw [onHeader, header_payload, bufferString_overwrite hlen hclean, Option.bind_eq_bind, Option.bind_some, hword,
    sscanf_space, hint, Option.map_some, Option.bind_eq_bind, Option.bind_some]
  cases scanInt (announcedSize sendTxt) with
  | none => rfl
  | some r => rfl

/-- Two characters make no number above 99. -/
theorem scanInt_le {s r : Bytes} {n : ℤ} (hlen : s.length ≤ 2) (h : scanInt s = some (n, r)) : n ≤ 99 := by
  have hskip : (skipSpace s).length ≤ s.length := List.length_dropWhile_le ..
  have hsign : (scanSign (skipSpace s)).2.length ≤ (skipSpace s).length := by
    unfold scanSign
    split <;> simp_all
  have htake : ((scanSign (skipSpace s)).2.takeWhile isDigit).length ≤ 2 :=
    le_trans (List.takeWhile_prefix _).length_le (by omega)
  have hvalue := digitsValue_lt fun d (hd : d ∈ (scanSign (skipSpace s)).2.takeWhile isDigit) =>
    List.mem_takeWhile_imp hd
  have hpow := Nat.pow_le_pow_right (n := 10) (by decide) htake
  simp only [scanInt] at h
  split_ifs at h with hds
  · obtain ⟨rfl, -⟩ := Prod.mk.inj (Option.some.inj h)
    rw [clampLong, toInt_eq_self] <;> omega
  · obtain ⟨rfl, -⟩ := Prod.mk.inj (Option.some.inj h)
    rw [clampLong, toInt_eq_self] <;> omega

/-- **The size is read rightly exactly when** the file has fewer than 100 bytes. -/
theorem onHeader_eq_length (sendTxt : Bytes) :
    (∀ t stale, onHeader stale (header t sendTxt) = some (sendTxt.length : ℤ)) ↔ sendTxt.length < 100 := by
  constructor
  · intro h
    have h0 := h ⟨0, fun _ => 0⟩ 0
    rw [onHeader_header, Option.some.injEq] at h0
    cases hscan : scanInt (announcedSize sendTxt) with
    | none =>
      rw [hscan] at h0
      have hzero : (0 : ℤ) = sendTxt.length := h0
      omega
    | some p =>
      have hle := scanInt_le (length_announcedSize sendTxt) hscan
      rw [hscan] at h0
      have hval : p.1 = sendTxt.length := h0
      omega
  · intro hlen t stale
    have hint : toInt (sendTxt.length : ℤ) = sendTxt.length := toInt_eq_self (by omega) (by omega)
    have hdigits : (printInt (sendTxt.length : ℤ)).length ≤ 2 := by
      rw [printInt_natCast]
      exact length_decimal_le (by decide) hlen
    have hsize : announcedSize sendTxt = printInt sendTxt.length := by
      rw [announcedSize, hint, List.take_of_length_le hdigits]
    have hscan : scanInt (printInt (sendTxt.length : ℤ)) = some ((sendTxt.length : ℤ), []) := by
      rw [← List.append_nil (printInt _)]
      exact scanInt_printInt (by omega) (by omega) trivial
    rw [onHeader_header, hsize, hscan]
    rfl

/-! ### The specification -/

/-- The count `recv.c` keeps. -/
def Receiver.remaining : Receiver → Option ℤ
  | .header => none
  | .waiting outputFileSize _ => some outputFileSize
  | .closed outputFileSize _ => some outputFileSize

/-- The part of the file `send.c` has not read. -/
def Sender.unread : Sender → Bytes
  | .waiting _ inputFile => inputFile
  | _ => []

/-- The number of bytes of the file that have not been delivered, once the announcement has been. -/
def State.undelivered (s : State) : ℕ := (s.toReceiver.map Msg.len).sum + s.sender.unread.length

/-- The transfer is faithful, whatever is uninitialised and in every interleaving. -/
structure Faithful (sendTxt : Bytes) : Prop where
  /-- The size is read rightly. -/
  parsed : ∀ t stale, onHeader stale (header t sendTxt) = some (sendTxt.length : ℤ)
  /-- The count is never below 0, and is 0 exactly when the last piece has been delivered. -/
  counted : ∀ t stale h s, Run (Steps (step sendTxt stale)) (start t) h s →
    ∀ n ∈ s.receiver.remaining, n = s.undelivered
  /-- No run goes on forever. -/
  ends : ∀ t stale h s, Run (Steps (step sendTxt stale)) (start t) h s → h.length ≤ 2 * sendTxt.length + 4
  /-- Where neither party can go on, both are at their end, and the file has been copied. -/
  copied : ∀ t stale h s, Run (Steps (step sendTxt stale)) (start t) h s →
    (∀ p, step sendTxt stale s p = none) → s.sender = .closed ∧ s.receiver = .closed 0 sendTxt

/-! ### The alternation -/

/-- The states the two programs go through if the announced size is right, with a bound on the steps left. -/
inductive Stage (sendTxt : Bytes) (t : Msg) : ℕ → State → Prop
  | start {k : ℕ} : 2 * sendTxt.length + 4 ≤ k → Stage sendTxt t k (start t)
  | announced {k : ℕ} : 2 * sendTxt.length + 3 ≤ k →
      Stage sendTxt t k ⟨.waiting false sendTxt, .header, [header t sendTxt], []⟩
  /-- All that has been read has been written and acknowledged. -/
  | acknowledged {k : ℕ} (inLoop : Bool) (file rest : Bytes) : file ++ rest = sendTxt → 2 * rest.length + 2 ≤ k →
      Stage sendTxt t k ⟨.waiting inLoop rest, loop rest.length file, [], [ack]⟩
  /-- A piece is on its way. -/
  | piece {k : ℕ} (m : Msg) (file piece rest : Bytes) : file ++ (piece ++ rest) = sendTxt → piece ≠ [] →
      bytes m.payload 0 m.len = piece → 2 * rest.length + 3 ≤ k →
      Stage sendTxt t k ⟨.waiting true rest, .waiting (piece ++ rest).length file, [m], []⟩
  | finished {k : ℕ} : Stage sendTxt t k ⟨.closed, .closed 0 sendTxt, [], []⟩

variable {sendTxt : Bytes} {t : Msg} {stale : ℤ} {k : ℕ} {s s' : State} {out : List Msg}

/-- The two cases of the next piece. -/
theorem nextPiece_eq (inLoop : Bool) (inputFile : Bytes) (t : Msg) :
    inputFile = [] ∧ nextPiece inLoop inputFile t = none ∨
      ∃ m piece rest, piece ++ rest = inputFile ∧ piece ≠ [] ∧ bytes m.payload 0 m.len = piece ∧
        nextPiece inLoop inputFile t = some (m, rest) := by
  rcases eq_or_ne (inputFile.take (MAX_LEN - 1)) [] with hnil | hne
  · refine Or.inl ⟨?_, if_pos hnil⟩
    rcases List.take_eq_nil_iff.mp hnil with h | h
    · exact absurd h (by decide)
    · exact h
  · exact Or.inr ⟨_, _, _, List.take_append_drop .., hne, bytes_overwrite _ _, if_neg hne⟩

theorem loop_of_ne {n : ℤ} (h : n ≠ 0) (file : Bytes) : loop n file = .waiting n file := if_neg h

/-- **One step**: from each stage one of the parties can go on, and it goes on to the next. -/
theorem Stage.step (hparse : onHeader stale (header t sendTxt) = some (sendTxt.length : ℤ))
    (hfits : sendTxt.length < 2 ^ 31) (hs : Stage sendTxt t k s) {p : Party}
    (hstep : step sendTxt stale s p = some (s', out)) : ∃ k' < k, Stage sendTxt t k' s' := by
  cases hs with
  | start hk =>
    cases p with
    | sender =>
      obtain ⟨rfl, -⟩ := Prod.mk.inj (Option.some.inj hstep)
      exact ⟨k - 1, by omega, .announced (by omega)⟩
    | receiver => cases hstep
  | announced hk =>
    cases p with
    | sender => cases hstep
    | receiver =>
      simp only [Transfer.step, hparse, Option.map_some, Option.some.injEq, Prod.mk.injEq] at hstep
      obtain ⟨rfl, -⟩ := hstep
      exact ⟨k - 1, by omega, .acknowledged false [] sendTxt rfl (by omega)⟩
  | acknowledged inLoop file rest hfile hk =>
    cases p with
    | sender =>
      rcases nextPiece_eq inLoop rest ack with ⟨rfl, hnext⟩ | ⟨m, piece, rest, rfl, hne, hm, hnext⟩
      · simp only [Transfer.step, hnext, Option.some.injEq, Prod.mk.injEq] at hstep
        obtain ⟨rfl, -⟩ := hstep
        rw [List.append_nil] at hfile
        subst hfile
        exact ⟨k - 1, by omega, .finished⟩
      · simp only [Transfer.step, hnext, Option.some.injEq, Prod.mk.injEq] at hstep
        obtain ⟨rfl, -⟩ := hstep
        have hpos := List.length_pos_iff.mpr hne
        rw [List.length_append] at hk
        rw [loop_of_ne (by rw [List.length_append]; omega)]
        exact ⟨k - 1, by omega, .piece m file piece rest hfile hne hm (by omega)⟩
    | receiver =>
      simp only [Transfer.step, loop] at hstep
      split_ifs at hstep
  | piece m file piece rest hfile hne hm hk =>
    cases p with
    | sender => cases hstep
    | receiver =>
      have hlen : m.len = piece.length := by
        rw [← hm]
        simp [bytes]
      have hsum := congrArg List.length hfile
      rw [List.length_append, List.length_append] at hsum
      have hrest : ((piece ++ rest).length : ℤ) - m.len = rest.length := by
        rw [List.length_append, hlen]
        omega
      have hint : FitsInt (((piece ++ rest).length : ℤ) - m.len) := by
        rw [hrest, FitsInt]
        omega
      simp only [Transfer.step, if_pos hint, Option.some.injEq, Prod.mk.injEq] at hstep
      obtain ⟨rfl, -⟩ := hstep
      rw [hrest, hm]
      exact ⟨k - 1, by omega, .acknowledged true (file ++ piece) rest (by rw [List.append_assoc, hfile]) (by omega)⟩
  | finished =>
    cases p <;> cases hstep

/-- Every run of the two programs is in a stage, and has taken the steps the bound has lost. -/
theorem stage_of_run (hparse : onHeader stale (header t sendTxt) = some (sendTxt.length : ℤ))
    (hfits : sendTxt.length < 2 ^ 31) {h : List (Step State Party Msg)}
    (run : Run (Steps (step sendTxt stale)) (start t) h s) :
    ∃ k, Stage sendTxt t k s ∧ h.length + k ≤ 2 * sendTxt.length + 4 := by
  induction run with
  | start => exact ⟨2 * sendTxt.length + 4, .start le_rfl, by simp⟩
  | next _ hstep ih =>
    obtain ⟨k, hs, hk⟩ := ih
    obtain ⟨k', hk', hs'⟩ := hs.step hparse hfits hstep
    exact ⟨k', hs', by rw [List.length_cons]; omega⟩

/-- In every stage the count is the number of bytes not yet delivered. -/
theorem Stage.counted (hs : Stage sendTxt t k s) {n : ℤ} (hn : n ∈ s.receiver.remaining) :
    n = s.undelivered := by
  cases hs with
  | start => cases hn
  | announced => cases hn
  | acknowledged inLoop file rest _ _ =>
    unfold loop at hn
    split_ifs at hn
    all_goals
      obtain rfl := Option.some.inj hn
      simp [State.undelivered, Sender.unread]
  | piece m file piece rest _ _ hm _ =>
    have hlen : m.len = piece.length := by
      rw [← hm]
      simp [bytes]
    obtain rfl := Option.some.inj hn
    simp [State.undelivered, Sender.unread, hlen]
  | finished =>
    obtain rfl := Option.some.inj hn
    rfl

/-- Only in the last stage neither party can go on. -/
theorem Stage.copied (hparse : onHeader stale (header t sendTxt) = some (sendTxt.length : ℤ))
    (hfits : sendTxt.length < 2 ^ 31) (hs : Stage sendTxt t k s)
    (hblocked : ∀ p, Transfer.step sendTxt stale s p = none) :
    s.sender = .closed ∧ s.receiver = .closed 0 sendTxt := by
  cases hs with
  | start => cases hblocked .sender
  | announced =>
    have h := hblocked .receiver
    simp only [Transfer.step, hparse, Option.map_some] at h
    cases h
  | acknowledged inLoop file rest _ _ =>
    have h := hblocked .sender
    rcases nextPiece_eq inLoop rest ack with ⟨-, hnext⟩ | ⟨_, _, _, -, -, -, hnext⟩
    all_goals
      simp only [Transfer.step, hnext] at h
      cases h
  | piece m file piece rest hfile _ hm _ =>
    have hsum := congrArg List.length hfile
    have hint : FitsInt (((piece ++ rest).length : ℤ) - m.len) := by
      have hlen : m.len = piece.length := by
        rw [← hm]
        simp [bytes]
      rw [List.length_append, List.length_append] at hsum
      rw [FitsInt, List.length_append, hlen]
      omega
    have h := hblocked .receiver
    simp only [Transfer.step, if_pos hint] at h
    cases h
  | finished => exact ⟨rfl, rfl⟩

/-- **The transfer is faithful exactly when** the file has fewer than 100 bytes. -/
theorem faithful_iff (sendTxt : Bytes) : Faithful sendTxt ↔ sendTxt.length < 100 := by
  refine ⟨fun h => (onHeader_eq_length sendTxt).mp h.parsed, fun hlen => ?_⟩
  have hparse := (onHeader_eq_length sendTxt).mpr hlen
  have hfits : sendTxt.length < 2 ^ 31 := by omega
  refine ⟨hparse, fun t stale h s run n hn => ?_, fun t stale h s run => ?_, fun t stale h s run hblocked => ?_⟩
  · obtain ⟨k, hs, -⟩ := stage_of_run (hparse t stale) hfits run
    exact hs.counted hn
  · obtain ⟨k, -, hk⟩ := stage_of_run (hparse t stale) hfits run
    omega
  · obtain ⟨k, hs, -⟩ := stage_of_run (hparse t stale) hfits run
    exact hs.copied (hparse t stale) hfits hblocked

/-- **A hundred bytes are ten**: the size of a file of 100 bytes is read as 10, and its one piece takes the count
below 0. -/
theorem hundred_bytes_overrun : ∃ h s,
    Run (Steps (step (List.replicate 100 97) 0)) (start ⟨0, fun _ => 0⟩) h s ∧
      s.receiver = .waiting (-90) (List.replicate 100 97) ∧ ¬ Faithful (List.replicate 100 97) := by
  obtain ⟨h, s, run, hcheck⟩ := Run.of_check (step (List.replicate 100 97) 0) (start ⟨0, fun _ => 0⟩)
    [.sender, .receiver, .sender, .receiver]
    (fun _ s => decide (s.receiver = .waiting (-90) (List.replicate 100 97))) (by decide +kernel)
  have hreceiver := of_decide_eq_true hcheck
  refine ⟨h, s, run, hreceiver, fun hfaithful => ?_⟩
  have hcount := hfaithful.counted _ _ h s run (-90) (by rw [hreceiver]; rfl)
  omega

end Pcom.Lab02.Transfer
