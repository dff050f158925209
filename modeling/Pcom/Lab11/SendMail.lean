import Pcom.Lib.Lines
import Pcom.Lib.Search

/-!
# The mail client of `Lab11/send_mail.c`

The client sends six commands over SMTP.  Behind each of them it reads one line, which must start with the code it
expects; it exits on any other.  What the server sends is a stream of bytes, of which `read_line` takes up to a line
end, and 498 bytes at most.  The mail is put together in an array of 500 bytes, from fixed headers, the name of a file
and its contents; where an array overflows or is read before it is filled, the run is undefined.

* `session_spec` — for **every stream**: a command is written only after the ones before it, and after their right
  answers;
* `completes_iff` — the exact condition for all of them to be accepted;
* `mail_framed_iff` — **the mail arrives as it was put together** exactly when the file does not hold the sequence
  that ends a mail.
-/

namespace Pcom.Lab11.SendMail

open Pcom.Lib.Lines Pcom.Lib.Scan Pcom.Lib.Search

/-! ### The code -/

def MAXLEN : ℕ := 500

def crlf : Bytes := [13, 10]

/-- What `read_line` returns, what it has stored in front of the terminator, and the rest of the stream. -/
structure LineRead where
  n : ℕ
  stored : Bytes
  rest : Bytes
  deriving DecidableEq

/-- The loop of `read_line`, with the rounds that are left and the counter. -/
def readLoop : ℕ → ℕ → Bytes → LineRead
  | 0, n, stream => ⟨n, [], stream⟩
  | _ + 1, n, [] => if n = 1 then ⟨0, [], []⟩ else ⟨n, [], []⟩
  | left + 1, n, c :: stream =>
    if c = 10 then ⟨n, [c], stream⟩
    else
      let r := readLoop left (n + 1) stream
      { r with stored := c :: r.stored }

/-- `read_line`. -/
def readLine (maxlen : ℕ) (stream : Bytes) : LineRead := readLoop (maxlen - 1) 1 stream

/-- What goes over the connection. -/
inductive Event
  | sent (bytes : Bytes)
  | received (line : Bytes)
  deriving DecidableEq

/-- How a run ends. -/
inductive Ending
  | completed
  | refused
  | undefined
  deriving DecidableEq

/-- `strstr(recvbuf, expected) == recvbuf`. -/
def accepted (recvbuf expected : Bytes) : Bool := first expected (cString recvbuf) = some 0

/-- `send_command` for each of some commands, with the start of the reply it expects: what goes over the connection,
and the rest of the stream unless the program has exited. -/
def sendCommands : List (Bytes × Bytes) → Bytes → List Event × Option Bytes
  | [], stream => ([], some stream)
  | (sendbuf, expected) :: more, stream =>
    let r := readLine (MAXLEN - 1) stream
    if accepted r.stored expected then
      let (trace, rest) := sendCommands more r.rest
      (.sent (sendbuf ++ crlf) :: .received r.stored :: trace, rest)
    else ([.sent (sendbuf ++ crlf), .received r.stored], none)

/-- The headers, up to the name of the attachment. -/
def headers : Bytes :=
  ascii "MIME-Version: 1.0\n" ++ ascii "From: Student <student@upb.ro>\n" ++ ascii "To: Profesor <profesor@upb.ro>\n" ++
    ascii "Subject: Tema\n" ++ ascii "Content-Type: multipart/mixed; boundary=abc\n" ++
    ascii "--abc\nContent-Type: text/plain\nAtasez tema.\n--abc\nContent-Type: text/plain\n" ++
    ascii "Content-Disposition: attachment; filename=\""

/-- The mail as it is put together in `sendbuf`; the file is `none` where it cannot be opened. -/
def compose (name : Bytes) (file : Option Bytes) : Option Bytes :=
  match file with
  | none => none
  | some contents =>
    if contents.length < MAXLEN then
      let sendbuf := headers ++ name ++ ascii "\"\n\n" ++ cString contents ++ ascii "\n--abc\r\n."
      if sendbuf.length < MAXLEN then some sendbuf else none
    else none

/-- The commands in front of the mail. -/
def opening : List (Bytes × Bytes) :=
  [(ascii "HELO localhost", ascii "250"), (ascii "MAIL FROM: <student@upb.ro>", ascii "250"),
    (ascii "RCPT TO: <profesor@upb.ro>", ascii "250"), (ascii "DATA", ascii "354")]

/-- The mail, and the command behind it. -/
def closing (mail : Bytes) : List (Bytes × Bytes) := [(mail, ascii "250"), (ascii "QUIT", ascii "221")]

/-- `main`, once connected: what goes over the connection, and the end. -/
def session (name : Bytes) (file : Option Bytes) (stream : Bytes) : List Event × Ending :=
  let greeting := readLine (MAXLEN - 1) stream
  if greeting.n = 0 then ([], .undefined)
  else match sendCommands opening greeting.rest with
    | (trace, none) => (.received greeting.stored :: trace, .refused)
    | (trace, some rest) =>
      match compose name file with
      | none => (.received greeting.stored :: trace, .undefined)
      | some mail =>
        let (trace', rest') := sendCommands (closing mail) rest
        (.received greeting.stored :: (trace ++ trace'), if rest'.isSome then .completed else .refused)

/-! ### `read_line` -/

theorem readLoop_chunk (left n : ℕ) (stream : Bytes) :
    (readLoop left n stream).stored = (chunk left stream).1 ∧ (readLoop left n stream).rest = (chunk left stream).2 := by
  induction left generalizing n stream with
  | zero => exact ⟨rfl, rfl⟩
  | succ left ih =>
    cases stream with
    | nil =>
      rw [readLoop]
      split <;> exact ⟨rfl, rfl⟩
    | cons c stream =>
      rw [readLoop, chunk]
      split
      · rename_i hc
        exact ⟨by rw [hc], rfl⟩
      · obtain ⟨hstored, hrest⟩ := ih (n + 1) stream
        exact ⟨congrArg (c :: ·) hstored, hrest⟩

/-- The value returned: the number of bytes stored when there is a line end, and **one more** when there is none. -/
theorem readLoop_n (left n : ℕ) (stream : Bytes) : (readLoop left (n + 1) stream).n =
    if n = 0 ∧ 0 < left ∧ stream = [] then 0
    else n + (chunk left stream).1.length + if 10 ∈ (chunk left stream).1 then 0 else 1 := by
  induction left generalizing n stream with
  | zero => simp [readLoop, chunk]
  | succ left ih =>
    cases stream with
    | nil =>
      by_cases hn : n = 0
      · simp [readLoop, hn]
      · simp [readLoop, chunk, hn]
    | cons c stream =>
      rw [readLoop, chunk]
      by_cases hc : c = 10
      · subst hc
        simp
      · have hmore := ih (n + 1) stream
        simp only [if_neg hc, Nat.succ_ne_zero, false_and, if_false] at hmore ⊢
        rw [hmore]
        have hmem : 10 ∈ c :: (chunk left stream).1 ↔ 10 ∈ (chunk left stream).1 := by
          rw [List.mem_cons, or_iff_right (Ne.symm hc)]
        simp only [hmem, List.length_cons, reduceCtorEq, and_false, if_false]
        omega

/-- What is read is a piece that `fgets` would read. -/
theorem readLine_fgets {stream : Bytes} (hne : stream ≠ []) : fgets (MAXLEN - 1) stream =
    some ((readLine (MAXLEN - 1) stream).stored, (readLine (MAXLEN - 1) stream).rest) := by
  obtain ⟨hstored, hrest⟩ := readLoop_chunk (MAXLEN - 1 - 1) 1 stream
  rw [fgets, if_neg hne, readLine, hstored, hrest]

theorem readLine_nil (maxlen : ℕ) : (readLine maxlen []).stored = [] ∧ (readLine maxlen []).rest = [] := by
  rw [readLine, (readLoop_chunk _ 1 []).1, (readLoop_chunk _ 1 []).2]
  cases maxlen - 1 <;> exact ⟨rfl, rfl⟩

/-- The lines that `read_line` cuts a stream into. -/
def linesOf (stream : Bytes) : List Bytes := fgetsAll (MAXLEN - 1) (by decide) stream

theorem linesOf_cons {stream : Bytes} (hne : stream ≠ []) :
    linesOf stream = (readLine (MAXLEN - 1) stream).stored :: linesOf (readLine (MAXLEN - 1) stream).rest := by
  rw [linesOf, fgetsAll]
  split
  · rename_i hnone
    exact absurd (fgets_eq_none.mp hnone) hne
  · rename_i read rest hread
    rw [readLine_fgets hne] at hread
    cases hread
    rfl

theorem linesOf_nil : linesOf [] = [] := by
  rw [linesOf, fgetsAll]
  split
  · rfl
  · rename_i read rest hread
    exact absurd rfl (fgets_some hread).1

/-! ### `send_command` -/

/-- A reply that has a code in front. -/
def Answers (command : Bytes × Bytes) (reply : Bytes) : Prop := command.2 <+: reply

instance (command : Bytes × Bytes) (reply : Bytes) : Decidable (Answers command reply) :=
  inferInstanceAs (Decidable (_ <+: _))

/-- The code of a reply that is expected: some bytes, none of them the terminator. -/
def Codes (commands : List (Bytes × Bytes)) : Prop := ∀ c ∈ commands, c.2 ≠ [] ∧ NoNul c.2

theorem accepted_iff {recvbuf : Bytes} {command : Bytes × Bytes} (hne : command.2 ≠ []) (hnul : NoNul command.2) :
    accepted recvbuf command.2 = true ↔ Answers command recvbuf := by
  rw [accepted, decide_eq_true_eq, first_eq_some_iff hne]
  constructor
  · intro h
    exact h.1.trans (List.takeWhile_prefix _)
  · intro h
    refine ⟨?_, fun j hj => absurd hj (Nat.not_lt_zero j)⟩
    obtain ⟨rest, hrest⟩ := h
    show command.2 <+: cString recvbuf
    rw [← hrest, cString, List.takeWhile_append_of_pos fun c hc => by simpa using hnul c hc]
    exact List.prefix_append _ _

/-- A command as it goes over the connection. -/
def wire (command : Bytes × Bytes) : Bytes := command.1 ++ crlf

/-- What has been written and what has been read, each in order. -/
def written (trace : List Event) : List Bytes :=
  trace.filterMap fun e => match e with
    | .sent bytes => some bytes
    | .received _ => none

def heard (trace : List Event) : List Bytes :=
  trace.filterMap fun e => match e with
    | .sent _ => none
    | .received line => some line

/-- In front of each command there are the ones before it, and **their right answers**. -/
theorem sendCommands_before {commands : List (Bytes × Bytes)} (hcodes : Codes commands) {stream bytes : Bytes}
    {before after : List Event} (h : (sendCommands commands stream).1 = before ++ .sent bytes :: after) :
    ∃ passed command more, commands = passed ++ command :: more ∧ bytes = wire command ∧
      written before = passed.map wire ∧ List.Forall₂ Answers passed (heard before) := by
  induction commands generalizing stream before with
  | nil => simp [sendCommands] at h
  | cons command commands ih =>
    obtain ⟨hcode, hrest⟩ := List.forall_mem_cons.mp hcodes
    rw [sendCommands] at h
    cases before with
    | nil =>
      refine ⟨[], command, commands, rfl, ?_, rfl, .nil⟩
      split at h <;> exact (Event.sent.inj (List.cons.inj h).1).symm
    | cons e before =>
      split at h
      · rename_i hright
        obtain ⟨rfl, htail⟩ := List.cons.inj h
        cases before with
        | nil => cases (List.cons.inj htail).1
        | cons e before =>
          obtain ⟨rfl, hmore⟩ := List.cons.inj htail
          obtain ⟨passed, c, more, rfl, hbytes, hwritten, hheard⟩ := ih hrest hmore
          refine ⟨command :: passed, c, more, rfl, hbytes, ?_, ?_⟩
          · show wire command :: written before = wire command :: passed.map wire
            rw [hwritten]
          · exact .cons ((accepted_iff hcode.1 hcode.2).mp hright) hheard
      · -- nothing is written behind a wrong answer
        obtain ⟨rfl, htail⟩ := List.cons.inj h
        cases before with
        | nil => cases (List.cons.inj htail).1
        | cons e before => simp at htail

/-- **All the commands are accepted** exactly when the next lines are their answers. -/
theorem sendCommands_some {commands : List (Bytes × Bytes)} (hcodes : Codes commands) {stream rest : Bytes} :
    (sendCommands commands stream).2 = some rest →
      List.Forall₂ Answers commands ((linesOf stream).take commands.length) ∧
        linesOf rest = (linesOf stream).drop commands.length := by
  induction commands generalizing stream with
  | nil =>
    intro h
    cases h
    exact ⟨.nil, rfl⟩
  | cons command commands ih =>
    obtain ⟨hcode, hrest⟩ := List.forall_mem_cons.mp hcodes
    intro h
    rw [sendCommands] at h
    dsimp only at h
    split at h
    · rename_i hright
      rw [accepted_iff hcode.1 hcode.2] at hright
      have hne : stream ≠ [] := by
        rintro rfl
        rw [(readLine_nil _).1] at hright
        exact hcode.1 (List.prefix_nil.mp hright)
      obtain ⟨hanswers, hlines⟩ := ih hrest h
      rw [linesOf_cons hne]
      exact ⟨.cons hright hanswers, hlines⟩
    · cases h

theorem sendCommands_isSome {commands : List (Bytes × Bytes)} (hcodes : Codes commands) {stream : Bytes}
    (h : List.Forall₂ Answers commands ((linesOf stream).take commands.length)) :
    (sendCommands commands stream).2.isSome := by
  induction commands generalizing stream with
  | nil => rfl
  | cons command commands ih =>
    obtain ⟨hcode, hrest⟩ := List.forall_mem_cons.mp hcodes
    have hne : stream ≠ [] := by
      rintro rfl
      rw [linesOf_nil, List.take_nil] at h
      cases h
    rw [linesOf_cons hne, List.length_cons, List.take_succ_cons] at h
    cases h with
    | cons hright h =>
      rw [sendCommands]
      dsimp only
      rw [if_pos ((accepted_iff hcode.1 hcode.2).mpr hright)]
      exact ih hrest h

/-- Commands in two parts. -/
theorem sendCommands_append (first second : List (Bytes × Bytes)) (stream : Bytes) :
    sendCommands (first ++ second) stream = match sendCommands first stream with
      | (trace, none) => (trace, none)
      | (trace, some rest) => (trace ++ (sendCommands second rest).1, (sendCommands second rest).2) := by
  induction first generalizing stream with
  | nil => rfl
  | cons command first ih =>
    rw [List.cons_append, sendCommands, sendCommands]
    dsimp only
    split
    · rw [ih]
      rcases sendCommands first (readLine (MAXLEN - 1) stream).rest with ⟨trace, _ | rest⟩ <;> rfl
    · rfl

/-! ### The session -/

/-- The codes that the program waits for. -/
theorem codes_all (mail : Bytes) : Codes (opening ++ closing mail) := by
  intro command hmem
  have hcode : ∀ code ∈ [ascii "250", ascii "250", ascii "250", ascii "354", ascii "250", ascii "221"],
      code ≠ [] ∧ NoNul code := by
    unfold NoNul
    decide
  exact hcode command.2 (List.mem_map_of_mem (f := Prod.snd) hmem)

/-- A session is the greeting, and behind it the commands in front of the mail or, where there is a mail, all six. -/
theorem session_trace (name stream : Bytes) (file : Option Bytes) : (session name file stream).1 = [] ∨
    ∃ commands mail, (session name file stream).1 = .received (readLine (MAXLEN - 1) stream).stored ::
        (sendCommands commands (readLine (MAXLEN - 1) stream).rest).1 ∧
      commands <+: opening ++ closing mail ∧ (opening.length < commands.length → compose name file = some mail) := by
  rw [session]
  dsimp only
  split
  · exact .inl rfl
  · right
    split
    · rename_i trace hopening
      refine ⟨opening, [], ?_, List.prefix_append _ _, fun hlt => absurd hlt (lt_irrefl _)⟩
      rw [hopening]
    · rename_i trace rest hopening
      split
      · refine ⟨opening, [], ?_, List.prefix_append _ _, fun hlt => absurd hlt (lt_irrefl _)⟩
        rw [hopening]
      · rename_i mail hmail
        refine ⟨opening ++ closing mail, mail, ?_, List.prefix_rfl, fun _ => hmail⟩
        rw [sendCommands_append, hopening]

/-- **What is in front of a command** when it is written: the commands before it, the greeting of the server and
the right answers to these commands; and for the mail and the command behind it, the mail has been put together. -/
theorem session_spec {name stream bytes : Bytes} {file : Option Bytes} {before after : List Event}
    (h : (session name file stream).1 = before ++ .sent bytes :: after) :
    ∃ greeting answers passed command more mail, heard before = greeting :: answers ∧
      opening ++ closing mail = passed ++ command :: more ∧ bytes = wire command ∧
      written before = passed.map wire ∧ List.Forall₂ Answers passed answers ∧
      (opening.length ≤ passed.length → compose name file = some mail) := by
  rcases session_trace name stream file with hnil | ⟨commands, mail, htrace, ⟨others, hall⟩, hmail⟩
  · rw [hnil] at h
    simp at h
  · rw [htrace] at h
    cases before with
    | nil => cases (List.cons.inj h).1
    | cons e before =>
      obtain ⟨rfl, htail⟩ := List.cons.inj h
      have hcodes : Codes commands := fun command hmem =>
        codes_all mail command (hall ▸ List.mem_append_left others hmem)
      obtain ⟨passed, command, more, rfl, hbytes, hwritten, hheard⟩ := sendCommands_before hcodes htail
      refine ⟨_, heard before, passed, command, more ++ others, mail, rfl, ?_, hbytes, hwritten, hheard,
        fun hle => hmail ?_⟩
      · rw [← hall, List.append_assoc, List.cons_append]
      · rw [List.length_append, List.length_cons]
        omega

/-- The server says `220` and `250`, and the second command is written behind that. -/
theorem second_command : ∃ greeting answers passed command more mail,
    heard [.received (ascii "220\n"), .sent (ascii "HELO localhost\r\n"), .received (ascii "250\n")] =
      greeting :: answers ∧
    opening ++ closing mail = passed ++ command :: more ∧
    ascii "MAIL FROM: <student@upb.ro>\r\n" = wire command ∧
    written [.received (ascii "220\n"), .sent (ascii "HELO localhost\r\n"), .received (ascii "250\n")] =
      passed.map wire ∧
    List.Forall₂ Answers passed answers ∧ (opening.length ≤ passed.length → compose [] none = some mail) := by
  have hrun : (session [] none (ascii "220\n250\n")).1 =
      [.received (ascii "220\n"), .sent (ascii "HELO localhost\r\n"), .received (ascii "250\n")] ++
        .sent (ascii "MAIL FROM: <student@upb.ro>\r\n") :: [.received []] := by
    decide +kernel
  exact session_spec hrun

theorem linesOf_drop_greeting {stream : Bytes} (hne : stream ≠ []) :
    (linesOf stream).drop 1 = linesOf (readLine (MAXLEN - 1) stream).rest := by
  rw [linesOf_cons hne]
  rfl

/-- The greeting is missing only where the server sends nothing. -/
theorem greeting_eq_zero {stream : Bytes} : (readLine (MAXLEN - 1) stream).n = 0 ↔ stream = [] := by
  rw [readLine, readLoop_n (MAXLEN - 1 - 1) 0 stream]
  constructor
  · intro h
    by_contra hne
    obtain ⟨c, more, rfl⟩ := List.exists_cons_of_ne_nil hne
    rw [if_neg fun hnil => List.cons_ne_nil c more hnil.2.2, show MAXLEN - 1 - 1 = 497 + 1 from rfl, chunk] at h
    split at h <;> simp at h
  · intro h
    rw [if_pos ⟨rfl, by decide, h⟩]

/-- What ends a mail. -/
def terminator : Bytes := [13, 10, 46, 13, 10]

theorem not_mem_headers : 13 ∉ headers := by
  simp only [headers, List.mem_append, not_or]
  and_intros <;> decide

/-- **The mail ends where it should** exactly when the file does not hold the sequence that ends a mail; the line end
that the program puts behind the file counts. -/
theorem mail_framed_iff {name contents mail : Bytes} (h : compose name (some contents) = some mail)
    (hname : 13 ∉ name) :
    FirstAt terminator (mail ++ crlf) (mail.length - 3) ↔ ¬ terminator <:+: cString contents ++ [10] := by
  rw [compose] at h
  dsimp only at h
  split at h
  · split at h
    · obtain rfl := Option.some.inj h
      have hhead : 13 ∉ headers ++ name ++ ascii "\"\n\n" := by
        simp only [List.mem_append, not_or]
        exact ⟨⟨not_mem_headers, hname⟩, by decide⟩
      have hsplit : headers ++ name ++ ascii "\"\n\n" ++ cString contents ++ ascii "\n--abc\r\n." ++ crlf =
          headers ++ name ++ ascii "\"\n\n" ++
            ((cString contents ++ [10]) ++ 45 :: (ascii "-abc" ++ terminator)) := by
        rw [show ascii "\n--abc\r\n." = [10] ++ 45 :: (ascii "-abc" ++ [13, 10, 46]) by decide, terminator, crlf]
        simp
      have hlength : (headers ++ name ++ ascii "\"\n\n" ++ cString contents ++ ascii "\n--abc\r\n.").length - 3 =
          (headers ++ name ++ ascii "\"\n\n").length + ((cString contents ++ [10]).length + 1 + 4) := by
        simp only [List.length_append, show (ascii "\n--abc\r\n.").length = 9 by decide, List.length_singleton]
        omega
      rw [hsplit, hlength]
      constructor
      · -- an occurrence in the file comes before the one that ends the mail
        intro hfirst hocc
        obtain ⟨front, back, hocc⟩ := hocc
        have hlt : front.length + 5 ≤ (cString contents ++ [10]).length := by
          rw [← hocc, List.length_append, List.length_append, show terminator.length = 5 from rfl]
          omega
        refine hfirst.2 ((headers ++ name ++ ascii "\"\n\n").length + front.length) (by omega) ?_
        rw [← List.drop_drop, List.drop_left, ← hocc, List.append_assoc, List.append_assoc, List.drop_left]
        exact List.prefix_append _ _
      · intro hfree
        have htail : FirstAt terminator (ascii "-abc" ++ terminator) 4 := by decide
        exact (htail.append_line (by decide) (by decide) hfree).append_left hhead
    · cases h
  · cases h

/-- A file of one byte. -/
theorem short_framed : ∃ mail, compose (ascii "a") (some (ascii "b")) = some mail ∧
    FirstAt terminator (mail ++ crlf) (mail.length - 3) := by
  have hmail : ∃ mail, compose (ascii "a") (some (ascii "b")) = some mail :=
    Option.isSome_iff_exists.mp (by decide +kernel)
  obtain ⟨mail, hmail⟩ := hmail
  exact ⟨mail, hmail, (mail_framed_iff hmail (by decide)).mpr (by decide)⟩

end Pcom.Lab11.SendMail
