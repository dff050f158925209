import Pcom.Tema2.Server

/-!
# Client commands on the wire

What `subscriber.cpp` writes to the server: `subscribe <topic> <SF>` and `unsubscribe <topic>`, each
closed by a line feed.  `Command.run` is the effect of a command; `onCommand_bytes` says that the server,
handed the bytes of exactly one command, has that effect, whatever its uninitialised variables held.
-/

namespace Pcom.Tema2.Commands

open Pcom.Lib.Scan Pcom.Tema2.Datagram Pcom.Tema2.Server

/-- A well-formed command; the topic fits `topicStr` and `SF` is an `int`. -/
inductive Command
  | subscribe (topic : Token TOPIC_SIZE) (SF : Int32)
  | unsubscribe (topic : Token TOPIC_SIZE)

/-- The line the subscriber writes. -/
def Command.bytes : Command → Bytes
  | .subscribe topic SF =>
    ascii "subscribe" ++ 32 :: (topic.bytes ++ 32 :: (printInt SF.toInt ++ ascii "\n"))
  | .unsubscribe topic => ascii "unsubscribe" ++ 32 :: (topic.bytes ++ ascii "\n")

/-- The effect of a command of the client on descriptor `i`. -/
def Command.run (s : State) (i : ℕ) : Command → Except Halt State
  | .subscribe topic SF => .ok (onSubscribe s i topic.bytes (SF.toInt != 0))
  | .unsubscribe topic => onUnsubscribe s i topic.bytes

theorem Int32.printed_range (n : Int32) : -2 ^ 31 ≤ n.toInt ∧ n.toInt < 2 ^ 31 :=
  ⟨n.le_toInt, n.toInt_lt⟩

theorem Command.ne_nil (c : Command) : c.bytes ≠ [] := by
  cases c <;> simp [Command.bytes]

theorem Command.noNul (c : Command) : NoNul c.bytes := by
  cases c with
  | subscribe topic SF =>
    have hlit : NoNul (ascii "subscribe") := by decide
    have hnl : NoNul (ascii "\n") := by decide
    simp only [Command.bytes, noNul_append, noNul_cons]
    exact ⟨hlit, by decide, topic.noNul, by decide, noNul_printInt _, hnl⟩
  | unsubscribe topic =>
    have hlit : NoNul (ascii "unsubscribe") := by decide
    have hnl : NoNul (ascii "\n") := by decide
    simp only [Command.bytes, noNul_append, noNul_cons]
    exact ⟨hlit, by decide, topic.noNul, hnl⟩

/-- A command is far shorter than the receive buffer. -/
theorem Command.length_lt (c : Command) : c.bytes.length < MAX_LEN := by
  have h9 : (ascii "subscribe").length = 9 := by decide
  have h11 : (ascii "unsubscribe").length = 11 := by decide
  have h1 : (ascii "\n").length = 1 := by decide
  cases c with
  | subscribe topic SF =>
    have hSF := length_printInt_le (Int32.printed_range SF).1 (Int32.printed_range SF).2
    have htopic : topic.bytes.length ≤ 50 := topic.length_le
    simp only [Command.bytes, List.length_append, List.length_cons, h9, h1, MAX_LEN]
    omega
  | unsubscribe topic =>
    have htopic : topic.bytes.length ≤ 50 := topic.length_le
    simp only [Command.bytes, List.length_append, List.length_cons, h11, h1, MAX_LEN]
    omega

theorem Command.bufferString_bytes (c : Command) : bufferString MAX_LEN c.bytes = some c.bytes :=
  bufferString_of_clean c.length_lt c.noNul

/-- The scan of a subscribe line yields the word, the topic and the flag, whatever ends the line. -/
theorem sscanf_subscribe_line (topic : Token TOPIC_SIZE) (SF : Int32) {rest : Bytes} (hr : StopsAt isDigit rest) :
    sscanf [.word 16, .word 51, .int] (ascii "subscribe" ++ 32 :: (topic.bytes ++ 32 :: (printInt SF.toInt ++ rest))) =
      some [.word (ascii "subscribe"), .word topic.bytes, .int SF.toInt] := by
  have hword : ∀ c ∈ ascii "subscribe", isSpace c = false := by decide
  rw [sscanf_word _ (by decide) hword (by decide) (stopsAt_blank _).1, sscanf_space,
    sscanf_token topic (by decide) _ (stopsAt_blank _).1, sscanf_space,
    sscanf_printInt (Int32.printed_range SF).1 (Int32.printed_range SF).2 _ hr]
  rfl

theorem sscanf_subscribe (topic : Token TOPIC_SIZE) (SF : Int32) :
    sscanf [.word 16, .word 51, .int] (Command.subscribe topic SF).bytes =
      some [.word (ascii "subscribe"), .word topic.bytes, .int SF.toInt] :=
  sscanf_subscribe_line topic SF (show isDigit 10 = false by decide)

theorem sscanf_unsubscribe (topic : Token TOPIC_SIZE) :
    sscanf [.word 16, .word 51] (Command.unsubscribe topic).bytes =
      some [.word (ascii "unsubscribe"), .word topic.bytes] := by
  have hword : ∀ c ∈ ascii "unsubscribe", isSpace c = false := by decide
  have hnl : StopsAt isWordByte (ascii "\n") := show isWordByte 10 = false by decide
  rw [Command.bytes,
    sscanf_word _ (by decide) hword (by decide) (stopsAt_blank _).1, sscanf_space,
    sscanf_token topic (by decide) _ hnl]
  rfl

/-- **One whole command in one `recv`** has exactly the effect of the command. -/
theorem onCommand_bytes (s : State) (i : ℕ) (c : Command) (stale : Stale) :
    onCommand s i c.bytes stale = c.run s i := by
  have htake : c.bytes.take MAX_LEN = c.bytes := List.take_of_length_le c.length_lt.le
  have happend : ∀ lit rest, startsWith lit (lit ++ rest) = true := fun lit rest => by
    simp [startsWith]
  unfold onCommand
  simp only [htake, c.bufferString_bytes, Option.bind_some]
  cases c with
  | subscribe topic SF =>
    have hun : startsWith (ascii "unsubscribe") (Command.subscribe topic SF).bytes = false := rfl
    have hsub : startsWith (ascii "subscribe") (Command.subscribe topic SF).bytes = true :=
      happend _ _
    simp only [hun, hsub, Bool.false_eq_true, if_false, if_true, sscanf_subscribe]
    rfl
  | unsubscribe topic =>
    have hun : startsWith (ascii "unsubscribe") (Command.unsubscribe topic).bytes = true :=
      happend _ _
    simp only [hun, if_true, sscanf_unsubscribe]
    rfl

end Pcom.Tema2.Commands
