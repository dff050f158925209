import Mathlib.Logic.Function.Basic
import Pcom.Lib.Scan
import Pcom.Lib.StepSystem

/-!
# The account server of `Partial/server.cpp`

One datagram is one step.  The received bytes are matched against the command words by prefix and then
read with `sscanf` into block-local variables; a field the datagram lacks leaves such a variable with
whatever its storage held, which is the `Stale` input of the step.  A step is undefined (`none`)
where the program dereferences `users.end()` or overflows a buffer.

* `serve` — the body of the receive loop, branch by branch;
* `Command`, `render` — the datagrams the client program builds;
* `serve_render` — a rendered command reaches the branch of its word with its own fields.

The socket set-up, the `exit` line on the server's own stdin and the server's console are left out.
-/

namespace Pcom.Partial.Server

open Pcom.Lib.Scan

/-- `struct user`. -/
structure User where
  money : ℤ
  isConnected : Bool
  deriving DecidableEq

/-- `unordered_map<string, user> users`. -/
abbrev Users := Bytes → Option User

def MAX_LEN : ℕ := 1600

/-- `INT_MAX`. -/
def INT_MAX : ℤ := 2 ^ 31 - 1

/-- What the storage of the block-local `id` and `sum` held before the scan. -/
structure Stale where
  id : Bytes
  sum : ℤ

/-- The new map and the datagrams sent back to the client. -/
abbrev Reply := Users × List Bytes

/-! ### The branches of the receive loop -/

def connect (users : Users) (id : Bytes) : Reply :=
  match users id with
  | none => (Function.update users id (some ⟨0, true⟩), [])
  | some searchUser =>
    if searchUser.isConnected then (users, [ascii ";USER_EXISTS;\n"])
    else (Function.update users id (some ⟨searchUser.money, true⟩), [])

def sendTo (users : Users) (id : Bytes) (sum : ℤ) : Reply :=
  match users id with
  | none => (users, [ascii ";MONEY_NOSENT;\n"])
  | some searchUser =>
    (Function.update users id (some ⟨toInt (searchUser.money + sum), searchUser.isConnected⟩),
      [ascii ";MONEY_SENT;\n"])

/-- The result of `find` is used without a test: an unknown id dereferences `users.end()`. -/
def showSum (users : Users) (id : Bytes) : Option Reply :=
  (users id).map fun searchUser => (users, [ascii ";SHOW_SUM " ++ printInt searchUser.money])

def get (users : Users) (id : Bytes) (sum : ℤ) : Option Reply :=
  (users id).map fun searchUser =>
    if searchUser.money < sum then (users, [ascii ";GET_ERROR;\n"])
    else
      (Function.update users id
          (some ⟨toInt (searchUser.money - sum), searchUser.isConnected⟩),
        [ascii ";GET_MONEY " ++ printInt sum])

def exit (users : Users) (id : Bytes) : Option Reply :=
  (users id).map fun searchUser =>
    (Function.update users id (some ⟨searchUser.money, false⟩), [])

/-- The body of the receive loop on one datagram. -/
def serve (users : Users) (datagram : Bytes) (stale : Stale) : Option Reply := do
  if startsWith (ascii "CONNECT") datagram then
    let args ← sscanf [.word 50, .word 50] (← bufferString MAX_LEN datagram)
    return connect users (wordArg args 1 stale.id)
  else if startsWith (ascii "send_to") datagram then
    let args ← sscanf [.word 50, .word 50, .int] (← bufferString MAX_LEN datagram)
    -- `sum` is the one variable with an initialiser
    return sendTo users (wordArg args 1 stale.id) (intArg args 2 0)
  else if startsWith (ascii "show_sum") datagram then
    let args ← sscanf [.word 50, .word 50] (← bufferString MAX_LEN datagram)
    showSum users (wordArg args 1 stale.id)
  else if startsWith (ascii "get") datagram then
    let args ← sscanf [.word 50, .int, .word 50] (← bufferString MAX_LEN datagram)
    get users (wordArg args 2 stale.id) (intArg args 1 stale.sum)
  else if startsWith (ascii "exit") datagram then
    let args ← sscanf [.word 50, .word 50] (← bufferString MAX_LEN datagram)
    exit users (wordArg args 1 stale.id)
  else return (users, [])

/-! ### Well-formed datagrams -/

/-- An account id that fits `char id[50]`. -/
abbrev Id := Token 49

/-- The datagrams of `client.cpp`, with their fields. -/
inductive Command
  | connect (id : Id)
  | sendTo (id : Id) (sum : Int32)
  | showSum (id : Id)
  | get (sum : Int32) (id : Id)
  | exit (id : Id)

/-- The bytes of a command on the wire. -/
def render : Command → Bytes
  | .connect id => ascii "CONNECT" ++ 32 :: id.bytes
  | .sendTo id sum => ascii "send_to" ++ 32 :: (id.bytes ++ 32 :: printInt sum.toInt)
  | .showSum id => ascii "show_sum" ++ 32 :: id.bytes
  | .get sum id => ascii "get" ++ 32 :: (printInt sum.toInt ++ 32 :: id.bytes)
  | .exit id => ascii "exit" ++ 32 :: id.bytes

/-- What the server does with a command whose fields it has read. -/
def apply (users : Users) : Command → Option Reply
  | .connect id => some (connect users id.bytes)
  | .sendTo id sum => some (sendTo users id.bytes sum.toInt)
  | .showSum id => showSum users id.bytes
  | .get sum id => get users id.bytes sum.toInt
  | .exit id => exit users id.bytes

/-! ### The server reads back what the client wrote -/

theorem length_printInt_int32 (n : Int32) : (printInt n.toInt).length ≤ 11 :=
  length_printInt_le n.le_toInt n.toInt_lt

/-- A command has no zero byte and fits the receive buffer. -/
theorem bufferString_render (cmd : Command) :
    bufferString MAX_LEN (render cmd) = some (render cmd) := by
  apply bufferString_of_clean
  · cases cmd with
    | connect id | showSum id | exit id =>
      have := id.length_le
      simp [render, ascii, MAX_LEN]
      omega
    | sendTo id sum | get sum id =>
      have := id.length_le
      have := length_printInt_int32 sum
      simp [render, ascii, MAX_LEN]
      omega
  · have hword : NoNul (ascii "CONNECT") ∧ NoNul (ascii "send_to") ∧ NoNul (ascii "show_sum") ∧
        NoNul (ascii "get") ∧ NoNul (ascii "exit") := by decide
    cases cmd <;> simp [render, hword, Token.noNul, noNul_printInt]

/-- A word in front of a blank is read by the first conversion. -/
theorem sscanf_word_blank {word rest : Bytes} (f : Conv) (fs : List Conv) (hne : word ≠ [])
    (hw : ∀ c ∈ word, isSpace c = false) (hlen : word.length < 50) :
    sscanf (.word 50 :: f :: fs) (word ++ 32 :: rest) =
      (sscanf (f :: fs) rest).map (.word word :: ·) := by
  rw [sscanf_word _ hne hw hlen (stopsAt_blank _).1, sscanf_space]

theorem sscanf_id (id : Id) : sscanf [.word 50] id.bytes = some [.word id.bytes] := by
  simpa [sscanf] using sscanf_token id (show 49 < 50 by decide) [] (show StopsAt isWordByte [] from trivial)

/-- `"%s %s"` on a command word followed by an id. -/
theorem sscanf_word_id {word : Bytes} (hne : word ≠ []) (hw : ∀ c ∈ word, isSpace c = false)
    (hlen : word.length < 50) (id : Id) :
    sscanf [.word 50, .word 50] (word ++ 32 :: id.bytes) = some [.word word, .word id.bytes] := by
  rw [sscanf_word_blank _ _ hne hw hlen, sscanf_id]
  rfl

theorem sscanf_sendTo (id : Id) (sum : Int32) :
    sscanf [.word 50, .word 50, .int] (render (.sendTo id sum)) =
      some [.word (ascii "send_to"), .word id.bytes, .int sum.toInt] := by
  have hsum : sscanf [.int] (printInt sum.toInt) = some [.int sum.toInt] := by
    simpa [sscanf] using
      sscanf_printInt sum.le_toInt sum.toInt_lt [] (show StopsAt isDigit [] from trivial)
  rw [render, sscanf_word_blank _ _ (by decide) (by decide) (by decide),
    sscanf_word_blank _ _ id.ne_nil (fun c hc => (id.clean c hc).1)
      (lt_of_le_of_lt id.length_le (by decide)), hsum]
  rfl

theorem sscanf_get (sum : Int32) (id : Id) :
    sscanf [.word 50, .int, .word 50] (render (.get sum id)) =
      some [.word (ascii "get"), .int sum.toInt, .word id.bytes] := by
  rw [render, sscanf_word_blank _ _ (by decide) (by decide) (by decide),
    sscanf_printInt sum.le_toInt sum.toInt_lt _ (stopsAt_blank _).2, sscanf_space,
    sscanf_id]
  rfl

/-- **A well-formed datagram reaches the branch of its command word with its own fields**, whatever
the uninitialised variables held. -/
theorem serve_render (users : Users) (cmd : Command) (stale : Stale) :
    serve users (render cmd) stale = apply users cmd := by
  have hbuf := bufferString_render cmd
  cases cmd with
  | connect id =>
    have hscan : sscanf [.word 50, .word 50] (ascii "CONNECT" ++ 32 :: id.bytes) = _ :=
      sscanf_word_id (by decide) (by decide) (by decide) id
    have hword : startsWith (ascii "CONNECT") (render (.connect id)) = true := rfl
    rw [serve, if_pos hword, hbuf, render]
    simp only [Option.bind_eq_bind, Option.bind_some, hscan]
    rfl
  | sendTo id sum =>
    have hother : startsWith (ascii "CONNECT") (render (.sendTo id sum)) = false := rfl
    have hword : startsWith (ascii "send_to") (render (.sendTo id sum)) = true := rfl
    rw [serve, if_neg (by simp [hother]), if_pos hword, hbuf]
    simp only [Option.bind_eq_bind, Option.bind_some, sscanf_sendTo]
    rfl
  | showSum id =>
    have hscan : sscanf [.word 50, .word 50] (ascii "show_sum" ++ 32 :: id.bytes) = _ :=
      sscanf_word_id (by decide) (by decide) (by decide) id
    have hother : startsWith (ascii "CONNECT") (render (.showSum id)) = false ∧
        startsWith (ascii "send_to") (render (.showSum id)) = false := ⟨rfl, rfl⟩
    have hword : startsWith (ascii "show_sum") (render (.showSum id)) = true := rfl
    rw [serve, if_neg (by simp [hother]), if_neg (by simp [hother]), if_pos hword, hbuf, render]
    simp only [Option.bind_eq_bind, Option.bind_some, hscan]
    rfl
  | get sum id =>
    have hother : startsWith (ascii "CONNECT") (render (.get sum id)) = false ∧
        startsWith (ascii "send_to") (render (.get sum id)) = false ∧
        startsWith (ascii "show_sum") (render (.get sum id)) = false := ⟨rfl, rfl, rfl⟩
    have hword : startsWith (ascii "get") (render (.get sum id)) = true := rfl
    rw [serve, if_neg (by simp [hother]), if_neg (by simp [hother]), if_neg (by simp [hother]),
      if_pos hword, hbuf]
    simp only [Option.bind_eq_bind, Option.bind_some, sscanf_get]
    rfl
  | exit id =>
    have hscan : sscanf [.word 50, .word 50] (ascii "exit" ++ 32 :: id.bytes) = _ :=
      sscanf_word_id (by decide) (by decide) (by decide) id
    have hother : startsWith (ascii "CONNECT") (render (.exit id)) = false ∧
        startsWith (ascii "send_to") (render (.exit id)) = false ∧
        startsWith (ascii "show_sum") (render (.exit id)) = false ∧
        startsWith (ascii "get") (render (.exit id)) = false := ⟨rfl, rfl, rfl, rfl⟩
    have hword : startsWith (ascii "exit") (render (.exit id)) = true := rfl
    rw [serve, if_neg (by simp [hother]), if_neg (by simp [hother]), if_neg (by simp [hother]),
      if_neg (by simp [hother]), if_pos hword, hbuf, render]
    simp only [Option.bind_eq_bind, Option.bind_some, hscan]
    rfl

end Pcom.Partial.Server
