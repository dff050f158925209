import Pcom.Partial.Accounts
import Pcom.Partial.Client

/-!
# The terminal of the account client

What the user types and what the user is shown: the lines of the client's four commands with the datagrams built
for them, and the server's answers with the texts printed for them.

* `onAnswer` — the socket branch of the loop;
* `stdinCommand_text` — a well-formed line is sent as the command it means, or not sent at all;
* `onAnswer_datagram` — every answer of the server is shown with its own sum; only `;USER_EXISTS;` ends the client;
* `text_injective` — what is printed tells the answers and their sums apart;
* `answers_of_apply` — the server sends no other answers.
-/

namespace Pcom.Partial.Terminal

open Pcom.Lib.Scan Pcom.Lib.Words Pcom.Partial.Accounts Pcom.Partial.Client Pcom.Partial.Server

/-! ### Lines -/

/-- The lines that the client's commands are typed with. -/
inductive Line
  | sendTo (id : Id) (sum : Int32)
  | showSum
  | get (sum : Int32)
  | exit

/-- The line without its end. -/
def Line.body : Line → Bytes
  | .sendTo id sum => ascii "send_to" ++ 32 :: (id.bytes ++ 32 :: printInt sum.toInt)
  | .showSum => ascii "show_sum"
  | .get sum => ascii "get" ++ 32 :: printInt sum.toInt
  | .exit => ascii "exit"

/-- What is typed. -/
def Line.text (line : Line) : Bytes := line.body ++ [10]

/-- The command sent for a line by the client with id `a`: none to its own account, none with the sum zero. -/
def Line.command (a : Id) : Line → Option Command
  | .sendTo id sum => if id.bytes = a.bytes ∨ sum.toInt = 0 then none else some (.sendTo id sum)
  | .showSum => some (.showSum a)
  | .get sum => if sum.toInt = 0 then none else some (.get sum a)
  | .exit => some (.exit a)

/-- A line that ends the client. -/
def Line.ends : Line → Bool
  | .exit => true
  | _ => false

/-- The commands of a client with id `a`: all but `send_to` name its own account. -/
def Own (a : Id) : Command → Prop
  | .sendTo _ _ => True
  | cmd => idOf cmd = a

/-- The sum of a command. -/
def sums : Command → List Int32
  | .sendTo _ sum => [sum]
  | .get sum _ => [sum]
  | _ => []

/-- The sum of a line. -/
def Line.sums : Line → List Int32
  | .sendTo _ sum => [sum]
  | .get sum => [sum]
  | _ => []

theorem own_of_command {a : Id} {line : Line} {cmd : Command} (h : line.command a = some cmd) :
    Own a cmd ∧ sums cmd = line.sums := by
  cases line with
  | sendTo id sum =>
    simp only [Line.command] at h
    split at h
    · cases h
    · cases h
      exact ⟨trivial, rfl⟩
  | get sum =>
    simp only [Line.command] at h
    split at h
    · cases h
    · cases h
      exact ⟨rfl, rfl⟩
  | showSum =>
    cases h
    exact ⟨rfl, rfl⟩
  | exit =>
    cases h
    exact ⟨rfl, rfl⟩

/-! ### Answers -/

/-- The answers of the server. -/
inductive Answer
  | userExists
  | moneySent
  | moneyNoSent
  | showSum (sum : ℤ)
  | getError
  | getMoney (sum : ℤ)
  deriving DecidableEq

/-- The bytes of an answer on the wire. -/
def Answer.datagram : Answer → Bytes
  | .userExists => ascii ";USER_EXISTS;\n"
  | .moneySent => ascii ";MONEY_SENT;\n"
  | .moneyNoSent => ascii ";MONEY_NOSENT;\n"
  | .showSum sum => ascii ";SHOW_SUM " ++ printInt sum
  | .getError => ascii ";GET_ERROR;\n"
  | .getMoney sum => ascii ";GET_MONEY " ++ printInt sum

/-- What the client prints for an answer. -/
def Answer.text : Answer → Bytes
  | .userExists => ascii "Exista deja un user conectat cu acest ID\n"
  | .moneySent => ascii "Banii au fost trimisi cu success\n"
  | .moneyNoSent => ascii "Nu exista userul pentru care ai vrut sa trimiti banii\n"
  | .showSum sum => ascii "Suma din cont este: " ++ printInt sum ++ [10]
  | .getError => ascii "Suma de bani din cont este prea mica\n"
  | .getMoney sum => ascii "Ai primit suma: " ++ printInt sum ++ [10]

/-- Does the client's loop go on after the answer? -/
def Answer.goesOn : Answer → Bool
  | .userExists => false
  | _ => true

/-- The sum of an answer fits an `int`. -/
def Answer.Fits : Answer → Prop
  | .showSum sum => FitsInt sum
  | .getMoney sum => FitsInt sum
  | _ => True

/-- The socket branch of the client's loop: the answer whose text is printed, and whether the loop goes on. -/
def onAnswer (datagram : Bytes) : Option (Option Answer × Bool) := do
  if startsWith (ascii ";USER_EXISTS;") datagram then return (some .userExists, false)
  else if startsWith (ascii ";MONEY_SENT;") datagram then return (some .moneySent, true)
  else if startsWith (ascii ";MONEY_NOSENT;") datagram then return (some .moneyNoSent, true)
  else if startsWith (ascii ";SHOW_SUM") datagram then
    let args ← sscanf [.word 100, .int] (← bufferString MAX_LEN datagram)
    return (some (.showSum (intArg args 1 0)), true)
  else if startsWith (ascii ";GET_ERROR;") datagram then return (some .getError, true)
  else if startsWith (ascii ";GET_MONEY") datagram then
    let args ← sscanf [.word 100, .int] (← bufferString MAX_LEN datagram)
    return (some (.getMoney (intArg args 1 0)), true)
  else if startsWith (ascii ";EXIT;") datagram then return (none, false)
  else return (none, true)

/-! ### The lines are sent -/

/-- The body of a line is short, and has no zero byte and no line end. -/
theorem Line.body_clean (line : Line) : line.body.length ≤ 70 ∧ ∀ c ∈ line.body, c ≠ 0 ∧ c ≠ 10 := by
  have hnumber : ∀ sum : Int32, ∀ c ∈ printInt sum.toInt, c ≠ 0 ∧ c ≠ 10 := fun sum c hc => (printInt_clean hc).2
  have htoken : ∀ id : Id, ∀ c ∈ id.bytes, c ≠ 0 ∧ c ≠ 10 := by
    intro id c hc
    obtain ⟨hspace, hzero⟩ := id.clean c hc
    refine ⟨hzero, ?_⟩
    rintro rfl
    exact absurd hspace (by decide)
  cases line with
  | sendTo id sum =>
    have hid := id.length_le
    have hsum := length_printInt_int32 sum
    refine ⟨?_, ?_⟩
    · simp only [body, List.length_append, List.length_cons]
      have hword : (ascii "send_to").length = 7 := by decide
      omega
    · simp only [body, List.forall_mem_append, List.forall_mem_cons]
      exact ⟨by decide, by decide, htoken id, by decide, hnumber sum⟩
  | get sum =>
    have hsum := length_printInt_int32 sum
    refine ⟨?_, ?_⟩
    · simp only [body, List.length_append, List.length_cons]
      have hword : (ascii "get").length = 3 := by decide
      omega
    · simp only [body, List.forall_mem_append, List.forall_mem_cons]
      exact ⟨by decide, by decide, hnumber sum⟩
  | showSum => exact ⟨by decide, by decide⟩
  | exit => exact ⟨by decide, by decide⟩

/-- `fgets` and the cut at the line end leave the body. -/
theorem readLine_text (line : Line) : readLine line.text = line.body := by
  obtain ⟨hlen, hclean⟩ := line.body_clean
  have htake : line.text.take (MAX_LEN - 2) = line.text := by
    apply List.take_of_length_le
    rw [Line.text, List.length_append, List.length_singleton, MAX_LEN]
    omega
  have hcut : line.text.takeWhile (· != 10) = line.body := by
    apply takeWhile_append_stop
    · intro c hc
      exact bne_iff_ne.mpr (hclean c hc).2
    · show (10 != 10) = false
      rfl
  rw [readLine, htake, hcut]
  exact cString_eq_self fun c hc => (hclean c hc).1

theorem words_body_sendTo (id : Id) (sum : Int32) :
    words (Line.sendTo id sum).body = [ascii "send_to", id.bytes, printInt sum.toInt] := by
  rw [Line.body, words_append_blank, words_append_blank, words_token,
    words_single (printInt_ne_nil _) fun c hc => (printInt_clean hc).1]
  rfl

theorem words_body_get (sum : Int32) : words (Line.get sum).body = [ascii "get", printInt sum.toInt] := by
  rw [Line.body, words_append_blank, words_single (printInt_ne_nil _) fun c hc => (printInt_clean hc).1]
  rfl

theorem atoi_printInt (sum : Int32) : atoi (printInt sum.toInt) = sum.toInt := by
  have hscan := scanInt_printInt sum.le_toInt sum.toInt_lt (show StopsAt isDigit [] from trivial)
  rw [List.append_nil] at hscan
  rw [atoi, hscan]
  rfl

theorem appendId_body (text : Bytes) (htext : text.length ≤ 70) (a : Id) :
    appendId text a.bytes = some (text ++ 32 :: a.bytes) := by
  have hlen := a.length_le
  rw [appendId, if_pos]
  rw [List.length_append, List.length_cons, MAX_LEN]
  omega

/-- **A well-formed line** is sent as the command it means, whatever the uninitialised variables held. -/
theorem stdinCommand_text (a : Id) (line : Line) (stale : StaleWords) :
    stdinCommand a.bytes line.text stale = some ((line.command a).map render) := by
  have hread := readLine_text line
  cases line with
  | sendTo id sum =>
    have hid : id.bytes.length < 50 := lt_of_le_of_lt id.length_le (by decide)
    have hsum : (printInt sum.toInt).length < 50 := lt_of_le_of_lt (length_printInt_int32 sum) (by decide)
    have hscan : sscanf [.word 50, .word 50, .word 50] (Line.sendTo id sum).body =
        some [.word (ascii "send_to"), .word id.bytes, .word (printInt sum.toInt)] := by
      have hwords := sscanf_words 50 3 (Line.sendTo id sum).body
      rw [words_body_sendTo, if_pos] at hwords
      · exact hwords
      · simp only [List.take, List.forall_mem_cons]
        exact ⟨by decide, hid, hsum, fun _ h => absurd h List.not_mem_nil⟩
    have hword : startsWith (ascii "send_to") (Line.sendTo id sum).body = true := rfl
    simp only [stdinCommand, hread, hword, if_true, hscan, Option.bind_eq_bind, Option.bind_some, wordArg,
      List.getElem?_cons_succ, List.getElem?_cons_zero, atoi_printInt, Line.command]
    by_cases hown : id.bytes = a.bytes
    · rw [if_pos hown, if_pos (Or.inl hown)]
      rfl
    · by_cases hzero : sum.toInt = 0
      · rw [if_neg hown, if_pos hzero, if_pos (Or.inr hzero)]
        rfl
      · rw [if_neg hown, if_neg hzero, if_neg (not_or.mpr ⟨hown, hzero⟩)]
        rfl
  | get sum =>
    have hsum : (printInt sum.toInt).length < 50 := lt_of_le_of_lt (length_printInt_int32 sum) (by decide)
    have hscan : sscanf [.word 50, .word 50] (Line.get sum).body =
        some [.word (ascii "get"), .word (printInt sum.toInt)] := by
      have hwords := sscanf_words 50 2 (Line.get sum).body
      rw [words_body_get, if_pos] at hwords
      · exact hwords
      · simp only [List.take, List.forall_mem_cons]
        exact ⟨by decide, hsum, fun _ h => absurd h List.not_mem_nil⟩
    have hother : startsWith (ascii "send_to") (Line.get sum).body = false ∧
        startsWith (ascii "show_sum") (Line.get sum).body = false := ⟨rfl, rfl⟩
    have hword : startsWith (ascii "get") (Line.get sum).body = true := rfl
    simp only [stdinCommand, hread, hother, hword, Bool.false_eq_true, if_false, if_true, hscan, Option.bind_eq_bind,
      Option.bind_some, wordArg, List.getElem?_cons_succ, List.getElem?_cons_zero, atoi_printInt, Line.command,
      appendId_body _ (Line.body_clean _).1]
    by_cases hzero : sum.toInt = 0
    · rw [if_pos hzero, if_pos hzero]
      rfl
    · rw [if_neg hzero, if_neg hzero, Line.body, List.append_assoc, List.cons_append]
      rfl
  | showSum =>
    have hother : startsWith (ascii "send_to") Line.showSum.body = false := rfl
    have hword : startsWith (ascii "show_sum") Line.showSum.body = true := rfl
    have happend := appendId_body (ascii "show_sum") (by decide) a
    simp only [stdinCommand, hread, hother, hword, Bool.false_eq_true, if_false, if_true, happend,
      Option.bind_eq_bind, Option.bind_some]
    rfl
  | exit =>
    have hother : startsWith (ascii "send_to") Line.exit.body = false ∧
        startsWith (ascii "show_sum") Line.exit.body = false ∧ startsWith (ascii "get") Line.exit.body = false :=
      ⟨rfl, rfl, rfl⟩
    have hword : startsWith (ascii "exit") Line.exit.body = true := rfl
    have happend := appendId_body (ascii "exit") (by decide) a
    simp only [stdinCommand, hread, hother, hword, Bool.false_eq_true, if_false, if_true, happend,
      Option.bind_eq_bind, Option.bind_some]
    rfl

/-- The client's `exit` branch is entered by the `exit` line alone. -/
theorem ends_text (line : Line) : startsWith (ascii "exit") (readLine line.text) = line.ends := by
  rw [readLine_text]
  cases line <;> rfl

/-! ### The answers are shown -/

theorem sscanf_answer {word : Bytes} (hne : word ≠ []) (hw : ∀ c ∈ word, isSpace c = false)
    (hlen : word.length < 100) {sum : ℤ} (hsum : FitsInt sum) :
    sscanf [.word 100, .int] (word ++ 32 :: printInt sum) = some [.word word, .int sum] := by
  have hint := sscanf_printInt hsum.1 hsum.2 [] (show StopsAt isDigit [] from trivial)
  rw [List.append_nil] at hint
  rw [sscanf_word _ hne hw hlen (stopsAt_blank _).1, sscanf_space, hint]
  rfl

theorem bufferString_answer {word : Bytes} (hw : NoNul word) (hlen : word.length < 100) {sum : ℤ}
    (hsum : FitsInt sum) : bufferString MAX_LEN (word ++ 32 :: printInt sum) = some (word ++ 32 :: printInt sum) := by
  apply bufferString_of_clean
  · have hnumber := length_printInt_le hsum.1 hsum.2
    rw [List.length_append, List.length_cons, MAX_LEN]
    omega
  · simp [hw, noNul_printInt]

/-- **Every answer of the server** is shown with its own sum; only `;USER_EXISTS;` ends the client. -/
theorem onAnswer_datagram {answer : Answer} (hfits : answer.Fits) :
    onAnswer answer.datagram = some (some answer, answer.goesOn) := by
  cases answer with
  | userExists => rfl
  | moneySent => rfl
  | moneyNoSent => rfl
  | getError => rfl
  | showSum sum =>
    have hbuf := bufferString_answer (show NoNul (ascii ";SHOW_SUM") by decide) (by decide) hfits
    have hscan := sscanf_answer (show ascii ";SHOW_SUM" ≠ [] by decide) (by decide) (by decide) hfits
    show (bufferString MAX_LEN (ascii ";SHOW_SUM" ++ 32 :: printInt sum)).bind _ = _
    rw [hbuf, Option.bind_some, hscan]
    rfl
  | getMoney sum =>
    have hbuf := bufferString_answer (show NoNul (ascii ";GET_MONEY") by decide) (by decide) hfits
    have hscan := sscanf_answer (show ascii ";GET_MONEY" ≠ [] by decide) (by decide) (by decide) hfits
    show (bufferString MAX_LEN (ascii ";GET_MONEY" ++ 32 :: printInt sum)).bind _ = _
    rw [hbuf, Option.bind_some, hscan]
    rfl

theorem datagram_injective {answer answer' : Answer} (hfits : answer.Fits) (hfits' : answer'.Fits)
    (h : answer.datagram = answer'.datagram) : answer = answer' := by
  have hread := onAnswer_datagram hfits
  rw [h, onAnswer_datagram hfits'] at hread
  exact (Option.some.inj (Prod.mk.inj (Option.some.inj hread)).1).symm

theorem printInt_injective {m n : ℤ} (hm : FitsInt m) (hn : FitsInt n) (h : printInt m ++ [10] = printInt n ++ [10]) :
    m = n := by
  have hstop : StopsAt isDigit [10] := show isDigit 10 = false by decide
  have hread := scanInt_printInt hm.1 hm.2 hstop
  rw [h, scanInt_printInt hn.1 hn.2 hstop] at hread
  exact (Prod.mk.inj (Option.some.inj hread)).1.symm

/-- **What the user reads** tells what the server answered. -/
theorem text_injective {answer answer' : Answer} (hfits : answer.Fits) (hfits' : answer'.Fits)
    (h : answer.text = answer'.text) : answer = answer' := by
  -- the first eight characters tell the kinds of answers apart
  have hhead := congrArg (List.take 8) h
  cases answer with
  | showSum sum =>
    cases answer' with
    | showSum sum' =>
      rw [Answer.text, Answer.text, List.append_assoc, List.append_assoc] at h
      rw [printInt_injective hfits hfits' (List.append_cancel_left h)]
    | _ => simp [Answer.text, ascii] at hhead
  | getMoney sum =>
    cases answer' with
    | getMoney sum' =>
      rw [Answer.text, Answer.text, List.append_assoc, List.append_assoc] at h
      rw [printInt_injective hfits hfits' (List.append_cancel_left h)]
    | _ => simp [Answer.text, ascii] at hhead
  | _ => cases answer' <;> first | rfl | simp [Answer.text, ascii] at hhead

/-- The answers to a command, by the account it names. -/
def replies : Command → Option User → List Answer
  | .connect _, some u => if u.isConnected then [.userExists] else []
  | .sendTo _ _, none => [.moneyNoSent]
  | .sendTo _ _, some _ => [.moneySent]
  | .showSum _, some u => [.showSum u.money]
  | .get sum _, some u => if u.money < sum.toInt then [.getError] else [.getMoney sum.toInt]
  | _, _ => []

/-- **The server sends no other answers.** -/
theorem answers_of_apply {users : Users} {cmd : Command} {r : Reply} (h : apply users cmd = some r) :
    r.2 = (replies cmd (users (idOf cmd).bytes)).map Answer.datagram := by
  cases cmd with
  | connect id =>
    obtain rfl := Option.some.inj h
    unfold connect
    show _ = (replies (.connect id) (users id.bytes)).map Answer.datagram
    cases users id.bytes with
    | none => rfl
    | some u =>
      simp only [replies]
      split
      · rfl
      · rfl
  | sendTo id sum =>
    obtain rfl := Option.some.inj h
    unfold sendTo
    show _ = (replies (.sendTo id sum) (users id.bytes)).map Answer.datagram
    cases users id.bytes with
    | none => rfl
    | some u => rfl
  | showSum id =>
    obtain ⟨u, hu, rfl⟩ := Option.map_eq_some_iff.mp h
    rw [idOf, hu]
    rfl
  | get sum id =>
    obtain ⟨u, hu, rfl⟩ := Option.map_eq_some_iff.mp h
    rw [idOf, hu]
    simp only [replies]
    split
    · rfl
    · rfl
  | exit id =>
    obtain ⟨u, hu, rfl⟩ := Option.map_eq_some_iff.mp h
    rw [idOf, hu]
    rfl

/-- The sums in the answers fit an `int`. -/
theorem fits_of_replies {cmd : Command} {account : Option User} (hint : ∀ u, account = some u → FitsInt u.money)
    {answer : Answer} (h : answer ∈ replies cmd account) : answer.Fits := by
  unfold replies at h
  split at h
  · split at h
    · rw [List.mem_singleton.mp h]
      trivial
    · cases h
  · rw [List.mem_singleton.mp h]
    trivial
  · rw [List.mem_singleton.mp h]
    trivial
  · rename_i u
    rw [List.mem_singleton.mp h]
    exact hint u rfl
  · rename_i sum _ u
    split at h
    · rw [List.mem_singleton.mp h]
      trivial
    · rw [List.mem_singleton.mp h]
      exact ⟨sum.le_toInt, sum.toInt_lt⟩
  · cases h

end Pcom.Partial.Terminal
