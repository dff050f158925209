import Pcom.Lib.Words
import Pcom.Partial.Server

/-!
# The account client of `Partial/client.cpp`

One line typed on stdin is one step: `fgets` reads it into `buf`, the command word is matched by
prefix, and at most one datagram goes to the server.  `send_to` sends the line as it was typed, `get`
sends it with the client's own id appended; both look at the line with `sscanf` first, into block-local
arrays that keep what their storage held (`Stale`) where a word is missing.  A step is undefined
(`none`) where an array overflows.

* `stdinCommand` — the stdin branch of the loop;
* `turn` — what a line does to the server's map, through the datagram built for it;
* `serve_credit`, `serve_debit` — what the server does with a `send_to` or `get` datagram, by the words
  of the datagram.

The socket set-up, the `CONNECT` sent at start and the printing of the server's answers are left out.
-/

namespace Pcom.Partial.Client

open Pcom.Lib.Scan Pcom.Lib.Words Pcom.Partial.Server

/-- What the storage of the block-local `id` and `sumx` held before the scan. -/
structure StaleWords where
  id : Bytes
  sumx : Bytes

/-- `fgets(buf, MAX_LEN - 1, stdin)` and the cut at the line end. -/
def readLine (typed : Bytes) : Bytes := cString ((typed.take (MAX_LEN - 2)).takeWhile (· != 10))

/-- `sprintf(buffNew, "%s %s", text, argv[1])` into an array of `MAX_LEN` bytes. -/
def appendId (text id : Bytes) : Option Bytes :=
  if (text ++ 32 :: id).length < MAX_LEN then some (text ++ 32 :: id) else none

/-- The datagram sent for a line typed by the client started with `argv1`, if any. -/
def stdinCommand (argv1 : Bytes) (typed : Bytes) (stale : StaleWords) : Option (Option Bytes) := do
  let buf := readLine typed
  if startsWith (ascii "send_to") buf then
    let args ← sscanf [.word 50, .word 50, .word 50] buf
    let id := wordArg args 1 stale.id
    let sum := atoi (wordArg args 2 stale.sumx)
    if id = argv1 then return none
    else if sum = 0 then return none
    else return some buf
  else if startsWith (ascii "show_sum") buf then
    return some (← appendId (ascii "show_sum") argv1)
  else if startsWith (ascii "get") buf then
    let args ← sscanf [.word 50, .word 50] buf
    let sum := atoi (wordArg args 1 stale.sumx)
    if sum = 0 then return none
    else return some (← appendId buf argv1)
  else if startsWith (ascii "exit") buf then
    return some (← appendId (ascii "exit") argv1)
  else return none

/-- The server's map after a line typed at the client with id `a`. -/
def turn (a : Id) (typed : Bytes) (staleWords : StaleWords) (users : Users) (stale : Stale) :
    Option Users :=
  (stdinCommand a.bytes typed staleWords).bind fun sent =>
    match sent with
    | none => some users
    | some datagram => (serve users datagram stale).map Prod.fst

/-! ### The lines -/

theorem noNul_readLine (typed : Bytes) : NoNul (readLine typed) := noNul_cString _

theorem length_readLine (typed : Bytes) : (readLine typed).length < MAX_LEN := by
  have hcut : (readLine typed).length ≤ MAX_LEN - 2 :=
    (List.takeWhile_sublist _).length_le.trans
      ((List.takeWhile_sublist _).length_le.trans (List.length_take_le _ _))
  rw [MAX_LEN] at *
  omega

/-- A text starts with at most one of two literals neither of which is a beginning of the other. -/
theorem startsWith_clash {l l' s : Bytes} (hs : startsWith l s = true)
    (hl : startsWith l l' = false ∧ startsWith l' l = false) : startsWith l' s = false := by
  by_contra hs'
  rw [Bool.not_eq_false, startsWith, List.isPrefixOf_iff_prefix] at hs'
  rw [startsWith, List.isPrefixOf_iff_prefix] at hs
  rcases List.prefix_or_prefix_of_prefix hs hs' with h | h <;>
    rw [← List.isPrefixOf_iff_prefix] at h
  · exact absurd (h.symm.trans hl.1) (by decide)
  · exact absurd (h.symm.trans hl.2) (by decide)

theorem startsWith_append {l s : Bytes} (hs : startsWith l s = true) (r : Bytes) :
    startsWith l (s ++ r) = true := by
  rw [startsWith, List.isPrefixOf_iff_prefix] at hs ⊢
  exact hs.trans (List.prefix_append s r)

/-- A line that starts with a command word has a first word. -/
theorem words_ne_nil {c : UInt8} {l s : Bytes} (hc : isSpace c = false)
    (hs : startsWith (c :: l) s = true) : ∃ w ws, words s = w :: ws := by
  rw [startsWith, List.isPrefixOf_iff_prefix] at hs
  obtain ⟨r, rfl⟩ := hs
  have hscan : scanWord (c :: l ++ r) = some ((c :: l ++ r).takeWhile isWordByte,
      (c :: l ++ r).dropWhile isWordByte) := by
    have hskip : skipSpace (c :: l ++ r) = c :: l ++ r := skipSpace_of_stop (show isSpace c = false from hc)
    rw [scanWord_eq, hskip, if_neg (by simp)]
  rw [words_of_scanWord, hscan]
  exact ⟨_, _, rfl⟩

/-! ### The server on words -/

/-- The id and the sum that `"%s %s %d"` reads, by the words behind the command word. -/
def creditFields (stale : Stale) (ws : List Bytes) : Bytes × ℤ :=
  (ws.headD stale.id, (ws.tail.head?.map atoi).getD 0)

/-- The sum and the id that `"%s %d %s"` reads, by the words behind the command word: the id is what is
left of the word the number starts, else the next word; `none` where it does not fit. -/
def debitFields (stale : Stale) : List Bytes → Option (ℤ × Bytes)
  | [] => some (stale.sum, stale.id)
  | w :: ws =>
    match scanInt w with
    | none => some (stale.sum, stale.id)
    | some (sum, left) =>
      match if left = [] then ws else left :: ws with
      | [] => some (sum, stale.id)
      | id :: _ => if id.length < 50 then some (sum, id) else none

theorem sscanf_credit {d w : Bytes} {ws : List Bytes} (hd : words d = w :: ws)
    (hfit : ∀ w' ∈ (words d).take 2, w'.length < 50) (stale : Stale) :
    (sscanf [.word 50, .word 50, .int] d).map
        (fun args => (wordArg args 1 stale.id, intArg args 2 0)) = some (creditFields stale ws) := by
  obtain ⟨rest, hs, hrest⟩ := words_cons hd
  rw [hd] at hfit
  have hw : w.length < 50 := hfit w (by simp)
  cases ws with
  | nil => simp [sscanf, hs, hw, scanWord_none hrest, wordArg, intArg, creditFields]
  | cons id ws =>
    obtain ⟨rest', hs', hrest'⟩ := words_cons hrest
    have hid : id.length < 50 := hfit id (by simp)
    cases ws with
    | nil => simp [sscanf, hs, hw, hs', hid, scanInt_none hrest', wordArg, intArg, creditFields]
    | cons v ws =>
      rcases scanInt_of_words hrest' with ⟨hv, hnone⟩ | ⟨n, r, rest'', hv, hsome, -⟩
      · simp [sscanf, hs, hw, hs', hid, hnone, hv, wordArg, intArg, creditFields, atoi]
      · simp [sscanf, hs, hw, hs', hid, hsome, hv, wordArg, intArg, creditFields, atoi]

theorem sscanf_debit {d w : Bytes} {ws : List Bytes} (hd : words d = w :: ws)
    (hw : w.length < 50) (stale : Stale) :
    (sscanf [.word 50, .int, .word 50] d).map
        (fun args => (intArg args 1 stale.sum, wordArg args 2 stale.id)) = debitFields stale ws := by
  obtain ⟨rest, hs, hrest⟩ := words_cons hd
  cases ws with
  | nil => simp [sscanf, hs, hw, scanInt_none hrest, wordArg, intArg, debitFields]
  | cons v ws =>
    rcases scanInt_of_words hrest with ⟨hv, hnone⟩ | ⟨n, left, rest', hv, hsome, hrest'⟩
    · simp [sscanf, hs, hw, hnone, hv, wordArg, intArg, debitFields]
    · simp only [sscanf, hs, hw, hsome, hv, debitFields, if_true]
      rw [← hrest']
      cases hid : words rest' with
      | nil => simp [scanWord_none hid, wordArg, intArg]
      | cons id ws' =>
        obtain ⟨rest'', hs', -⟩ := words_cons hid
        simp only [hs']
        split <;> simp [wordArg, intArg]

/-- **A `send_to` datagram** credits the first word behind the command word with the number at the start
of the second. -/
theorem serve_credit {d w : Bytes} {ws : List Bytes} (hword : startsWith (ascii "send_to") d = true)
    (hd : words d = w :: ws) (hfit : ∀ w' ∈ (words d).take 2, w'.length < 50)
    (hbuf : bufferString MAX_LEN d = some d) (users : Users) (stale : Stale) :
    serve users d stale =
      some (sendTo users (creditFields stale ws).1 (creditFields stale ws).2) := by
  have hother : startsWith (ascii "CONNECT") d = false := startsWith_clash hword (by decide)
  obtain ⟨args, hargs, hfields⟩ := Option.map_eq_some_iff.mp (sscanf_credit hd hfit stale)
  rw [serve, if_neg (by simp [hother]), if_pos hword, hbuf, ← hfields]
  simp only [Option.bind_eq_bind, Option.bind_some, hargs]
  rfl

/-- **A `get` datagram** debits the id that `debitFields` finds. -/
theorem serve_debit {d w : Bytes} {ws : List Bytes} (hword : startsWith (ascii "get") d = true)
    (hd : words d = w :: ws) (hw : w.length < 50) (hbuf : bufferString MAX_LEN d = some d)
    (users : Users) (stale : Stale) :
    serve users d stale = (debitFields stale ws).bind fun r => get users r.2 r.1 := by
  have hconnect : startsWith (ascii "CONNECT") d = false := startsWith_clash hword (by decide)
  have hsend : startsWith (ascii "send_to") d = false := startsWith_clash hword (by decide)
  have hshow : startsWith (ascii "show_sum") d = false := startsWith_clash hword (by decide)
  rw [serve, if_neg (by simp [hconnect]), if_neg (by simp [hsend]), if_neg (by simp [hshow]),
    if_pos hword, hbuf, ← sscanf_debit hd hw stale, Option.bind_map]
  rfl

end Pcom.Partial.Client
