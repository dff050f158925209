import Pcom.Partial.Client
import Pcom.Partial.Accounts

/-!
# What a client can do to other accounts

The client refuses a `send_to` to its own id and a sum that `atoi` reads as zero, and nothing else.  The
server therefore sees a negative credit of another id, and a `get` line whose second word is not just a
number, or that has a third word, is read as a debit of the id found there instead of the id the client
appended.

* `protects_iff` — **the exact condition**: a line leaves other accounts unharmed exactly when it is
  `Harmless`;
* `lines_take_money` — two lines typed by one client that take another's money.
-/

namespace Pcom.Partial.Protection

open Pcom.Lib.Scan Pcom.Lib.Words Pcom.Partial.Server Pcom.Partial.Accounts Pcom.Partial.Client

/-- No account but `a` loses money, and a `get` line changes no balance but that of `a`. -/
def Protects (a : Id) (line : Bytes) (users after : Users) : Prop :=
  ∀ id u, id ≠ a.bytes → users id = some u → ∃ u', after id = some u' ∧ u.money ≤ u'.money ∧
    (startsWith (ascii "get") line = true → u'.money = u.money)

/-- Adding `n` to the balance `m` does not make it smaller: `n` is not negative and does not overflow, or
it is so negative that the sum wraps around to the top. -/
def Gains (m n : ℤ) : Prop := (0 ≤ n ∧ m + n ≤ INT_MAX) ∨ m + n < -2 ^ 31

/-- A `send_to` line with the words `ws`: they fit their arrays, and if there is a sum, it credits the
account of its id. -/
def HarmlessCredit (a : Id) (users : Users) (ws : List Bytes) : Prop :=
  (∀ w ∈ ws.take 3, w.length < 50) ∧
    ∀ id sumx, ws[1]? = some id → ws[2]? = some sumx →
      id = a.bytes ∨ ∀ u, users id = some u → Gains u.money (atoi sumx)

/-- A `get` line: its words fit their arrays, and its sum is zero for the client, or the line with the
client's id appended fits `buffNew` and the account found in it is the client's own, or poorer than the
sum, or the sum is zero for the server. -/
def HarmlessDebit (a : Id) (users : Users) (line : Bytes) (staleWords : StaleWords) (stale : Stale) :
    Prop :=
  (∀ w ∈ (words line).take 2, w.length < 50) ∧
    (atoi ((words line).getD 1 staleWords.sumx) = 0 ∨
      ((line ++ 32 :: a.bytes).length < MAX_LEN ∧
        ∃ sum id u, debitFields stale ((words line).tail ++ [a.bytes]) = some (sum, id) ∧
          users id = some u ∧ (id = a.bytes ∨ u.money < sum ∨ sum = 0)))

/-- The lines that leave the accounts of others unharmed. -/
def Harmless (a : Id) (users : Users) (line : Bytes) (staleWords : StaleWords) (stale : Stale) :
    Prop :=
  if startsWith (ascii "send_to") line then HarmlessCredit a users (words line)
  else if startsWith (ascii "get") line then HarmlessDebit a users line staleWords stale
  else True

/-! ### Changes of one record -/

theorem protects_of_others {a : Id} {line : Bytes} {users after : Users}
    (h : ∀ id, id ≠ a.bytes → after id = users id) : Protects a line users after :=
  fun id u hid hu => ⟨u, (h id hid).trans hu, le_rfl, fun _ => rfl⟩

theorem protects_refl (a : Id) (line : Bytes) (users : Users) : Protects a line users users :=
  protects_of_others fun _ _ => rfl

/-- Storing another account's record is harmless exactly when its balance does not fall, and on a `get`
line does not change. -/
theorem protects_update {a : Id} {line : Bytes} {users : Users} {id : Bytes} {u : User}
    (hid : id ≠ a.bytes) (hu : users id = some u) (u' : User) :
    Protects a line users (Function.update users id (some u')) ↔
      u.money ≤ u'.money ∧ (startsWith (ascii "get") line = true → u'.money = u.money) := by
  constructor
  · intro h
    obtain ⟨v, hv, hle, hget⟩ := h id u hid hu
    rw [Function.update_self] at hv
    obtain rfl := Option.some.inj hv
    exact ⟨hle, hget⟩
  · rintro ⟨hle, hget⟩ id' v hid' hv
    by_cases heq : id' = id
    · subst heq
      obtain rfl : u = v := Option.some.inj (hu.symm.trans hv)
      exact ⟨u', Function.update_self .., hle, hget⟩
    · exact ⟨v, (Function.update_of_ne heq ..).trans hv, le_rfl, fun _ => rfl⟩

theorem protects_update_self (a : Id) (line : Bytes) (users : Users) (u' : User) :
    Protects a line users (Function.update users a.bytes (some u')) :=
  protects_of_others fun _ hid => Function.update_of_ne hid ..

/-- The sum of two `int`s as stored in an `int` is not below the first exactly when it `Gains`. -/
theorem gains_iff {m n : ℤ} (hm : FitsInt m) (hn : FitsInt n) : m ≤ toInt (m + n) ↔ Gains m n := by
  obtain ⟨hmlo, hmhi⟩ := hm
  obtain ⟨hnlo, hnhi⟩ := hn
  unfold Gains INT_MAX
  by_cases hbig : m + n < 2 ^ 31
  · by_cases hsmall : -2 ^ 31 ≤ m + n
    · rw [toInt_eq_self hsmall hbig]
      omega
    · have hwrap : toInt (m + n) = m + n + 2 ^ 32 := by
        rw [toInt, Int.bmod_eq_iff (by decide)]
        omega
      omega
  · have hwrap : toInt (m + n) = m + n - 2 ^ 32 := by
      rw [toInt, Int.bmod_eq_iff (by decide)]
      omega
    omega

theorem gains_zero {m : ℤ} (hm : FitsInt m) : Gains m 0 := by
  obtain ⟨-, hhi⟩ := hm
  unfold Gains INT_MAX
  omega

variable {a : Id} {users : Users} {line : Bytes}

theorem sendTo_protects (hget : startsWith (ascii "get") line = false)
    (hint : ∀ id u, users id = some u → FitsInt u.money) {id : Bytes} {n : ℤ} (hn : FitsInt n) :
    Protects a line users (sendTo users id n).1 ↔
      id = a.bytes ∨ ∀ u, users id = some u → Gains u.money n := by
  unfold sendTo
  cases hu : users id with
  | none => simpa using protects_refl a line users
  | some u =>
    by_cases hid : id = a.bytes
    · subst hid
      exact iff_of_true (protects_update_self a line users _) (Or.inl rfl)
    · simp only [protects_update hid hu, hget, hid, gains_iff (hint id u hu) hn, false_or,
        Option.some.injEq, forall_eq']
      simp

theorem get_protects (hget : startsWith (ascii "get") line = true)
    (hint : ∀ id u, users id = some u → FitsInt u.money) {id : Bytes} {n : ℤ} (hn : FitsInt n)
    {u : User} (hu : users id = some u) {r : Reply} (hr : get users id n = some r) :
    Protects a line users r.1 ↔ id = a.bytes ∨ u.money < n ∨ n = 0 := by
  rw [Server.get, hu, Option.map_some, Option.some.injEq] at hr
  obtain rfl := hr
  split
  · rename_i hpoor
    exact iff_of_true (protects_refl a line users) (Or.inr (Or.inl hpoor))
  · rename_i hrich
    by_cases hid : id = a.bytes
    · subst hid
      exact iff_of_true (protects_update_self a line users _) (Or.inl rfl)
    · have hsame : toInt (u.money - n) = u.money ↔ n = 0 := by
        obtain ⟨hulo, huhi⟩ := hint id u hu
        obtain ⟨hnlo, hnhi⟩ := hn
        rw [toInt, Int.bmod_eq_iff (by decide)]
        omega
      rw [protects_update hid hu]
      simp only [hget, true_implies, hsame, hid, hrich, false_or]
      exact ⟨And.right, fun h0 => ⟨(hsame.mpr h0).ge, h0⟩⟩

theorem fitsInt_debitFields {stale : Stale} {ws : List Bytes} {sum : ℤ} {id : Bytes}
    (hstale : FitsInt stale.sum) (h : debitFields stale ws = some (sum, id)) : FitsInt sum := by
  unfold debitFields at h
  split at h
  · cases h
    exact hstale
  · split at h
    · cases h
      exact hstale
    · rename_i hn
      split at h
      · cases h
        exact fitsInt_scanInt hn
      · split at h
        · cases h
          exact fitsInt_scanInt hn
        · cases h

/-! ### The lines of a client -/

/-- What a `char` array holds after the first words of a text were read. -/
theorem wordArg_take (ws : List Bytes) {i k : ℕ} (hi : i < k) (old : Bytes) :
    wordArg ((ws.take k).map .word) i old = ws.getD i old := by
  rw [wordArg_words, List.getD_eq_getElem?_getD, List.getElem?_take_of_lt hi,
    List.getD_eq_getElem?_getD]

variable {typed : Bytes} {staleWords : StaleWords} {stale : Stale}

/-- A `send_to` line is sent as typed unless it names the client itself or no sum. -/
theorem stdinCommand_sendTo (argv1 : Bytes)
    (hword : startsWith (ascii "send_to") (readLine typed) = true) :
    stdinCommand argv1 typed staleWords =
      if ∀ w ∈ (words (readLine typed)).take 3, w.length < 50 then
        some (if (words (readLine typed)).getD 1 staleWords.id = argv1 ∨
            atoi ((words (readLine typed)).getD 2 staleWords.sumx) = 0 then none
          else some (readLine typed))
      else none := by
  simp only [stdinCommand, hword, if_true, Option.bind_eq_bind]
  rw [show [Conv.word 50, .word 50, .word 50] = List.replicate 3 (.word 50) from rfl, sscanf_words]
  split
  · simp only [Option.bind_some, wordArg_take _ (show 1 < 3 by decide),
      wordArg_take _ (show 2 < 3 by decide)]
    by_cases hid : (words (readLine typed)).getD 1 staleWords.id = argv1
    · rw [if_pos hid, if_pos (Or.inl hid)]
      rfl
    · by_cases hsum : atoi ((words (readLine typed)).getD 2 staleWords.sumx) = 0
      · rw [if_neg hid, if_pos hsum, if_pos (Or.inr hsum)]
        rfl
      · rw [if_neg hid, if_neg hsum, if_neg (not_or.mpr ⟨hid, hsum⟩)]
        rfl
  · rfl

/-- A `get` line is sent with the client's id appended unless it has no sum. -/
theorem stdinCommand_get (argv1 : Bytes)
    (hword : startsWith (ascii "get") (readLine typed) = true) :
    stdinCommand argv1 typed staleWords =
      if ∀ w ∈ (words (readLine typed)).take 2, w.length < 50 then
        if atoi ((words (readLine typed)).getD 1 staleWords.sumx) = 0 then some none
        else (appendId (readLine typed) argv1).map some
      else none := by
  have hsend : startsWith (ascii "send_to") (readLine typed) = false :=
    startsWith_clash hword (by decide)
  have hshow : startsWith (ascii "show_sum") (readLine typed) = false :=
    startsWith_clash hword (by decide)
  simp only [stdinCommand, hsend, hshow, hword, if_true, Bool.false_eq_true, if_false,
    Option.bind_eq_bind]
  rw [show [Conv.word 50, .word 50] = List.replicate 2 (.word 50) from rfl, sscanf_words]
  split
  · simp only [Option.bind_some, wordArg_take _ (show 1 < 2 by decide)]
    split
    · rfl
    · cases appendId (readLine typed) argv1 <;> rfl
  · rfl

/-- The line leaves the server in a state with the other accounts unharmed. -/
def TurnProtects (a : Id) (typed : Bytes) (staleWords : StaleWords) (users : Users) (stale : Stale) :
    Prop :=
  ∃ after, turn a typed staleWords users stale = some after ∧
    Protects a (readLine typed) users after

theorem bufferString_readLine (typed : Bytes) :
    bufferString MAX_LEN (readLine typed) = some (readLine typed) :=
  bufferString_of_clean (length_readLine typed) (noNul_readLine typed)

theorem turn_sendTo_protects (hint : ∀ id u, users id = some u → FitsInt u.money)
    (hword : startsWith (ascii "send_to") (readLine typed) = true) :
    TurnProtects a typed staleWords users stale ↔ HarmlessCredit a users (words (readLine typed)) := by
  have hget : startsWith (ascii "get") (readLine typed) = false := startsWith_clash hword (by decide)
  obtain ⟨w, ws, hws⟩ := words_ne_nil (by decide) hword
  simp only [TurnProtects, turn, stdinCommand_sendTo _ hword, HarmlessCredit]
  by_cases hfit : ∀ w ∈ (words (readLine typed)).take 3, w.length < 50
  swap
  · simp [hfit]
  have hfit2 : ∀ w' ∈ (words (readLine typed)).take 2, w'.length < 50 := fun w' hw' =>
    hfit w' ((List.take_sublist_take_left (by decide)).subset hw')
  rw [and_iff_right hfit]
  simp only [if_pos hfit, Option.bind_some]
  by_cases hquiet : (words (readLine typed)).getD 1 staleWords.id = a.bytes ∨
      atoi ((words (readLine typed)).getD 2 staleWords.sumx) = 0
  · -- nothing is sent: the client's own id, or a sum that reads as zero
    simp only [if_pos hquiet, Option.some.injEq, exists_eq_left']
    refine iff_of_true (protects_refl _ _ _) fun id sumx hid hsum => ?_
    rw [List.getD_eq_getElem?_getD, hid, List.getD_eq_getElem?_getD, hsum] at hquiet
    rcases hquiet with hself | hzero
    · exact Or.inl hself
    · refine Or.inr fun u hu => ?_
      rw [show atoi sumx = 0 from hzero]
      exact gains_zero (hint id u hu)
  · simp only [if_neg hquiet,
      serve_credit hword hws hfit2 (bufferString_readLine typed) users stale, Option.map_some,
      Option.some.injEq, exists_eq_left']
    rw [hws] at hquiet ⊢
    -- the words behind the command word: fewer than two give the sum 0
    have hnone : ∀ id, Protects a (readLine typed) users (sendTo users id 0).1 := fun id =>
      (sendTo_protects hget hint ⟨by decide, by decide⟩).mpr
        (Or.inr fun u hu => gains_zero (hint _ u hu))
    rcases ws with _ | ⟨id, _ | ⟨sumx, ws⟩⟩
    · exact iff_of_true (hnone _) (by simp)
    · exact iff_of_true (hnone _) (by simp)
    · simp only [creditFields, List.headD_cons, List.tail_cons, List.head?_cons, Option.map_some,
        Option.getD_some, sendTo_protects hget hint (fitsInt_atoi sumx)]
      simp

theorem turn_get_protects (hint : ∀ id u, users id = some u → FitsInt u.money)
    (hsum : FitsInt stale.sum) (hword : startsWith (ascii "get") (readLine typed) = true) :
    TurnProtects a typed staleWords users stale ↔
      HarmlessDebit a users (readLine typed) staleWords stale := by
  obtain ⟨w, ws, hws⟩ := words_ne_nil (by decide) hword
  simp only [TurnProtects, turn, stdinCommand_get _ hword, HarmlessDebit]
  by_cases hfit : ∀ w ∈ (words (readLine typed)).take 2, w.length < 50
  swap
  · simp [hfit]
  rw [and_iff_right hfit]
  simp only [if_pos hfit]
  by_cases hzero : atoi ((words (readLine typed)).getD 1 staleWords.sumx) = 0
  · simp only [if_pos hzero, Option.bind_some, Option.some.injEq, exists_eq_left']
    exact iff_of_true (protects_refl _ _ _) (Or.inl hzero)
  simp only [hzero, if_false, false_or, appendId]
  by_cases hroom : (readLine typed ++ 32 :: a.bytes).length < MAX_LEN
  swap
  · simp only [hroom, if_false, Option.map_none, Option.bind_none, false_and, iff_false]
    simp
  have hbuf : bufferString MAX_LEN (readLine typed ++ 32 :: a.bytes) = some _ :=
    bufferString_of_clean hroom (by simp [noNul_readLine, a.noNul])
  have hwords : words (readLine typed ++ 32 :: a.bytes) = w :: (ws ++ [a.bytes]) := by
    rw [words_append_blank, hws, words_token, List.cons_append]
  have hw : w.length < 50 := hfit w (by simp [hws])
  have hserve := serve_debit (startsWith_append hword (32 :: a.bytes)) hwords hw hbuf users stale
  simp only [hroom, if_true, Option.map_some, Option.bind_some, true_and, hserve, hws,
    List.tail_cons]
  cases hfields : debitFields stale (ws ++ [a.bytes]) with
  | none => simp
  | some r =>
    obtain ⟨sum, id⟩ := r
    have hn : FitsInt sum := fitsInt_debitFields hsum hfields
    simp only [Option.bind_some, Option.some.injEq, Prod.mk.injEq]
    cases hu : users id with
    | none =>
      have hnone : Server.get users id sum = none := by rw [Server.get, hu, Option.map_none]
      simp [hnone, hu]
    | some u =>
      obtain ⟨r, hr⟩ : ∃ r, Server.get users id sum = some r := by
        rw [Server.get, hu]
        exact ⟨_, rfl⟩
      have hiff := get_protects (a := a) hword hint hn hu hr
      simp only [hr, Option.map_some, Option.some.injEq, exists_eq_left', hiff]
      constructor
      · exact fun h => ⟨sum, id, u, ⟨rfl, rfl⟩, hu, h⟩
      · rintro ⟨_, _, u', ⟨rfl, rfl⟩, hu', h⟩
        obtain rfl : u = u' := Option.some.inj (hu.symm.trans hu')
        exact h

/-- A fixed datagram about the client's own registered id harms nobody else. -/
theorem render_protects {cmd : Command} (hcmd : (idOf cmd).bytes = a.bytes) {r : Reply}
    (hr : serve users (render cmd) stale = some r) : Protects a line users r.1 :=
  protects_of_others fun id hid =>
    @serveCommand_others users (cmd, stale) r hr id (by rw [hcmd]; exact hid)

theorem turn_own_protects (cmd : Command) (hcmd : (idOf cmd).bytes = a.bytes)
    (hsent : stdinCommand a.bytes typed staleWords = some (some (render cmd)))
    (happly : (apply users cmd).isSome = true) : TurnProtects a typed staleWords users stale := by
  obtain ⟨r, hr⟩ := Option.isSome_iff_exists.mp happly
  rw [← serve_render users cmd stale] at hr
  refine ⟨r.1, ?_, render_protects hcmd hr⟩
  simp only [turn, hsent, Option.bind_some, hr, Option.map_some]

theorem appendId_id (text : Bytes) (htext : text.length ≤ 8) (a : Id) :
    appendId text a.bytes = some (text ++ 32 :: a.bytes) := by
  have hlen := a.length_le
  rw [appendId, if_pos]
  rw [List.length_append, List.length_cons, MAX_LEN]
  omega

/-- **The exact condition for a line to leave other accounts unharmed**: for every registered client,
every line and every state of the server, the line is processed without taking money from another id,
and without touching another id if it is a `get` line, exactly when it is `Harmless`. -/
theorem protects_iff (a : Id) (typed : Bytes) (staleWords : StaleWords) (users : Users)
    (stale : Stale) (ha : (users a.bytes).isSome = true)
    (hint : ∀ id u, users id = some u → FitsInt u.money) (hsum : FitsInt stale.sum) :
    TurnProtects a typed staleWords users stale ↔
      Harmless a users (readLine typed) staleWords stale := by
  unfold Harmless
  obtain ⟨u, hu⟩ := Option.isSome_iff_exists.mp ha
  by_cases hsend : startsWith (ascii "send_to") (readLine typed) = true
  · rw [if_pos hsend]
    exact turn_sendTo_protects hint hsend
  rw [if_neg hsend]
  by_cases hget : startsWith (ascii "get") (readLine typed) = true
  · rw [if_pos hget]
    exact turn_get_protects hint hsum hget
  rw [if_neg hget]
  refine iff_of_true ?_ trivial
  by_cases hshow : startsWith (ascii "show_sum") (readLine typed) = true
  · have happend := appendId_id (ascii "show_sum") (by decide) a
    refine turn_own_protects (.showSum a) rfl ?_ (by simp [apply, showSum, hu])
    simp only [stdinCommand, hsend, hshow, if_true, Bool.false_eq_true, if_false, happend]
    rfl
  by_cases hexit : startsWith (ascii "exit") (readLine typed) = true
  · have happend := appendId_id (ascii "exit") (by decide) a
    refine turn_own_protects (.exit a) rfl ?_ (by simp [apply, Server.exit, hu])
    simp only [stdinCommand, hsend, hshow, hget, hexit, if_true, Bool.false_eq_true, if_false,
      happend]
    rfl
  · refine ⟨users, ?_, protects_refl _ _ _⟩
    simp only [turn, stdinCommand, hsend, hshow, hget, hexit, Bool.false_eq_true, if_false]
    rfl

/-! ### Lines that take money from another account -/

/-- Two registered users. -/
def anaAndBob : Users := fun id =>
  if id = Balance.ana.bytes then some ⟨0, true⟩ else if id = ascii "bob" then some ⟨10, true⟩ else none

def noWords : StaleWords := ⟨[], []⟩

theorem anaAndBob_fitsInt : ∀ id u, anaAndBob id = some u → FitsInt u.money := by
  intro id u hu
  unfold anaAndBob at hu
  split at hu
  · obtain rfl := Option.some.inj hu
    exact ⟨by decide, by decide⟩
  · split at hu
    · obtain rfl := Option.some.inj hu
      exact ⟨by decide, by decide⟩
    · cases hu

/-- A line of ana's client after which bob has less than his 10. -/
theorem not_protects_bob {typed : Bytes} {stale : Stale} {m : ℤ} {c : Bool} (hm : m < 10)
    (h : ((turn Balance.ana typed noWords anaAndBob stale).bind fun after => after (ascii "bob")) =
      some ⟨m, c⟩) : ¬ TurnProtects Balance.ana typed noWords anaAndBob stale := by
  rintro ⟨after, hturn, hprotects⟩
  obtain ⟨u', hu', hle, -⟩ := hprotects (ascii "bob") ⟨10, true⟩ (by decide) (by decide)
  rw [hturn, Option.bind_some, hu', Option.some.injEq] at h
  subst h
  exact absurd hle (not_le.mpr hm)

/-- With ana and bob registered, two lines typed by ana take money from bob: a negative credit, and a
debit with his id as third word. -/
theorem lines_take_money :
    (anaAndBob Balance.ana.bytes).isSome = true ∧ (anaAndBob (ascii "bob")).isSome = true ∧
    ¬ TurnProtects Balance.ana (ascii "send_to bob -5\n") noWords anaAndBob Balance.noStale ∧
    ¬ TurnProtects Balance.ana (ascii "get 5 bob\n") noWords anaAndBob Balance.noStale :=
  ⟨by decide, by decide, not_protects_bob (m := 5) (c := true) (by decide) (by decide +kernel),
    not_protects_bob (m := 5) (c := true) (by decide) (by decide +kernel)⟩

/-- The condition on the line `send_to bob 5`. -/
theorem send_five_protects :
    TurnProtects Balance.ana (ascii "send_to bob 5\n") noWords anaAndBob Balance.noStale ↔
      Harmless Balance.ana anaAndBob (readLine (ascii "send_to bob 5\n")) noWords Balance.noStale :=
  protects_iff Balance.ana (ascii "send_to bob 5\n") noWords anaAndBob Balance.noStale (by decide)
    anaAndBob_fitsInt ⟨by decide, by decide⟩

end Pcom.Partial.Protection
