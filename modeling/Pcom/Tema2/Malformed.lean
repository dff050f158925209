import Pcom.Tema2.Subscriptions

/-!
# Malformed commands

The server recognises a command by the beginning of the received text and uses what `sscanf` left in
its variables without looking at how many of them it filled.  A line that is no command can therefore
change the table, by what the variables held before.

* `onCommand_unsubscribe`, `onCommand_subscribe` — the two commands through the topic that is read;
* `malformed_safe_iff` — for every table, client and received text: a malformed text changes nothing,
  and the effect of a well-formed one depends on the table, the client and the line alone, **exactly
  when** the text is `Harmless`.
-/

namespace Pcom.Tema2.Malformed

open Pcom.Lib.Scan Pcom.Lib.StepSystem Pcom.Tema2.Datagram Pcom.Tema2.Server
open Pcom.Tema2.Bookkeeping Pcom.Tema2.Commands Pcom.Tema2.Delivery Pcom.Tema2.Subscriptions

/-- `topics`. -/
abbrev Table := Bytes → Option (List Subscriber)

/-! ### What is claimed -/

/-- The flag of a well-formed subscription is `0` or `1`. -/
def FlagIsBit : Command → Prop
  | .subscribe _ SF => SF = 0 ∨ SF = 1
  | .unsubscribe _ => True

/-- The text is one line `subscribe <topic> <0 or 1>` or `unsubscribe <topic>`, with or without its
line feed. -/
def WellFormed (received : Bytes) : Prop :=
  ∃ command : Command, FlagIsBit command ∧
    (received = command.bytes ∨ received ++ ascii "\n" = command.bytes)

/-- Received from a client `c` while the table is `T`, the text makes it `T'`: whatever the rest of the
state, the socket of the client and the old contents of the local variables are. -/
def Yields (T : Table) (c received : Bytes) (T' : Table) : Prop :=
  ∀ s i stale sendOk, s.topics = T → idOf s i = some c →
    ∃ s' out, step s ⟨.recv i received stale, sendOk⟩ = .ok (s', out) ∧ s'.topics = T'

/-- A malformed text changes nothing; a well-formed one has an effect of its own. -/
structure Safe (T : Table) (c received : Bytes) : Prop where
  malformed : ¬ WellFormed received → Yields T c received T
  wellFormed : WellFormed received → ∃ T', Yields T c received T'

/-! ### The condition -/

/-- Does the client have an entry in the topic? -/
def HasEntry (T : Table) (c t : Bytes) : Prop := ∃ e ∈ (T t).getD [], e.clientID = c

/-- What `topicStr` holds after the scan of the text; `none` when the scan is undefined. -/
def topicRead (fs : List Conv) (received : Bytes) (stale : Stale) : Option Bytes :=
  ((bufferString MAX_LEN received).bind (sscanf fs)).map fun args => wordArg args 1 stale.topicStr

/-- A text that begins like a command is scanned without overflow, and names a topic (any topic, if
the field is missing) which the client is not in, to unsubscribe, or is in already, to subscribe. -/
def Harmless (T : Table) (c received : Bytes) : Prop :=
  if startsWith (ascii "unsubscribe") (received.take MAX_LEN) then
    ∀ stale, ∃ t, topicRead [.word 16, .word 51] received stale = some t ∧ ¬ HasEntry T c t
  else if startsWith (ascii "subscribe") (received.take MAX_LEN) then
    WellFormed received ∨
      ∀ stale, ∃ t, topicRead [.word 16, .word 51, .int] received stale = some t ∧ HasEntry T c t
  else True

/-! ### The commands through the topic they read -/

theorem onCommand_unsubscribe {received : Bytes}
    (h : startsWith (ascii "unsubscribe") (received.take MAX_LEN) = true) (s : State) (i : ℕ)
    (stale : Stale) :
    onCommand s i received stale =
      (topicRead [.word 16, .word 51] received stale).elim (.error .undefined)
        (onUnsubscribe s i) := by
  unfold onCommand topicRead
  dsimp only
  rw [if_pos h]
  cases (bufferString MAX_LEN received).bind (sscanf [.word 16, .word 51]) <;> rfl

theorem onCommand_subscribe {received : Bytes}
    (hun : ¬ startsWith (ascii "unsubscribe") (received.take MAX_LEN) = true)
    (h : startsWith (ascii "subscribe") (received.take MAX_LEN) = true) (s : State) (i : ℕ)
    (stale : Stale) :
    ∃ SF, onCommand s i received stale =
      (topicRead [.word 16, .word 51, .int] received stale).elim (.error .undefined)
        fun t => .ok (onSubscribe s i t SF) := by
  unfold onCommand topicRead
  dsimp only
  rw [if_neg hun, if_pos h]
  cases (bufferString MAX_LEN received).bind (sscanf [.word 16, .word 51, .int]) with
  | none => exact ⟨false, rfl⟩
  | some args => exact ⟨intArg args 2 stale.SFInt != 0, rfl⟩

theorem onCommand_other {received : Bytes}
    (hun : ¬ startsWith (ascii "unsubscribe") (received.take MAX_LEN) = true)
    (h : ¬ startsWith (ascii "subscribe") (received.take MAX_LEN) = true) (s : State) (i : ℕ)
    (stale : Stale) : onCommand s i received stale = .ok s := by
  unfold onCommand
  dsimp only
  rw [if_neg hun, if_neg h]

/-- The table after a received text is that of its command part; an end of file keeps the table. -/
theorem step_topics_iff {s : State} {i : ℕ} {received : Bytes} {stale : Stale} {sendOk : ℕ → Bool}
    {T' : Table} (hne : received ≠ []) :
    (∃ s' out, step s ⟨.recv i received stale, sendOk⟩ = .ok (s', out) ∧ s'.topics = T') ↔
      ∃ s', onCommand s i received stale = .ok s' ∧ s'.topics = T' := by
  rw [step]
  dsimp only
  rw [if_neg hne]
  cases onCommand s i received stale with
  | error reason => simp [Except.map]
  | ok s₁ => simp [Except.map]

/-! ### Unsubscribing -/

/-- A state with the table `T` in which every descriptor is client `c`'s. -/
def everywhere (T : Table) (c : Bytes) : State :=
  { init ⟨3, 4⟩ with topics := T, clientsConnected := fun _ => some ⟨[], 0, c⟩ }

theorem unsubscribe_yields_iff {T T' : Table} {c received : Bytes}
    (hun : startsWith (ascii "unsubscribe") (received.take MAX_LEN) = true) :
    Yields T c received T' ↔ T' = T ∧
      ∀ stale, ∃ t, topicRead [.word 16, .word 51] received stale = some t ∧ ¬ HasEntry T c t := by
  have hne : received ≠ [] := by
    rintro rfl
    cases hun
  have hcmd := onCommand_unsubscribe hun
  constructor
  · intro hyields
    have hread : ∀ stale, ∃ t, topicRead [.word 16, .word 51] received stale = some t ∧
        ¬ HasEntry T c t ∧ T' = T := by
      intro stale
      cases ht : topicRead [.word 16, .word 51] received stale with
      | none =>
        obtain ⟨s', hok, -⟩ := (step_topics_iff hne).mp
          (hyields (everywhere T c) 0 stale (fun _ => true) rfl rfl)
        rw [hcmd, ht] at hok
        cases hok
      | some t =>
        -- on a socket beyond the list the erased position is outside it
        obtain ⟨s', hok, htable⟩ := (step_topics_iff hne).mp
          (hyields (everywhere T c) ((T t).getD []).length stale (fun _ => true) rfl rfl)
        rw [hcmd, ht, Option.elim_some] at hok
        by_cases hentry : HasEntry T c t
        · have hfound : ∃ e ∈ subscribersOf (everywhere T c) t, e.clientID = c := hentry
          have hbeyond : ¬ ((T t).getD []).length < (subscribersOf (everywhere T c) t).length :=
            Nat.lt_irrefl _
          rw [onUnsubscribe_found rfl hfound, if_neg hbeyond] at hok
          cases hok
        · have hmissing : ∀ e ∈ subscribersOf (everywhere T c) t, e.clientID ≠ c :=
            fun e he heq => hentry ⟨e, he, heq⟩
          rw [onUnsubscribe_missing rfl hmissing] at hok
          obtain rfl := Except.ok.inj hok
          exact ⟨t, rfl, hentry, htable.symm⟩
    refine ⟨?_, fun stale => ?_⟩
    · obtain ⟨t, -, -, heq⟩ := hread ⟨[], 0⟩
      exact heq
    · obtain ⟨t, ht, hno, -⟩ := hread stale
      exact ⟨t, ht, hno⟩
  · rintro ⟨rfl, hread⟩ s i stale sendOk htopics hid
    obtain ⟨t, ht, hno⟩ := hread stale
    have hmissing : ∀ e ∈ subscribersOf s t, e.clientID ≠ c := by
      intro e he heq
      rw [subscribersOf, htopics] at he
      exact hno ⟨e, he, heq⟩
    refine (step_topics_iff hne).mpr ⟨s, ?_, htopics⟩
    rw [hcmd, ht, Option.elim_some]
    exact onUnsubscribe_missing hid hmissing

/-! ### Subscribing -/

/-- The table after a subscription is a function of the table before, the id and the command. -/
theorem onSubscribe_table {s s₁ : State} {i i₁ : ℕ} {c : Bytes} (htopics : s.topics = s₁.topics)
    (hid : idOf s i = some c) (hid₁ : idOf s₁ i₁ = some c) (t : Bytes) (SF : Bool) :
    (onSubscribe s i t SF).topics = (onSubscribe s₁ i₁ t SF).topics := by
  obtain ⟨con, hcon, rfl⟩ := idOf_eq_some.mp hid
  obtain ⟨con₁, hcon₁, hsame⟩ := idOf_eq_some.mp hid₁
  unfold onSubscribe
  simp only [hcon, hcon₁, hsame, htopics]
  split
  · rfl
  · split
    · exact htopics
    · rfl

/-- A subscription keeps the table exactly when the client is in the topic already. -/
theorem onSubscribe_topics_iff {s : State} {i : ℕ} {c : Bytes} (hid : idOf s i = some c) (t : Bytes)
    (SF : Bool) : (onSubscribe s i t SF).topics = s.topics ↔ HasEntry s.topics c t := by
  have hlist := subscribersOf_onSubscribe hid t SF t
  constructor
  · intro hsame
    by_contra hno
    have hnew : ∀ e ∈ subscribersOf s t, e.clientID ≠ c := fun e he heq => hno ⟨e, he, heq⟩
    rw [if_pos ⟨rfl, hnew⟩, subscribersOf, hsame, ← subscribersOf] at hlist
    simp at hlist
  · intro hentry
    obtain ⟨con, hcon, rfl⟩ := idOf_eq_some.mp hid
    obtain ⟨e, he, heq⟩ := hentry
    unfold onSubscribe
    simp only [hcon]
    cases ht : s.topics t with
    | none =>
      rw [ht] at he
      cases he
    | some subs =>
      rw [ht] at he
      have hany : (subs.any fun sub => sub.clientID = con.clientID) = true :=
        List.any_eq_true.mpr ⟨e, he, decide_eq_true heq⟩
      simp only [hany, if_true]

theorem subscribe_yields_iff {T : Table} {c received : Bytes}
    (hun : ¬ startsWith (ascii "unsubscribe") (received.take MAX_LEN) = true)
    (hsub : startsWith (ascii "subscribe") (received.take MAX_LEN) = true) :
    Yields T c received T ↔
      ∀ stale, ∃ t, topicRead [.word 16, .word 51, .int] received stale = some t ∧
        HasEntry T c t := by
  have hne : received ≠ [] := by
    rintro rfl
    cases hsub
  have hcmd := onCommand_subscribe hun hsub
  constructor
  · intro hyields stale
    obtain ⟨s', hok, htable⟩ := (step_topics_iff hne).mp
      (hyields (everywhere T c) 0 stale (fun _ => true) rfl rfl)
    obtain ⟨SF, hSF⟩ := hcmd (everywhere T c) 0 stale
    rw [hSF] at hok
    cases ht : topicRead [.word 16, .word 51, .int] received stale with
    | none =>
      rw [ht] at hok
      cases hok
    | some t =>
      rw [ht, Option.elim_some] at hok
      obtain rfl := Except.ok.inj hok
      exact ⟨t, rfl, (onSubscribe_topics_iff (s := everywhere T c) (i := 0) rfl t SF).mp htable⟩
  · intro hread s i stale sendOk htopics hid
    obtain ⟨t, ht, hentry⟩ := hread stale
    obtain ⟨SF, hSF⟩ := hcmd s i stale
    refine (step_topics_iff hne).mpr ⟨onSubscribe s i t SF, ?_, ?_⟩
    · rw [hSF, ht, Option.elim_some]
    · rw [← htopics] at hentry ⊢
      exact (onSubscribe_topics_iff hid t SF).mpr hentry

/-- A line whose line feed has not arrived has the effect of the command, too. -/
theorem onCommand_unterminated (s : State) (i : ℕ) (topic : Token TOPIC_SIZE) (SF : Int32)
    (stale : Stale) {received : Bytes}
    (h : received ++ ascii "\n" = (Command.subscribe topic SF).bytes) :
    onCommand s i received stale = .ok (onSubscribe s i topic.bytes (SF.toInt != 0)) := by
  have hreceived : received =
      ascii "subscribe" ++ 32 :: (topic.bytes ++ 32 :: (printInt SF.toInt ++ [])) := by
    have hbytes : (Command.subscribe topic SF).bytes = (ascii "subscribe" ++
        32 :: (topic.bytes ++ 32 :: (printInt SF.toInt ++ []))) ++ ascii "\n" := by
      simp [Command.bytes]
    exact List.append_cancel_right (h.trans hbytes)
  have hclean : NoNul received ∧ received.length < MAX_LEN := by
    have hnonul := (Command.subscribe topic SF).noNul
    have hlen := (Command.subscribe topic SF).length_lt
    rw [← h] at hnonul hlen
    rw [List.length_append] at hlen
    exact ⟨(noNul_append.mp hnonul).1, by omega⟩
  have hbuf := bufferString_of_clean hclean.2 hclean.1
  have hscan : sscanf [.word 16, .word 51, .int] received =
      some [.word (ascii "subscribe"), .word topic.bytes, .int SF.toInt] := by
    rw [hreceived]
    exact sscanf_subscribe_line topic SF trivial
  have hun : ¬ startsWith (ascii "unsubscribe") (received.take MAX_LEN) = true := by
    rw [List.take_of_length_le hclean.2.le, hreceived]
    exact Bool.false_ne_true
  have hsub : startsWith (ascii "subscribe") (received.take MAX_LEN) = true := by
    rw [List.take_of_length_le hclean.2.le, hreceived]
    simp [startsWith]
  unfold onCommand
  dsimp only
  rw [if_neg hun, if_pos hsub, hbuf, Option.bind_some, hscan]
  rfl

/-- A well-formed line that is no `unsubscribe` has an effect of its own. -/
theorem wellFormed_yields {T : Table} {c received : Bytes} (hwell : WellFormed received)
    (hun : ¬ startsWith (ascii "unsubscribe") (received.take MAX_LEN) = true) :
    ∃ T', Yields T c received T' := by
  obtain ⟨command, -, hline⟩ := hwell
  cases command with
  | subscribe topic SF =>
    have hne : received ≠ [] := by
      rintro rfl
      rcases hline with hline | hline
      · exact Command.ne_nil _ hline.symm
      · have hlen := congrArg List.length hline
        simp [Command.bytes, ascii] at hlen
    have hcmd : ∀ s i stale,
        onCommand s i received stale = .ok (onSubscribe s i topic.bytes (SF.toInt != 0)) := by
      intro s i stale
      rcases hline with rfl | hline
      · exact onCommand_bytes s i (.subscribe topic SF) stale
      · exact onCommand_unterminated s i topic SF stale hline
    refine ⟨(onSubscribe (everywhere T c) 0 topic.bytes (SF.toInt != 0)).topics, ?_⟩
    intro s i stale sendOk htopics hid
    refine (step_topics_iff hne).mpr ⟨_, hcmd s i stale, ?_⟩
    exact onSubscribe_table htopics hid rfl ..
  | unsubscribe topic =>
    refine absurd ?_ hun
    rcases hline with rfl | hline
    · rw [List.take_of_length_le (Command.length_lt _).le]
      simp [startsWith, Command.bytes]
    · have hreceived : received = ascii "unsubscribe" ++ 32 :: topic.bytes := by
        refine List.append_cancel_right (hline.trans ?_)
        simp [Command.bytes]
      have hlen := (Command.unsubscribe topic).length_lt
      rw [← hline, List.length_append] at hlen
      rw [List.take_of_length_le (by omega), hreceived]
      simp [startsWith]

/-- **The exact condition for the commands to be safe.**  For every table, client and received text. -/
theorem malformed_safe_iff (T : Table) (c received : Bytes) :
    Safe T c received ↔ Harmless T c received := by
  unfold Harmless
  by_cases hun : startsWith (ascii "unsubscribe") (received.take MAX_LEN) = true
  · rw [if_pos hun]
    constructor
    · intro hsafe
      by_cases hwell : WellFormed received
      · obtain ⟨T', hyields⟩ := hsafe.wellFormed hwell
        exact ((unsubscribe_yields_iff hun).mp hyields).2
      · exact ((unsubscribe_yields_iff hun).mp (hsafe.malformed hwell)).2
    · intro hread
      have hyields : Yields T c received T := (unsubscribe_yields_iff hun).mpr ⟨rfl, hread⟩
      exact ⟨fun _ => hyields, fun _ => ⟨T, hyields⟩⟩
  · rw [if_neg hun]
    by_cases hsub : startsWith (ascii "subscribe") (received.take MAX_LEN) = true
    · rw [if_pos hsub, ← subscribe_yields_iff hun hsub]
      constructor
      · intro hsafe
        by_cases hwell : WellFormed received
        · exact Or.inl hwell
        · exact Or.inr (hsafe.malformed hwell)
      · rintro (hwell | hyields)
        · exact ⟨fun hno => absurd hwell hno, fun _ => wellFormed_yields hwell hun⟩
        · exact ⟨fun _ => hyields, fun _ => ⟨T, hyields⟩⟩
    · rw [if_neg hsub]
      refine iff_of_true ?_ trivial
      have hyields : Yields T c received T := by
        intro s i stale sendOk htopics hid
        by_cases hne : received = []
        · exact ⟨_, _, by rw [step]; exact if_pos hne, (onEof_topics s i).trans htopics⟩
        · exact (step_topics_iff hne).mpr ⟨s, onCommand_other hun hsub s i stale, htopics⟩
      exact ⟨fun _ => hyields, fun _ => ⟨T, hyields⟩⟩

/-- A subscription without a flag. -/
def flagless : Bytes := ascii "subscribe news\n"

theorem flagless_malformed : ¬ WellFormed flagless := by
  rintro ⟨command, -, hline⟩
  cases command with
  | subscribe topic SF =>
    -- behind the command word there is a second blank in the line, and none in the text
    have hblank : (32 : UInt8) ∈ (Command.subscribe topic SF).bytes.drop 10 := by
      show (32 : UInt8) ∈ topic.bytes ++ 32 :: (printInt SF.toInt ++ ascii "\n")
      exact List.mem_append_right _ List.mem_cons_self
    rcases hline with hline | hline
    · rw [← hline] at hblank
      exact absurd hblank (by decide)
    · rw [← hline] at hblank
      exact absurd hblank (by decide)
  | unsubscribe topic =>
    have hhead : (Command.unsubscribe topic).bytes.head? = some 117 := rfl
    rcases hline with hline | hline
    · rw [← hline] at hhead
      exact absurd hhead (by decide)
    · rw [← hline] at hhead
      exact absurd hhead (by decide)

/-- **A subscription without a flag is carried out**, with the flag the variable happens to hold. -/
theorem flagless_subscribes :
    (∃ h, Run (Serves listeners) (init listeners) h connectedA) ∧
      connFd connectedA (ascii "a") = some 5 ∧ ¬ Safe connectedA.topics (ascii "a") flagless := by
  refine ⟨⟨_, Run.start.next connectA⟩, rfl, fun hsafe => ?_⟩
  obtain ⟨s', hok, htable⟩ := (step_topics_iff (by decide)).mp
    (hsafe.malformed flagless_malformed connectedA 5 ⟨[], 1⟩ (fun _ => true) rfl rfl)
  have hcmd : onCommand connectedA 5 flagless ⟨[], 1⟩ =
      .ok (onSubscribe connectedA 5 (ascii "news") true) := rfl
  obtain rfl := Except.ok.inj (hcmd.symm.trans hok)
  have hnone : (onSubscribe connectedA 5 (ascii "news") true).topics (ascii "news") = none := by
    rw [htable]
    rfl
  cases hnone

end Pcom.Tema2.Malformed
