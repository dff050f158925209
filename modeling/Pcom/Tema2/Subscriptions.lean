import Pcom.Tema2.Delivery

/-!
# The subscriber lists of the broker

Two branches of the loop change `topics`.  `subscribe` looks for the client in the list of the topic and
appends it when it is not there; `unsubscribe` looks for it and erases.  Neither does the whole job: the
flag of an entry found by `subscribe` is assigned in a copy, and the position erased by `unsubscribe` is
the descriptor of the client instead of the index found.

* `Serves.topics_cases` — what one step can do to the table, and `Run.distinct`, the invariant of
  **every** run: no client has two entries in a topic;
* `unsubscribe_removes_iff` — in every state reached, `unsubscribe` removes the issuer **exactly when**
  the entry at the position of its descriptor is its own, or it has none; otherwise
  `unsubscribe_removes_other`;
* `lastWriterWins_iff` — over every run of subscriptions, the flags in the table are those of the most
  recent subscriptions **exactly when** these agree with the first ones.
-/

namespace Pcom.Tema2.Subscriptions

open Pcom.Lib.Scan Pcom.Lib.StepSystem Pcom.Tema2.Datagram Pcom.Tema2.Server
open Pcom.Tema2.Bookkeeping Pcom.Tema2.Commands Pcom.Tema2.Delivery

/-! ### What a step does to the table -/

/-- The list of a topic, empty for a topic that is not in the table. -/
def subscribersOf (s : State) (t : Bytes) : List Subscriber := (s.topics t).getD []

/-- No client has two entries in a topic. -/
def Distinct (s : State) : Prop := ∀ t, ((subscribersOf s t).map Subscriber.clientID).Nodup

theorem subscribersOf_update (s : State) (t : Bytes) (subs : List Subscriber) (u : Bytes) :
    subscribersOf { s with topics := Function.update s.topics t (some subs) } u =
      if u = t then subs else subscribersOf s u := by
  by_cases hu : u = t
  · subst hu
    simp [subscribersOf]
  · simp [subscribersOf, hu]

/-- The input is data from a client, not the end of its connection. -/
def ClientData (input : Input) : Prop :=
  ∃ i received stale, input.event = .recv i received stale ∧ received ≠ []

/-- Only data from a client changes the table. -/
theorem Serves.topics_eq {l : Listeners} {s s' : State} {input : Input} {out : List Out}
    (h : Serves l s input s' out) (hquiet : ¬ ClientData input) : s'.topics = s.topics := by
  obtain ⟨event, sendOk⟩ := input
  cases event with
  | stdin text =>
    obtain ⟨rfl, -⟩ := step_stdin h.2
    rfl
  | datagram sender received =>
    obtain ⟨pkt, -, ⟨-, rfl, -⟩ | ⟨subs, -, -, heq⟩⟩ := step_datagram h.2
    · rfl
    · rw [deliver_eq] at heq
      obtain rfl := congrArg Prod.fst heq
      rfl
  | accept fd addr received =>
    obtain ⟨id, -, ⟨-, rfl, -⟩ | ⟨-, rfl, -⟩⟩ := step_accept h.2
    · rfl
    · rfl
  | recv fd received stale =>
    rcases step_recv h.2 with ⟨-, heq⟩ | ⟨hne, -, -⟩
    · obtain rfl := congrArg Prod.fst heq
      exact onEof_topics s fd
    · exact absurd ⟨fd, received, stale, rfl, hne⟩ hquiet
  | recvError fd => cases h.2

/-- A step leaves the table alone, subscribes, or unsubscribes. -/
theorem Serves.topics_cases {l : Listeners} {s s' : State} {input : Input} {out : List Out}
    (h : Serves l s input s' out) :
    s'.topics = s.topics ∨ (∃ i t SF, s' = onSubscribe s i t SF) ∨
      ∃ i t, onUnsubscribe s i t = .ok s' := by
  by_cases hdata : ClientData input
  swap
  · exact Or.inl (Serves.topics_eq h hdata)
  obtain ⟨event, sendOk⟩ := input
  obtain ⟨i, received, stale, rfl, hne⟩ := hdata
  rcases step_recv h.2 with ⟨hnil, -⟩ | ⟨-, hcmd, -⟩
  · exact absurd hnil hne
  · simp only [onCommand] at hcmd
    split at hcmd
    · split at hcmd
      · cases hcmd
      · exact Or.inr (Or.inr ⟨_, _, hcmd⟩)
    · split at hcmd
      · split at hcmd
        · cases hcmd
        · exact Or.inr (Or.inl ⟨_, _, _, (Except.ok.inj hcmd).symm⟩)
      · exact Or.inl (congrArg State.topics (Except.ok.inj hcmd).symm)

/-- **A subscription in closed form**: an entry is appended for a client that has none in the topic. -/
theorem subscribersOf_onSubscribe {s : State} {i : ℕ} {c : Bytes} (hid : idOf s i = some c)
    (t : Bytes) (SF : Bool) (u : Bytes) :
    subscribersOf (onSubscribe s i t SF) u =
      if u = t ∧ ∀ e ∈ subscribersOf s t, e.clientID ≠ c then
        subscribersOf s t ++ [{ clientID := c, SF }]
      else subscribersOf s u := by
  obtain ⟨con, hcon, rfl⟩ := idOf_eq_some.mp hid
  unfold onSubscribe
  simp only [hcon]
  cases ht : s.topics t with
  | none =>
    have hnil : subscribersOf s t = [] := by rw [subscribersOf, ht, Option.getD_none]
    simp only [subscribersOf_update, hnil, List.not_mem_nil, false_implies, implies_true, and_true,
      List.nil_append]
  | some subs =>
    have hsubs : subscribersOf s t = subs := by rw [subscribersOf, ht, Option.getD_some]
    rw [hsubs]
    by_cases hfound : ∃ e ∈ subs, e.clientID = con.clientID
    · have hany : (subs.any fun sub => sub.clientID = con.clientID) = true := by
        simpa using hfound
      rw [if_neg fun hno => by obtain ⟨e, he, heq⟩ := hfound; exact hno.2 e he heq]
      simp only [hany, if_true]
    · have hany : (subs.any fun sub => sub.clientID = con.clientID) = false := by
        simpa using hfound
      push Not at hfound
      simp only [hany, Bool.false_eq_true, if_false, subscribersOf_update]
      exact if_congr (and_iff_left hfound).symm rfl rfl

/-- A socket without an identity subscribes no one. -/
theorem onSubscribe_of_none {s : State} {i : ℕ} (hid : idOf s i = none) (t : Bytes) (SF : Bool) :
    onSubscribe s i t SF = s := by
  have hcon : s.clientsConnected i = none := Option.map_eq_none_iff.mp hid
  simp only [onSubscribe, hcon]

/-- An unsubscription of a client with an entry in the topic erases at the descriptor, if it can. -/
theorem onUnsubscribe_found {s : State} {i : ℕ} {c t : Bytes} (hid : idOf s i = some c)
    (hfound : ∃ e ∈ subscribersOf s t, e.clientID = c) :
    onUnsubscribe s i t =
      if i < (subscribersOf s t).length then
        .ok { s with topics := Function.update s.topics t (some ((subscribersOf s t).eraseIdx i)) }
      else .error .undefined := by
  obtain ⟨con, hcon, rfl⟩ := idOf_eq_some.mp hid
  cases ht : s.topics t with
  | none =>
    rw [subscribersOf, ht] at hfound
    obtain ⟨e, he, -⟩ := hfound
    cases he
  | some subs =>
    have hsubs : subscribersOf s t = subs := by rw [subscribersOf, ht, Option.getD_some]
    rw [hsubs] at hfound ⊢
    have hany : (subs.any fun sub => con.clientID = sub.clientID) = true := by
      obtain ⟨e, he, heq⟩ := hfound
      exact List.any_eq_true.mpr ⟨e, he, decide_eq_true heq.symm⟩
    simp only [onUnsubscribe, ht, hcon, hany, if_true]

/-- An unsubscription of a client without an entry in the topic changes nothing. -/
theorem onUnsubscribe_missing {s : State} {i : ℕ} {c t : Bytes} (hid : idOf s i = some c)
    (hmissing : ∀ e ∈ subscribersOf s t, e.clientID ≠ c) : onUnsubscribe s i t = .ok s := by
  obtain ⟨con, hcon, rfl⟩ := idOf_eq_some.mp hid
  cases ht : s.topics t with
  | none => simp only [onUnsubscribe, ht]
  | some subs =>
    have hany : (subs.any fun sub => con.clientID = sub.clientID) = false := by
      rw [subscribersOf, ht] at hmissing
      rw [List.any_eq_false]
      intro e he
      exact fun heq => hmissing e he (of_decide_eq_true heq).symm
    simp only [onUnsubscribe, ht, hcon, hany, Bool.false_eq_true, if_false]

theorem onUnsubscribe_of_none {s : State} {i : ℕ} (hid : idOf s i = none) (t : Bytes) :
    onUnsubscribe s i t = .ok s := by
  have hcon : s.clientsConnected i = none := Option.map_eq_none_iff.mp hid
  unfold onUnsubscribe
  rw [hcon]
  cases s.topics t <;> rfl

theorem distinct_init (l : Listeners) : Distinct (init l) := fun _ => List.nodup_nil

theorem Distinct.onSubscribe {s : State} (hd : Distinct s) (i : ℕ) (t : Bytes) (SF : Bool) :
    Distinct (onSubscribe s i t SF) := by
  cases hid : idOf s i with
  | none =>
    rw [onSubscribe_of_none hid]
    exact hd
  | some c =>
    intro u
    rw [subscribersOf_onSubscribe hid]
    split
    · rename_i hnew
      rw [List.map_append, List.map_singleton, List.nodup_append]
      refine ⟨hd t, List.pairwise_singleton _ c, fun d hd' d' hd'' heq => ?_⟩
      obtain ⟨e, he, rfl⟩ := List.mem_map.mp hd'
      exact hnew.2 e he (heq.trans (List.mem_singleton.mp hd''))
    · exact hd u

theorem Distinct.onUnsubscribe {s s' : State} (hd : Distinct s) {i : ℕ} {t : Bytes}
    (h : onUnsubscribe s i t = .ok s') : Distinct s' := by
  cases hid : idOf s i with
  | none =>
    rw [onUnsubscribe_of_none hid] at h
    obtain rfl := Except.ok.inj h
    exact hd
  | some c =>
    by_cases hfound : ∃ e ∈ subscribersOf s t, e.clientID = c
    · rw [onUnsubscribe_found hid hfound] at h
      split at h
      · obtain rfl := Except.ok.inj h
        intro u
        rw [subscribersOf_update]
        split
        · exact (hd t).sublist ((List.eraseIdx_sublist _ i).map _)
        · exact hd u
      · cases h
    · push Not at hfound
      rw [onUnsubscribe_missing hid hfound] at h
      obtain rfl := Except.ok.inj h
      exact hd

/-- **No client ever has two entries in a topic**, whatever the clients send. -/
theorem Run.distinct {l : Listeners} {h : List (Step State Input Out)} {s : State}
    (run : Run (Serves l) (init l) h s) : Distinct s := by
  refine run.invariant (P := Distinct) (E := fun _ _ => True) (distinct_init l) ?_
    fun _ _ => trivial
  intro s input s' out hd _ hstep
  rcases Serves.topics_cases hstep with hsame | ⟨i, t, SF, rfl⟩ | ⟨i, t, hun⟩
  · intro t
    rw [subscribersOf, hsame]
    exact hd t
  · exact hd.onSubscribe i t SF
  · exact hd.onUnsubscribe hun

/-! ### Unsubscribing -/

/-- The entry of `c` is gone from the list of `t`; its other entries, in their order, and all other
topics are as before. -/
def Removed (c t : Bytes) (s s' : State) : Prop :=
  (∀ u, u ≠ t → s'.topics u = s.topics u) ∧
    s'.topics t = (s.topics t).map fun subs => subs.filter fun e => e.clientID ≠ c

/-- If `c` has an entry in the list of `t`, the entry at position `i` is `c`'s. -/
def ErasesOwn (s : State) (i : ℕ) (c t : Bytes) : Prop :=
  (∃ e ∈ subscribersOf s t, e.clientID = c) →
    ∃ e, (subscribersOf s t)[i]? = some e ∧ e.clientID = c

/-- Without duplicates, erasing a position is filtering out a client exactly when it is that client's. -/
theorem eraseIdx_eq_filter_iff {subs : List Subscriber}
    (hnodup : (subs.map Subscriber.clientID).Nodup) {i : ℕ} (hi : i < subs.length) (c : Bytes) :
    subs.eraseIdx i = subs.filter (fun e => e.clientID ≠ c) ↔ subs[i].clientID = c := by
  induction subs generalizing i with
  | nil => cases hi
  | cons e subs ih =>
    rw [List.map_cons, List.nodup_cons] at hnodup
    have hother : ∀ e' ∈ subs, e'.clientID ≠ e.clientID := fun e' he' heq =>
      hnodup.1 (heq ▸ List.mem_map_of_mem he')
    cases i with
    | zero =>
      rw [List.eraseIdx_cons_zero, List.getElem_cons_zero]
      constructor
      · intro h
        by_contra hne
        -- the entry itself survives the filter, but it is not in the tail
        have hmem : e ∈ subs := by
          rw [h]
          exact List.mem_filter.mpr ⟨List.mem_cons_self, decide_eq_true hne⟩
        exact hother e hmem rfl
      · intro h
        rw [List.filter_cons_of_neg (by simpa using h), eq_comm, List.filter_eq_self]
        intro e' he'
        exact decide_eq_true (h ▸ hother e' he')
    | succ i =>
      rw [List.length_cons, Nat.add_lt_add_iff_right] at hi
      rw [List.eraseIdx_cons_succ, List.getElem_cons_succ]
      by_cases hc : e.clientID = c
      · have hne : subs[i].clientID ≠ c := hc ▸ hother _ (List.getElem_mem hi)
        refine iff_of_false (fun h => ?_) hne
        have hmem : e ∈ (e :: subs).filter fun e => e.clientID ≠ c := by
          rw [← h]
          exact List.mem_cons_self
        exact of_decide_eq_true (List.mem_filter.mp hmem).2 hc
      · rw [List.filter_cons_of_pos (by simpa using hc), List.cons.injEq]
        exact (and_iff_right rfl).trans (ih hnodup.2 hi)

/-- A topic with an entry is in the table. -/
theorem topics_of_mem {s : State} {t : Bytes} {e : Subscriber} (he : e ∈ subscribersOf s t) :
    s.topics t = some (subscribersOf s t) := by
  cases ht : s.topics t with
  | none =>
    rw [subscribersOf, ht] at he
    cases he
  | some subs => rw [subscribersOf, ht, Option.getD_some]

/-- Erasing a position of the list removes the client found there, and no other. -/
theorem removed_erased_iff {s : State} {t : Bytes} (hnodup : ((subscribersOf s t).map Subscriber.clientID).Nodup)
    {i : ℕ} (hi : i < (subscribersOf s t).length) (c : Bytes) :
    Removed c t s { s with
        topics := Function.update s.topics t (some ((subscribersOf s t).eraseIdx i)) } ↔
      (subscribersOf s t)[i].clientID = c := by
  have htopic := topics_of_mem (List.getElem_mem hi)
  rw [← eraseIdx_eq_filter_iff hnodup hi c]
  simp only [Removed, Function.update_self]
  rw [htopic, Option.map_some, Option.some.injEq]
  exact and_iff_right fun u hu => Function.update_of_ne hu ..

theorem removed_self {s : State} {c t : Bytes} (hmissing : ∀ e ∈ subscribersOf s t, e.clientID ≠ c) :
    Removed c t s s := by
  refine ⟨fun u _ => rfl, ?_⟩
  cases ht : s.topics t with
  | none => rfl
  | some subs =>
    rw [subscribersOf, ht] at hmissing
    rw [Option.map_some, Option.some.injEq, eq_comm, List.filter_eq_self]
    exact fun e he => decide_eq_true (hmissing e he)

/-- Without duplicates, the branch for `unsubscribe` removes exactly the issuer when, and only when, it would
erase the issuer's own entry. -/
theorem onUnsubscribe_removes_iff {s : State} {i : ℕ} {c t : Bytes} (hid : idOf s i = some c)
    (hnodup : ((subscribersOf s t).map Subscriber.clientID).Nodup) :
    (∃ s', onUnsubscribe s i t = .ok s' ∧ Removed c t s s') ↔ ErasesOwn s i c t := by
  by_cases hfound : ∃ e ∈ subscribersOf s t, e.clientID = c
  · rw [onUnsubscribe_found hid hfound, ErasesOwn]
    by_cases hi : i < (subscribersOf s t).length
    · have hremoved := removed_erased_iff hnodup hi c
      rw [if_pos hi, List.getElem?_eq_getElem hi]
      constructor
      · intro ⟨s', heq, hrem⟩ _
        obtain rfl := Except.ok.inj heq
        exact ⟨_, rfl, hremoved.mp hrem⟩
      · intro hown
        obtain ⟨e, he, hec⟩ := hown hfound
        obtain rfl := Option.some.inj he
        exact ⟨_, rfl, hremoved.mpr hec⟩
    · rw [if_neg hi, List.getElem?_eq_none (Nat.le_of_not_lt hi)]
      refine iff_of_false (fun ⟨s', heq, _⟩ => by cases heq) fun hown => ?_
      obtain ⟨e, he, -⟩ := hown hfound
      cases he
  · refine iff_of_true ?_ fun hyes => absurd hyes hfound
    push Not at hfound
    exact ⟨s, onUnsubscribe_missing hid hfound, removed_self hfound⟩

/-- The step of an `unsubscribe` line is the effect of the command. -/
theorem step_unsubscribe {s s' : State} {i : ℕ} {topic : Token TOPIC_SIZE} {stale : Stale}
    {sendOk : ℕ → Bool} :
    (∃ out, step s ⟨.recv i (Command.unsubscribe topic).bytes stale, sendOk⟩ = .ok (s', out)) ↔
      onUnsubscribe s i topic.bytes = .ok s' := by
  rw [step]
  dsimp only
  rw [if_neg (Command.ne_nil _), onCommand_bytes, Command.run]
  cases onUnsubscribe s i topic.bytes with
  | error reason => simp [Except.map]
  | ok s₁ => simp [Except.map]

/-- **The exact condition for `unsubscribe`.**  In every state the broker reaches and for every client
connected on a descriptor `i`, the command is defined and removes exactly the issuer when, and only
when, position `i` of the list holds the issuer's own entry or the issuer has none. -/
theorem unsubscribe_removes_iff {l : Listeners} {h : List (Step State Input Out)} {s : State}
    (run : Run (Serves l) (init l) h s) {c : Bytes} {i : ℕ} (hc : connFd s c = some i)
    (topic : Token TOPIC_SIZE) (stale : Stale) (sendOk : ℕ → Bool) :
    (∃ s' out, step s ⟨.recv i (Command.unsubscribe topic).bytes stale, sendOk⟩ = .ok (s', out) ∧
        Removed c topic.bytes s s') ↔
      ErasesOwn s i c topic.bytes := by
  have hid : idOf s i = some c := (Bookkeeping.Run.linked run).mapped hc
  rw [← onUnsubscribe_removes_iff hid (Run.distinct run topic.bytes)]
  refine exists_congr fun s' => ?_
  have hcommand : (∃ out, step s ⟨.recv i (Command.unsubscribe topic).bytes stale, sendOk⟩ = .ok (s', out)) ↔
      onUnsubscribe s i topic.bytes = .ok s' := step_unsubscribe
  rw [← hcommand, exists_and_right]

/-- Otherwise, if the descriptor is a position of the list at all, the client found there is removed in
the issuer's place. -/
theorem unsubscribe_removes_other {l : Listeners} {h : List (Step State Input Out)} {s : State}
    (run : Run (Serves l) (init l) h s) {c t : Bytes} {i : ℕ} (hc : connFd s c = some i)
    (hfound : ∃ e ∈ subscribersOf s t, e.clientID = c) (hi : i < (subscribersOf s t).length) :
    ∃ s', onUnsubscribe s i t = .ok s' ∧ Removed (subscribersOf s t)[i].clientID t s s' := by
  have hid : idOf s i = some c := (Bookkeeping.Run.linked run).mapped hc
  rw [onUnsubscribe_found hid hfound, if_pos hi]
  exact ⟨_, rfl, (removed_erased_iff (Run.distinct run t) hi _).mpr rfl⟩

/-- The first client leaving its topic: its entry is at position `0`, its descriptor is `5`. -/
theorem unsubscribe_alone_undefined :
    ∃ h s, Run (Serves listeners) (init listeners) h s ∧ connFd s (ascii "a") = some 5 ∧
      ∀ stale sendOk, ¬ ∃ s' out,
        step s ⟨.recv 5 (Command.unsubscribe news).bytes stale, sendOk⟩ = .ok (s', out) ∧
          Removed (ascii "a") news.bytes s s' := by
  refine ⟨_, subscribedA, (Run.start.next connectA).next subscribeA_serves, rfl, ?_⟩
  intro stale sendOk ⟨s', out, hstep, _⟩
  have hun : onUnsubscribe subscribedA 5 news.bytes = .ok s' := step_unsubscribe.mp ⟨out, hstep⟩
  cases hun

/-- Six clients connect, and the first of them is the last one to subscribe. -/
def sixSubscribers : List Input :=
  ([(5, "a"), (6, "b"), (7, "c"), (8, "d"), (9, "e"), (10, "f")].map fun p =>
    ⟨.accept p.1 localhost (ascii p.2), fun _ => true⟩) ++
  [6, 7, 8, 9, 10, 5].map fun fd => ⟨.recv fd (Command.subscribe news 1).bytes ⟨[], 0⟩, fun _ => true⟩

/-- So its entry is at the position of its descriptor. -/
theorem unsubscribe_last : ∃ h s, Run (Serves listeners) (init listeners) h s ∧
    (subscribersOf s news.bytes).map Subscriber.clientID = ["b", "c", "d", "e", "f", "a"].map ascii ∧
      ∃ s' out, step s ⟨.recv 5 (Command.unsubscribe news).bytes ⟨[], 0⟩, fun _ => true⟩ = .ok (s', out) ∧
        Removed (ascii "a") news.bytes s s' := by
  obtain ⟨h, s, run, hcheck⟩ := Run.of_check (serve listeners) (init listeners) sixSubscribers
    (fun _ s => decide (connFd s (ascii "a") = some 5 ∧
      (subscribersOf s news.bytes).map Subscriber.clientID = ["b", "c", "d", "e", "f", "a"].map ascii))
    (by decide +kernel)
  obtain ⟨hc, hids⟩ := of_decide_eq_true hcheck
  have hserves := run.mono fun _ _ _ _ => serves_of_serve
  refine ⟨h, s, hserves, hids, (unsubscribe_removes_iff hserves hc news ⟨[], 0⟩ fun _ => true).mpr fun _ => ?_⟩
  have hlast := congrArg (·[5]?) hids
  rw [List.getElem?_map] at hlast
  exact Option.map_eq_some_iff.mp hlast

/-! ### Subscribing -/

/-- The steps considered: everything but client data other than one whole subscribe command. -/
def Subscribing (_ : State) (input : Input) : Prop :=
  match input.event with
  | .recv _ received _ => received = [] ∨ ∃ topic SF, received = (Command.subscribe topic SF).bytes
  | _ => True

/-- The flag with which a step subscribes `c` to `t`, if it does. -/
def asks (c t : Bytes) (st : Step State Input Out) : Option Bool :=
  match st.input.event with
  | .recv i received _ =>
    if idOf st.before i = some c then
      (subscription received).bind fun p => if p.1 = t then some p.2 else none
    else none
  | _ => none

/-- The flag of the most recent subscription of `c` to `t`. -/
def lastFlag (c t : Bytes) : List (Step State Input Out) → Option Bool
  | [] => none
  | st :: h => (asks c t st).or (lastFlag c t h)

/-- The flag of the first subscription of `c` to `t`. -/
def firstFlag (c t : Bytes) : List (Step State Input Out) → Option Bool
  | [] => none
  | st :: h => (firstFlag c t h).or (asks c t st)

/-- The flags of the entries of `c` in the list of `t`. -/
def flagsOf (s : State) (t c : Bytes) : List Bool :=
  ((subscribersOf s t).filter fun e => e.clientID = c).map Subscriber.SF

/-- A subscription of `c` to `t` leaves the other topics, and the other clients' entries, as they are. -/
def OthersKept (s : State) (i : ℕ) (c : Bytes) (topic : Token TOPIC_SIZE) (SF : Int32) : Prop :=
  ∀ stale sendOk, ∃ s',
    step s ⟨.recv i (Command.subscribe topic SF).bytes stale, sendOk⟩ = .ok (s', []) ∧
      (∀ u, u ≠ topic.bytes → s'.topics u = s.topics u) ∧
      (subscribersOf s' topic.bytes).filter (fun e => e.clientID ≠ c) =
        (subscribersOf s topic.bytes).filter fun e => e.clientID ≠ c

/-- Each topic has one entry for each client that subscribed, with the flag of its most recent
subscription, and none for others; a further subscription touches the subscriber's entry only. -/
structure LastWriterWins (h : List (Step State Input Out)) (s : State) : Prop where
  flags : ∀ t c, flagsOf s t c = (lastFlag c t h).toList
  frame : ∀ i c topic SF, idOf s i = some c → OthersKept s i c topic SF

theorem flagsOf_eq_nil {s : State} {t c : Bytes} :
    flagsOf s t c = [] ↔ ∀ e ∈ subscribersOf s t, e.clientID ≠ c := by
  simp [flagsOf]

/-- The first subscription of a client to a topic sets the flag; the later ones leave it. -/
theorem flagsOf_onSubscribe {s : State} {i : ℕ} {d : Bytes} (hid : idOf s i = some d) (u : Bytes)
    (SF : Bool) (t c : Bytes) :
    flagsOf (onSubscribe s i u SF) t c =
      if c = d ∧ t = u ∧ flagsOf s t c = [] then [SF] else flagsOf s t c := by
  rw [flagsOf, subscribersOf_onSubscribe hid]
  simp only [flagsOf_eq_nil]
  by_cases htu : t = u
  · subst htu
    by_cases hnew : ∀ e ∈ subscribersOf s t, e.clientID ≠ d
    · rw [if_pos ⟨rfl, hnew⟩, List.filter_append, List.map_append]
      by_cases hcd : c = d
      · subst hcd
        have hnil : flagsOf s t c = [] := flagsOf_eq_nil.mpr hnew
        rw [if_pos ⟨rfl, rfl, hnew⟩]
        show flagsOf s t c ++ _ = [SF]
        rw [hnil]
        simp
      · rw [if_neg fun h => hcd h.1]
        simp [flagsOf, Ne.symm hcd]
    · rw [if_neg fun h => hnew h.2, if_neg]
      · rfl
      · rintro ⟨rfl, -, hno⟩
        exact hnew hno
  · rw [if_neg fun h => htu h.1, if_neg fun h => htu h.2.1]
    rfl

theorem step_subscribe (s : State) (i : ℕ) (topic : Token TOPIC_SIZE) (SF : Int32) (stale : Stale)
    (sendOk : ℕ → Bool) :
    step s ⟨.recv i (Command.subscribe topic SF).bytes stale, sendOk⟩ =
      .ok (onSubscribe s i topic.bytes (SF.toInt != 0), []) := by
  rw [step]
  dsimp only
  rw [if_neg (Command.ne_nil _), onCommand_bytes]
  rfl

/-- A subscription never touches the others, in any state. -/
theorem othersKept {s : State} {i : ℕ} {c : Bytes} (hid : idOf s i = some c)
    (topic : Token TOPIC_SIZE) (SF : Int32) : OthersKept s i c topic SF := by
  intro stale sendOk
  refine ⟨_, step_subscribe .., ?_, ?_⟩
  · intro u hu
    obtain ⟨con, hcon, rfl⟩ := idOf_eq_some.mp hid
    simp only [onSubscribe, hcon]
    split
    · exact Function.update_of_ne hu ..
    · split
      · rfl
      · exact Function.update_of_ne hu ..
  · rw [subscribersOf_onSubscribe hid]
    split
    · rw [List.filter_append]
      simp
    · rfl

/-- Only data from a client asks for anything. -/
theorem asks_eq_none {c t : Bytes} {s : State} {input : Input} {out : List Out}
    (hquiet : ¬ ClientData input) : asks c t ⟨s, input, out⟩ = none := by
  obtain ⟨event, sendOk⟩ := input
  cases event with
  | recv i received stale =>
    by_cases hnil : received = []
    · subst hnil
      simp only [asks]
      split <;> rfl
    · exact absurd ⟨i, received, stale, rfl, hnil⟩ hquiet
  | _ => rfl

/-- The run lemma: an entry carries the flag of the client's first subscription. -/
theorem Run.flagsOf_eq_firstFlag {l : Listeners} {h : List (Step State Input Out)} {s : State}
    (run : Run (Serves l) (init l) h s) (hok : ∀ st ∈ h, Subscribing st.before st.input) (t c : Bytes) :
    flagsOf s t c = (firstFlag c t h).toList := by
  refine run.history (E := Subscribing) (P := fun h s => flagsOf s t c = (firstFlag c t h).toList)
    rfl ?_ hok
  intro h s input s' out hfirst hsub hstep
  by_cases hdata : ClientData input
  swap
  · rw [firstFlag, asks_eq_none hdata, Option.or_none, ← hfirst, flagsOf, subscribersOf,
      Serves.topics_eq hstep hdata]
    rfl
  obtain ⟨event, sendOk⟩ := input
  obtain ⟨i, received, stale, rfl, hne⟩ := hdata
  obtain ⟨topic, SF, rfl⟩ := hsub.resolve_left hne
  have hs' : s' = onSubscribe s i topic.bytes (SF.toInt != 0) := by
    have heq := (step_subscribe s i topic SF stale sendOk).symm.trans hstep.2
    exact (congrArg Prod.fst (Except.ok.inj heq)).symm
  rw [firstFlag]
  simp only [asks, subscription_bytes, Option.bind_some]
  cases hid : idOf s i with
  | none =>
    rw [hs', onSubscribe_of_none hid, hfirst, if_neg (by simp), Option.or_none]
  | some d =>
    rw [hs', flagsOf_onSubscribe hid, hfirst]
    by_cases hdc : c = d
    · subst hdc
      by_cases htt : t = topic.bytes
      · subst htt
        cases firstFlag c topic.bytes h <;> simp
      · simp [htt, Ne.symm htt]
    · simp [hdc, Ne.symm hdc]

/-- **The exact condition for last-writer-wins.**  Over every run of connections, disconnections,
publications and subscribe commands, the table is the one of the most recent subscriptions when, and
only when, the most recent subscription of each client to each topic has the flag of its first one. -/
theorem lastWriterWins_iff {l : Listeners} {h : List (Step State Input Out)} {s : State}
    (run : Run (Serves l) (init l) h s) (hok : ∀ st ∈ h, Subscribing st.before st.input) :
    LastWriterWins h s ↔ ∀ c t, firstFlag c t h = lastFlag c t h := by
  have hflags := Run.flagsOf_eq_firstFlag run hok
  constructor
  · intro hwins c t
    have heq := (hflags t c).symm.trans (hwins.flags t c)
    cases hfirst : firstFlag c t h with
    | none =>
      cases hlast : lastFlag c t h with
      | none => rfl
      | some f => simp [hfirst, hlast] at heq
    | some f =>
      cases hlast : lastFlag c t h with
      | none => simp [hfirst, hlast] at heq
      | some f' => simpa [hfirst, hlast] using heq
  · intro hagree
    refine ⟨fun t c => ?_, fun i c topic SF hid => othersKept hid topic SF⟩
    rw [hflags, hagree]

def resubscribeA (SF : Int32) : Input :=
  ⟨.recv 5 (Command.subscribe news SF).bytes ⟨[], 0⟩, fun _ => true⟩

theorem resubscribeA_serves (SF : Int32) :
    Serves listeners subscribedA (resubscribeA SF) subscribedA [] := by
  refine ⟨⟨⟨by decide, by decide, by decide⟩, rfl⟩, ?_⟩
  rw [resubscribeA, step_subscribe]
  rfl

/-- **Changing the flag has no effect**: the entry keeps the flag of the first subscription. -/
theorem resubscribed_flag_kept :
    ∃ h s, Run (Serves listeners) (init listeners) h s ∧
      (∀ st ∈ h, Subscribing st.before st.input) ∧ ¬ LastWriterWins h s := by
  refine ⟨_, _, ((Run.start.next connectA).next subscribeA_serves).next (resubscribeA_serves 0), ?_, ?_⟩
  · simp only [List.forall_mem_cons]
    exact ⟨Or.inr ⟨news, 0, rfl⟩, Or.inr ⟨news, 1, rfl⟩, trivial, by simp⟩
  · intro hwins
    have hflags := hwins.flags news.bytes (ascii "a")
    rw [lastFlag, asks] at hflags
    simp only [resubscribeA, subscription_bytes, Option.bind_some, if_true] at hflags
    rw [if_pos (show idOf subscribedA 5 = some (ascii "a") from rfl)] at hflags
    cases hflags

/-- Subscribing again with the same flag. -/
theorem resubscribed_same_flag :
    ∃ h s, Run (Serves listeners) (init listeners) h s ∧ LastWriterWins h s := by
  have run := ((Run.start.next connectA).next subscribeA_serves).next (resubscribeA_serves 1)
  refine ⟨_, _, run, (lastWriterWins_iff run ?_).mpr ?_⟩
  · simp only [List.forall_mem_cons]
    exact ⟨Or.inr ⟨news, 1, rfl⟩, Or.inr ⟨news, 1, rfl⟩, trivial, by simp⟩
  · intro c t
    have hsame : idOf connectedA 5 = idOf subscribedA 5 := rfl
    simp only [firstFlag, lastFlag, asks, resubscribeA, subscribeA, subscription_bytes, announceA,
      hsame, Option.none_or, Option.or_none]

end Pcom.Tema2.Subscriptions
