import Pcom.Lib.Mailbox
import Pcom.Tema2.Bookkeeping
import Pcom.Tema2.Commands

/-!
# Store-and-forward delivery of the broker

The broker serves many clients out of shared tables.  Seen from one client `c`, the tables are a
mailbox (`box`), every step is at most one act on it (`ownAct`), and the broker simulates the mailbox
step by step.  Accepts, closes and subscriptions of other clients, and rejected connections with `c`'s
own id, are no acts at all.

* `Serves.simulates` — **one step** of the broker is the act it stands for;
* `delivered_exactly_once` — **over every run**: the lines sent to `c` and the lines stored for `c` are
  the lines due to `c`, in order and once each, and they depend on `c`'s own acts and on what was
  published, not on the other clients.
-/

namespace Pcom.Tema2.Delivery

open Pcom.Lib.Scan Pcom.Lib.StepSystem Pcom.Lib.Mailbox Pcom.Tema2.Datagram Pcom.Tema2.Server
open Pcom.Tema2.Bookkeeping Pcom.Tema2.Commands

/-! ### The history of one client -/

/-- The steps considered: accepts, closes, one whole subscribe command, valid datagrams. -/
def Admissible (_ : State) (input : Input) : Prop :=
  match input.event with
  | .accept .. => True
  | .recv _ received _ =>
    received = [] ∨ ∃ topic SF, received = (Command.subscribe topic SF).bytes
  | .datagram _ received => ∃ pkt, processUdpPacket received = some pkt ∧ pkt.valid = true
  | _ => False

/-- The socket of `c`'s session: opened by an accepted announcement of `c` while there is none, closed
by the end of file on that socket. -/
def nextSession (c : Bytes) (cur : Option ℕ) : Event → Option ℕ
  | .accept fd _ received =>
    if cur = none ∧ bufferString MAX_LEN received = some c then some fd else cur
  | .recv fd received _ => if received = [] ∧ cur = some fd then none else cur
  | _ => cur

def session (c : Bytes) : List (Step State Input Out) → Option ℕ
  | [] => none
  | st :: h => nextSession c (session c h) st.input.event

/-- The lines among `out` that go to the socket `cur`. -/
def linesTo (cur : Option ℕ) (out : List Out) : List Bytes :=
  out.filterMap fun
    | .send fd text => if cur = some fd then some text else none
    | .close _ => none

/-- The lines sent to `c` over all its sessions. -/
def sentTo (c : Bytes) : List (Step State Input Out) → List Bytes
  | [] => []
  | st :: h => sentTo c h ++ linesTo (session c (st :: h)) st.out

theorem linesTo_none (out : List Out) : linesTo none out = [] := by
  rw [linesTo, List.filterMap_eq_nil_iff]
  intro o _
  cases o <;> simp

/-- Does the topic hold an entry for `c`, and is `c` connected or the entry's flag set? -/
def wanted (s : State) (c : Bytes) (cur : Option ℕ) (t : Bytes) : Bool :=
  match s.topics t with
  | none => false
  | some subs => subs.any fun e => e.clientID = c && (cur.isSome || e.SF)

/-- The line a step publishes for `c`. -/
def dueNow (c : Bytes) (cur : Option ℕ) (s : State) : Event → List Bytes
  | .datagram sender received =>
    match processUdpPacket received with
    | none => []
    | some pkt => if wanted s c cur pkt.topic then [line sender pkt] else []
  | _ => []

/-- The lines published for `c`, in the order of publication. -/
def dueTo (c : Bytes) : List (Step State Input Out) → List Bytes
  | [] => []
  | st :: h => dueTo c h ++ dueNow c (session c h) st.before st.input.event

/-- The topic and flag of a subscribe command. -/
def subscription (received : Bytes) : Option (Bytes × Bool) :=
  match (bufferString MAX_LEN received).bind (sscanf [.word 16, .word 51, .int]) with
  | some [_, .word topic, .int SF] => some (topic, SF != 0)
  | _ => none

/-- What an event is for the mailbox of `c`. -/
def ownAct (c : Bytes) (cur : Option ℕ) : Event → Option (Act Bytes Bytes)
  | .accept _ _ received =>
    if cur = none ∧ bufferString MAX_LEN received = some c then some .connect else none
  | .recv fd received _ =>
    if cur = some fd then
      if received = [] then some .disconnect
      else (subscription received).map fun p => .subscribe p.1 p.2
    else none
  | .datagram sender received =>
    (processUdpPacket received).map fun pkt => .publish pkt.topic (line sender pkt)
  | _ => none

/-- `c`'s own acts and the publications, latest first. -/
def own (c : Bytes) : List (Step State Input Out) → List (Act Bytes Bytes)
  | [] => []
  | st :: h => (ownAct c (session c h) st.input.event).toList ++ own c h

theorem subscription_bytes (topic : Token TOPIC_SIZE) (SF : Int32) :
    subscription (Command.subscribe topic SF).bytes = some (topic.bytes, SF.toInt != 0) := by
  rw [subscription, Command.bufferString_bytes, Option.bind_some, sscanf_subscribe]

/-! ### The mailbox in the tables -/

/-- The flag of the entry of `c` in the list of a topic. -/
def entryFlag (subs : List Subscriber) (c : Bytes) : Option Bool :=
  (subs.find? fun e => e.clientID = c).map Subscriber.SF

/-- The mailbox of `c`. -/
def box (c : Bytes) (s : State) : Box Bytes Bytes where
  flag := fun t => (s.topics t).bind fun subs => entryFlag subs c
  connected := (connFd s c).isSome
  pending := stored s c

/-- No client has two entries in a topic, and named entries belong to known clients. -/
structure Orderly (s : State) : Prop where
  nodup : ∀ t subs, s.topics t = some subs → (subs.map Subscriber.clientID).Nodup
  known : ∀ t subs e, s.topics t = some subs → e ∈ subs → e.clientID ≠ [] →
    s.subscribers e.clientID ≠ none

theorem entryFlag_cons (e : Subscriber) (subs : List Subscriber) (c : Bytes) :
    entryFlag (e :: subs) c = if e.clientID = c then some e.SF else entryFlag subs c := by
  by_cases h : e.clientID = c <;> simp [entryFlag, h]

theorem entryFlag_eq_none {subs : List Subscriber} {c : Bytes} :
    entryFlag subs c = none ↔ ∀ e ∈ subs, e.clientID ≠ c := by
  simp [entryFlag]

theorem entryFlag_append (subs : List Subscriber) (e : Subscriber) (c : Bytes) :
    entryFlag (subs ++ [e]) c =
      (entryFlag subs c).or (if e.clientID = c then some e.SF else none) := by
  induction subs with
  | nil => simp [entryFlag]
  | cons e' subs ih =>
    rw [List.cons_append, entryFlag_cons, entryFlag_cons, ih]
    split <;> rfl

/-- Without duplicates, an entry of `c` is the one found. -/
theorem entryFlag_cons_nodup {e : Subscriber} {subs : List Subscriber}
    (hnodup : ((e :: subs).map Subscriber.clientID).Nodup) :
    entryFlag subs e.clientID = none := by
  rw [List.map_cons, List.nodup_cons] at hnodup
  rw [entryFlag_eq_none]
  intro e' he' heq
  exact hnodup.1 (heq ▸ List.mem_map_of_mem he')

theorem wanted_eq {s : State} (ho : Orderly s) (c : Bytes) (t : Bytes) :
    wanted s c (connFd s c) t = (box c s).wants t := by
  unfold wanted Box.wants
  simp only [box]
  cases ht : s.topics t with
  | none => rfl
  | some subs =>
    have hnodup := ho.nodup t subs ht
    simp only [Option.bind_some]
    clear ht
    induction subs with
    | nil => rfl
    | cons e subs ih =>
      have htail := ih (List.nodup_cons.mp hnodup).2
      rw [List.any_cons, htail, entryFlag_cons]
      by_cases he : e.clientID = c
      · subst he
        rw [entryFlag_cons_nodup hnodup, if_pos rfl]
        simp
      · rw [if_neg he]
        simp [he]

/-! ### Datagrams -/

theorem queued_eq {subs : List Subscriber} (hnodup : (subs.map Subscriber.clientID).Nodup)
    (c : Bytes) : queued subs c = if entryFlag subs c = some true then 1 else 0 := by
  induction subs with
  | nil => rfl
  | cons e subs ih =>
    have htail := ih (List.nodup_cons.mp hnodup).2
    rw [entryFlag_cons]
    by_cases he : e.clientID = c
    · subst he
      rw [entryFlag_cons_nodup hnodup] at htail
      have hzero : queued subs e.clientID = 0 := htail
      cases hsf : e.SF <;> simp [queued, hsf] at hzero ⊢ <;> exact hzero
    · rw [if_neg he, ← htail]
      simp [queued, he]

/-- A connected client with an entry is sent the text once. -/
theorem linesTo_deliver {s : State} (hl : Linked s) {subs : List Subscriber}
    (hnodup : (subs.map Subscriber.clientID).Nodup) (text c : Bytes) {fd : ℕ}
    (hc : connFd s c = some fd) :
    linesTo (some fd) (subs.filterMap (sendFor text s)) =
      if (entryFlag subs c).isSome then [text] else [] := by
  induction subs with
  | nil => rfl
  | cons e subs ih =>
    have htail := ih (List.nodup_cons.mp hnodup).2
    rw [entryFlag_cons, List.filterMap_cons, sendFor_eq]
    by_cases he : e.clientID = c
    · subst he
      rw [entryFlag_cons_nodup hnodup] at htail
      rw [if_pos rfl, hc]
      simpa [linesTo] using htail
    · rw [if_neg he, ← htail]
      cases hconn : connFd s e.clientID with
      | none => rfl
      | some fd' =>
        have hne : fd ≠ fd' := by
          intro heq
          have hid := hl.mapped hc
          rw [heq, hl.mapped hconn] at hid
          exact he (Option.some.inj hid)
        simp [linesTo, hne]

theorem stored_deliver (text : Bytes) (s : State) (subs : List Subscriber) (c : Bytes) :
    stored (deliver text s subs).1 c =
      match s.subscribers c with
      | none => []
      | some data => (queueFor text subs c data).packets := by
  rw [deliver_eq]
  simp only [stored]
  cases s.subscribers c <;> rfl

theorem stored_eq_of_connected {s : State} {c : Bytes} {fd : ℕ} (h : connFd s c = some fd)
    (text : Bytes) (subs : List Subscriber) :
    stored (deliver text s subs).1 c = stored s c := by
  obtain ⟨data, hdata, hcon, -⟩ := connFd_eq_some.mp h
  rw [stored_deliver]
  simp only [hdata, stored, queueFor, if_pos hcon]

/-- An absent client with a storing entry has the text stored once. -/
theorem stored_eq_of_absent {s : State} (ho : Orderly s) {t : Bytes} {subs : List Subscriber}
    (ht : s.topics t = some subs) {c : Bytes} (hc : c ≠ []) (h : connFd s c = none) (text : Bytes) :
    stored (deliver text s subs).1 c =
      stored s c ++ if entryFlag subs c = some true then [text] else [] := by
  rw [stored_deliver]
  cases hdata : s.subscribers c with
  | none =>
    have hflag : entryFlag subs c = none := by
      rw [entryFlag_eq_none]
      intro e he heq
      exact ho.known t subs e ht he (heq ▸ hc) (heq ▸ hdata)
    simp [stored, hdata, hflag]
  | some data =>
    have hcon : data.connected ≠ true := fun hcon => by
      rw [connFd, hdata, Option.bind_some, if_pos hcon] at h
      cases h
    simp only [queueFor, if_neg hcon, stored, hdata, queued_eq (ho.nodup t subs ht)]
    split <;> rfl

/-! ### One step -/

/-- What the act of a step does to the mailbox of `c`. -/
structure Simulated (c : Bytes) (s : State) (event : Event) (s' : State) (out : List Out) : Prop where
  session : connFd s' c = nextSession c (connFd s c) event
  box_eq : box c s' =
    (ownAct c (connFd s c) event).elim (box c s) fun a => ((box c s).apply a).1
  lines : linesTo (connFd s' c) out =
    (ownAct c (connFd s c) event).elim [] fun a => ((box c s).apply a).2

theorem simulated_datagram {s s' : State} {out : List Out} {sender : SockAddr} {received : Bytes}
    {sendOk : ℕ → Bool} (hl : Linked s) (ho : Orderly s) {c : Bytes} (hc : c ≠ [])
    (hok : Admissible s ⟨.datagram sender received, sendOk⟩)
    (h : step s ⟨.datagram sender received, sendOk⟩ = .ok (s', out)) :
    Simulated c s (.datagram sender received) s' out := by
  obtain ⟨pkt, hpkt, hvalid⟩ := hok
  obtain ⟨pkt', hpkt', hcases⟩ := step_datagram h
  obtain rfl := Option.some.inj (hpkt.symm.trans hpkt')
  have hact : ownAct c (connFd s c) (.datagram sender received) =
      some (.publish pkt.topic (line sender pkt)) := by
    simp only [ownAct, hpkt, Option.map_some]
  rcases hcases with ⟨hnone, rfl, rfl⟩ | ⟨subs, -, ht, heq⟩
  · have ht : s'.topics pkt.topic = none := by
      simpa [hvalid] using hnone
    have hwants : (box c s').wants pkt.topic = false := by
      simp [Box.wants, box, ht]
    refine ⟨rfl, ?_, ?_⟩
    · rw [hact, Option.elim_some, Box.apply_publish_unwanted hwants]
    · rw [hact, Option.elim_some, Box.apply_publish_unwanted hwants]
      rfl
  · have hs' : s' = (deliver (line sender pkt) s subs).1 := congrArg Prod.fst heq
    have hout : out = subs.filterMap (sendFor (line sender pkt) s) := by
      rw [show out = (deliver (line sender pkt) s subs).2 from congrArg Prod.snd heq, deliver_eq]
    have hsess : connFd s' c = connFd s c := by rw [hs', connFd_deliver]
    have htopics : s'.topics = s.topics := by rw [hs', deliver_eq]
    have hflag : (box c s).flag pkt.topic = entryFlag subs c := by simp [box, ht]
    have hbox : box c s' = { box c s with pending := stored s' c } := by
      simp only [box, hsess, htopics]
    cases hconn : connFd s c with
    | none =>
      have habsent : (box c s).connected = false := by simp [box, hconn]
      have hwants : (box c s).wants pkt.topic = (entryFlag subs c == some true) := by
        rw [Box.wants, hflag, habsent]
        cases entryFlag subs c <;> simp
      have happly := Box.apply_publish_absent habsent pkt.topic (line sender pkt)
      rw [hwants] at happly
      refine ⟨hsess, ?_, ?_⟩
      · rw [hact, Option.elim_some, happly, hbox, hs', stored_eq_of_absent ho ht hc hconn]
        simp [box]
      · rw [hact, Option.elim_some, happly, hsess, hconn]
        exact linesTo_none out
    | some fd =>
      have hcon : (box c s).connected = true := by simp [box, hconn]
      have hwants : (box c s).wants pkt.topic = (entryFlag subs c).isSome := by
        rw [Box.wants, hflag, hcon]
        cases entryFlag subs c <;> simp
      have happly := Box.apply_publish_connected hcon pkt.topic (line sender pkt)
      rw [hwants] at happly
      refine ⟨hsess, ?_, ?_⟩
      · rw [hact, Option.elim_some, happly, hbox, hs', stored_eq_of_connected hconn]
        rfl
      · rw [hact, Option.elim_some, happly, hsess, hconn, hout,
          linesTo_deliver hl (ho.nodup _ _ ht) _ _ hconn]

theorem linesTo_other {cur : Option ℕ} {fd : ℕ} (h : cur ≠ some fd) (texts : List Bytes) :
    linesTo cur (texts.map (Out.send fd)) = [] := by
  simp [linesTo, h]

theorem linesTo_own (fd : ℕ) (texts : List Bytes) :
    linesTo (some fd) (texts.map (Out.send fd)) = texts := by
  simp [linesTo]

theorem stored_register (s : State) (fd : ℕ) (addr : SockAddr) (id c : Bytes) :
    stored (register s fd addr id) c = if c = id then [] else stored s c := by
  by_cases h : c = id
  · subst h
    simp only [stored, register, Function.update_self, if_true]
    cases s.subscribers c <;> rfl
  · simp only [stored, register, Function.update_of_ne h, if_neg h]

theorem simulated_accept {s s' : State} {out : List Out} {fd : ℕ} {addr : SockAddr}
    {received : Bytes} {sendOk : ℕ → Bool} (hl : Linked s) (hfresh : s.readFds fd = false) (c : Bytes)
    (h : step s ⟨.accept fd addr received, sendOk⟩ = .ok (s', out)) :
    Simulated c s (.accept fd addr received) s' out := by
  have hother := hl.fresh hfresh c
  obtain ⟨id, hbuf, ⟨hcon, rfl, rfl⟩ | ⟨hcon, rfl, rfl⟩⟩ := step_accept h
  · have hno : ¬ (connFd s c = none ∧ bufferString MAX_LEN received = some c) := by
      intro ⟨hnone, hb⟩
      obtain rfl := Option.some.inj (hbuf.symm.trans hb)
      rw [isConnected_iff, hnone] at hcon
      cases hcon
    refine ⟨?_, ?_, ?_⟩
    · rw [nextSession, if_neg hno]
      rfl
    · rw [ownAct, if_neg hno]
      rfl
    · rw [ownAct, if_neg hno]
      exact linesTo_other hother [_]
  · rw [isConnected_iff, Option.isSome_eq_false_iff, Option.isNone_iff_eq_none] at hcon
    have hconn : connFd (register (watch s fd) fd addr id) =
        Function.update (connFd s) id (some fd) := connFd_register ..
    have hstored := stored_register (watch s fd) fd addr id c
    by_cases hc : c = id
    · subst hc
      have hyes : connFd s c = none ∧ bufferString MAX_LEN received = some c := ⟨hcon, hbuf⟩
      refine ⟨?_, ?_, ?_⟩
      · rw [nextSession, if_pos hyes, hconn, Function.update_self]
      · rw [ownAct, if_pos hyes, Option.elim_some]
        ext1
        · rfl
        · simp [box, Box.apply, hconn]
        · rw [show (box c (register (watch s fd) fd addr c)).pending = _ from hstored, if_pos rfl]
          rfl
      · rw [ownAct, if_pos hyes, hconn, Function.update_self, linesTo_own]
        rfl
    · have hno : ¬ (connFd s c = none ∧ bufferString MAX_LEN received = some c) :=
        fun ⟨_, hb⟩ => hc (Option.some.inj (hb.symm.trans hbuf))
      rw [if_neg hc] at hstored
      have hsess : connFd (register (watch s fd) fd addr id) c = connFd s c := by
        rw [hconn, Function.update_of_ne hc]
      refine ⟨?_, ?_, ?_⟩
      · rw [nextSession, if_neg hno, hsess]
      · rw [ownAct, if_neg hno, Option.elim_none, box, hsess, hstored]
        rfl
      · rw [ownAct, if_neg hno, Option.elim_none, hsess]
        exact linesTo_other hother _

theorem onEof_frame (s : State) (fd : ℕ) (c : Bytes) :
    (onEof s fd).1.topics = s.topics ∧ stored (onEof s fd).1 c = stored s c ∧
      ((onEof s fd).1.subscribers c = none ↔ s.subscribers c = none) := by
  rw [stored, stored, onEof_subscribers]
  by_cases hown : idOf s fd = some c ∧ c ≠ []
  · rw [if_pos hown]
    exact ⟨onEof_topics s fd, by cases s.subscribers c <;> rfl, Option.map_eq_none_iff⟩
  · rw [if_neg hown]
    exact ⟨onEof_topics s fd, rfl, Iff.rfl⟩

theorem simulated_eof {l : Listeners} {s s' : State} {out : List Out} {fd : ℕ} {stale : Stale}
    {sendOk : ℕ → Bool} (hl : Linked s) {c : Bytes} (hc : c ≠ [])
    (h : Serves l s ⟨.recv fd [] stale, sendOk⟩ s' out) :
    Simulated c s (.recv fd [] stale) s' out := by
  have heq : (s', out) = onEof s fd := (Except.ok.inj h.2).symm
  have hs' : s' = (onEof s fd).1 := congrArg Prod.fst heq
  have hout : out = (onEof s fd).2 := congrArg Prod.snd heq
  obtain ⟨htopics, hstored, -⟩ := onEof_frame s fd c
  have hsilent : ∀ cur, linesTo cur out = [] := by
    intro cur
    rw [hout]
    unfold onEof
    dsimp only
    split <;> rfl
  have hsess : connFd s' c = if connFd s c = some fd then none else connFd s c := by
    by_cases hown : connFd s c = some fd
    · rw [if_pos hown, hs', (onEof_named (hl.mapped hown) hc).2.1, Function.update_self]
    · rw [if_neg hown]
      by_cases hnamed : ∀ d, idOf s fd = some d → d = []
      · rw [hs', (onEof_unnamed hnamed).2.1]
      · push Not at hnamed
        obtain ⟨d, hd, hdne⟩ := hnamed
        have hcd : c ≠ d := fun heq => hown ((hl.inverse fd c hc).mp (heq ▸ hd))
        rw [hs', (onEof_named hd hdne).2.1, Function.update_of_ne hcd]
  have hbox : box c s' = { box c s with connected := (connFd s' c).isSome } := by
    simp only [box, hs', htopics, hstored]
  by_cases hown : connFd s c = some fd
  · rw [if_pos hown] at hsess
    refine ⟨?_, ?_, ?_⟩
    · rw [nextSession, if_pos ⟨rfl, hown⟩, hsess]
    · rw [ownAct, if_pos hown, if_pos rfl, hbox, hsess]
      rfl
    · rw [ownAct, if_pos hown, if_pos rfl, hsilent]
      rfl
  · rw [if_neg hown] at hsess
    refine ⟨?_, ?_, ?_⟩
    · rw [nextSession, if_neg fun h => hown h.2, hsess]
    · rw [ownAct, if_neg hown, hbox, hsess]
      rfl
    · rw [ownAct, if_neg hown, hsilent]
      rfl

/-- A subscription enters the table once, under the id of the connection it came on. -/
theorem flag_onSubscribe {s : State} (hl : Linked s) {c : Bytes} (hc : c ≠ []) (i : ℕ) (t : Bytes)
    (SF : Bool) :
    (box c (onSubscribe s i t SF)).flag =
      if connFd s c = some i then
        Function.update (box c s).flag t (some (((box c s).flag t).getD SF))
      else (box c s).flag := by
  unfold onSubscribe
  cases hcon : s.clientsConnected i with
  | none =>
    have hown : connFd s c ≠ some i := fun h => by
      have hid := hl.mapped h
      rw [idOf, hcon] at hid
      cases hid
    rw [if_neg hown]
  | some con =>
    have hown : con.clientID = c ↔ connFd s c = some i := by
      rw [← hl.inverse i c hc, idOf, hcon]
      simp
    have hany : ∀ subs : List Subscriber,
        (subs.any fun sub => sub.clientID = con.clientID) = (entryFlag subs con.clientID).isSome := by
      intro subs
      rw [Bool.eq_iff_iff, Option.isSome_iff_ne_none, ne_eq, entryFlag_eq_none]
      simp
    have hnew : entryFlag [{ clientID := con.clientID, SF }] c =
        if con.clientID = c then some SF else none := entryFlag_cons ..
    cases ht : s.topics t with
    | none =>
      funext t'
      by_cases htt : t' = t
      · subst htt
        simp only [box, Function.update_self, Option.bind_some, hnew, hown]
        split <;> simp [ht]
      · simp only [box, Function.update_of_ne htt]
        split <;> simp [Function.update_of_ne htt]
    | some subs =>
      simp only [hany]
      split
      · rename_i hfound
        split
        · rename_i hsess
          obtain rfl := hown.mpr hsess
          obtain ⟨f, hf⟩ := Option.isSome_iff_exists.mp hfound
          have hflag : (box con.clientID s).flag t = some f := by simp [box, ht, hf]
          rw [hflag, Option.getD_some, ← hflag, Function.update_eq_self]
        · rfl
      · rename_i hfound
        funext t'
        by_cases htt : t' = t
        · subst htt
          simp only [box, Function.update_self, Option.bind_some, entryFlag_append, hown]
          split
          · rename_i hsess
            obtain rfl := hown.mpr hsess
            rw [Option.not_isSome_iff_eq_none] at hfound
            simp [ht, hfound]
          · simp [ht]
        · simp only [box, Function.update_of_ne htt]
          split <;> simp [Function.update_of_ne htt]

theorem box_onSubscribe {s : State} (hl : Linked s) {c : Bytes} (hc : c ≠ []) (i : ℕ) (t : Bytes)
    (SF : Bool) :
    box c (onSubscribe s i t SF) =
      if connFd s c = some i then ((box c s).apply (.subscribe t SF)).1 else box c s := by
  have hflag := flag_onSubscribe hl hc i t SF
  obtain ⟨topics, hs'⟩ := onSubscribe_topics s i t SF
  have hframe : box c (onSubscribe s i t SF) =
      { box c s with flag := (box c (onSubscribe s i t SF)).flag } := by rw [hs']; rfl
  rw [hframe, hflag]
  split <;> rfl

theorem simulated_subscribe {s s' : State} {out : List Out} {fd : ℕ} {topic : Token TOPIC_SIZE}
    {SF : Int32} {stale : Stale} {sendOk : ℕ → Bool} (hl : Linked s) {c : Bytes} (hc : c ≠ [])
    (h : step s ⟨.recv fd (Command.subscribe topic SF).bytes stale, sendOk⟩ = .ok (s', out)) :
    Simulated c s (.recv fd (Command.subscribe topic SF).bytes stale) s' out ∧
      s' = onSubscribe s fd topic.bytes (SF.toInt != 0) := by
  have hne := (Command.subscribe topic SF).ne_nil
  obtain ⟨hnil, -⟩ | ⟨-, hcmd, rfl⟩ := step_recv h
  · exact absurd hnil hne
  rw [onCommand_bytes] at hcmd
  have hs' : s' = onSubscribe s fd topic.bytes (SF.toInt != 0) := (Except.ok.inj hcmd).symm
  refine ⟨⟨?_, ?_, ?_⟩, hs'⟩
  · rw [nextSession, if_neg fun h => hne h.1, hs']
    obtain ⟨topics, hframe⟩ := onSubscribe_topics s fd topic.bytes (SF.toInt != 0)
    rw [hframe]
    rfl
  · rw [hs', box_onSubscribe hl hc, ownAct, if_neg hne, subscription_bytes]
    split <;> rfl
  · rw [ownAct, if_neg hne, subscription_bytes]
    split <;> rfl

/-! ### Runs -/

theorem orderly_init (l : Listeners) : Orderly (init l) where
  nodup := fun t subs h => by cases h
  known := fun t subs e h => by cases h

theorem Orderly.of_frame {s s' : State} (ho : Orderly s) (htopics : s'.topics = s.topics)
    (hsubs : ∀ c, s.subscribers c ≠ none → s'.subscribers c ≠ none) : Orderly s' where
  nodup := by rw [htopics]; exact ho.nodup
  known := fun t subs e ht he hne => by
    rw [htopics] at ht
    exact hsubs _ (ho.known t subs e ht he hne)

theorem Orderly.update {s : State} (ho : Orderly s) (t : Bytes) {subs : List Subscriber}
    (hnodup : (subs.map Subscriber.clientID).Nodup)
    (hknown : ∀ e ∈ subs, e.clientID ≠ [] → s.subscribers e.clientID ≠ none) :
    Orderly { s with topics := Function.update s.topics t (some subs) } := by
  constructor
  · intro t' subs' h
    by_cases htt : t' = t
    · subst htt
      simp only [Function.update_self, Option.some.injEq] at h
      exact h ▸ hnodup
    · exact ho.nodup t' subs' (by simpa only [Function.update_of_ne htt] using h)
  · intro t' subs' e h he hne
    by_cases htt : t' = t
    · subst htt
      simp only [Function.update_self, Option.some.injEq] at h
      exact hknown e (h ▸ he) hne
    · exact ho.known t' subs' e (by simpa only [Function.update_of_ne htt] using h) he hne

theorem Orderly.onSubscribe {s : State} (ho : Orderly s) (hl : Linked s) (i : ℕ) (t : Bytes)
    (SF : Bool) : Orderly (onSubscribe s i t SF) := by
  unfold Server.onSubscribe
  cases hcon : s.clientsConnected i with
  | none => exact ho
  | some con =>
    have hknown : con.clientID ≠ [] → s.subscribers con.clientID ≠ none := by
      intro hne hnone
      have hid : idOf s i = some con.clientID := by rw [idOf, hcon]; rfl
      have hconn := (hl.inverse i _ hne).mp hid
      rw [connFd, hnone] at hconn
      cases hconn
    cases ht : s.topics t with
    | none =>
      refine ho.update t (by simp) fun e he hne => ?_
      obtain rfl := List.mem_singleton.mp he
      exact hknown hne
    | some subs =>
      dsimp only
      split
      · exact ho
      · rename_i hnew
        refine ho.update t ?_ fun e he hne => ?_
        · rw [List.map_append, List.nodup_append]
          refine ⟨ho.nodup t subs ht, by simp, ?_⟩
          intro c hc d hd heq
          obtain ⟨e, he, rfl⟩ := List.mem_map.mp hc
          obtain rfl := List.mem_singleton.mp hd
          exact hnew (List.any_eq_true.mpr ⟨e, he, decide_eq_true heq⟩)
        · rcases List.mem_append.mp he with he | he
          · exact ho.known t subs e ht he hne
          · obtain rfl := List.mem_singleton.mp he
            exact hknown hne

/-- **One step of the broker is the act it stands for**, and keeps the tables in order. -/
theorem Serves.simulates {l : Listeners} {s s' : State} {input : Input} {out : List Out}
    (h : Serves l s input s' out) (hok : Admissible s input) (hl : Linked s) (ho : Orderly s) :
    Orderly s' ∧ ∀ c, c ≠ [] → Simulated c s input.event s' out := by
  obtain ⟨event, sendOk⟩ := input
  cases event with
  | stdin text => exact hok.elim
  | datagram sender received =>
    refine ⟨?_, fun c hc => simulated_datagram hl ho hc hok h.2⟩
    obtain ⟨pkt, -, ⟨-, rfl, -⟩ | ⟨subs, -, -, heq⟩⟩ := step_datagram h.2
    · exact ho
    · have hs' : s' = (deliver (line sender pkt) s subs).1 := congrArg Prod.fst heq
      rw [hs', deliver_eq]
      refine ho.of_frame rfl fun c hc => ?_
      simpa using hc
  | accept fd addr received =>
    refine ⟨?_, fun c _ => simulated_accept hl h.1 c h.2⟩
    obtain ⟨id, -, ⟨-, rfl, -⟩ | ⟨-, rfl, -⟩⟩ := step_accept h.2
    · exact ho.of_frame rfl fun _ hc => hc
    · refine ho.of_frame rfl fun c hc => ?_
      by_cases hci : c = id
      · subst hci
        simp [register]
      · have hsub : (register (watch s fd) fd addr id).subscribers c = s.subscribers c :=
          Function.update_of_ne hci ..
        rw [hsub]
        exact hc
  | recv fd received stale =>
    obtain rfl | ⟨topic, SF, rfl⟩ := hok
    · refine ⟨?_, fun c hc => simulated_eof hl hc h⟩
      have hs' : s' = (onEof s fd).1 := congrArg Prod.fst (Except.ok.inj h.2).symm
      rw [hs']
      exact ho.of_frame (onEof_frame s fd []).1 fun c hc => mt (onEof_frame s fd c).2.2.mp hc
    · refine ⟨?_, fun c hc => (simulated_subscribe hl hc h.2).1⟩
      have hs' : s' = onSubscribe s fd topic.bytes (SF.toInt != 0) :=
        (simulated_subscribe hl (c := [0]) (by decide) h.2).2
      rw [hs']
      exact ho.onSubscribe hl ..
  | recvError fd => exact hok.elim

/-- The history of a run as the mailbox of `c` sees it. -/
structure Followed (c : Bytes) (h : List (Step State Input Out)) (s : State) : Prop where
  session : connFd s c = session c h
  box_eq : box c s = after (own c h)
  sent_eq : sentTo c h = sent (own c h)
  due_eq : dueTo c h = due (own c h)

theorem followed_init (l : Listeners) (c : Bytes) : Followed c [] (init l) :=
  ⟨rfl, rfl, rfl, rfl⟩

/-- What a step makes due to `c` is what its act makes due to the mailbox. -/
theorem dueNow_eq {s : State} (ho : Orderly s) (c : Bytes) (event : Event) :
    dueNow c (connFd s c) s event =
      (ownAct c (connFd s c) event).elim [] fun a => (box c s).owed a := by
  cases event with
  | datagram sender received =>
    cases hp : processUdpPacket received with
    | none => simp [dueNow, ownAct, hp]
    | some pkt => simp [dueNow, ownAct, hp, wanted_eq ho, Box.owed]
  | accept fd addr received =>
    simp only [dueNow, ownAct]
    split <;> rfl
  | recv fd received stale =>
    simp only [dueNow, ownAct]
    split
    · split
      · rfl
      · cases subscription received <;> rfl
    · rfl
  | stdin text => rfl
  | recvError fd => rfl

theorem Followed.step {c : Bytes} {h : List (Step State Input Out)} {s s' : State} {input : Input}
    {out : List Out} (hf : Followed c h s) (ho : Orderly s) (hsim : Simulated c s input.event s' out) :
    Followed c (⟨s, input, out⟩ :: h) s' := by
  have hsession : connFd s' c = Delivery.session c (⟨s, input, out⟩ :: h) := by
    rw [hsim.session, hf.session, Delivery.session]
  have hlines := hsim.lines
  have hbox := hsim.box_eq
  have hdue := dueNow_eq ho c input.event
  rw [hf.session, hf.box_eq] at hlines hbox hdue
  refine ⟨hsession, ?_, ?_, ?_⟩
  · rw [hbox, own]
    cases ownAct c (Delivery.session c h) input.event <;> rfl
  · rw [sentTo, ← hsession, hlines, hf.sent_eq, own]
    cases ownAct c (Delivery.session c h) input.event with
    | none => exact List.append_nil _
    | some a => rfl
  · rw [dueTo, hdue, hf.due_eq, own]
    cases ownAct c (Delivery.session c h) input.event with
    | none => exact List.append_nil _
    | some a => rfl

theorem Run.followed {l : Listeners} {h : List (Step State Input Out)} {s : State}
    (run : Run (Serves l) (init l) h s) (hok : ∀ st ∈ h, Admissible st.before st.input) :
    Linked s ∧ Orderly s ∧ ∀ c, c ≠ [] → Followed c h s := by
  refine run.history (E := Admissible)
    (P := fun h s => Linked s ∧ Orderly s ∧ ∀ c, c ≠ [] → Followed c h s)
    ⟨linked_init l, orderly_init l, fun c _ => followed_init l c⟩ ?_ hok
  intro h s input s' out ⟨hl, ho, hf⟩ hadm hserves
  obtain ⟨ho', hsim⟩ := Serves.simulates hserves hadm hl ho
  exact ⟨hl.books (Serves.books hserves), ho', fun c hc => (hf c hc).step ho (hsim c hc)⟩

/-- **Store-and-forward delivery, exactly once and in order.**  For every run and every named client
`c`, the lines sent to `c` over all its sessions, followed by those still stored for it, are the lines
published for it.  Any other run with the same acts of `c` and the same publications, whatever the
other clients do in it, sends and stores the same. -/
theorem delivered_exactly_once {l : Listeners} {h : List (Step State Input Out)} {s : State}
    (run : Run (Serves l) (init l) h s) (hok : ∀ st ∈ h, Admissible st.before st.input) {c : Bytes}
    (hc : c ≠ []) :
    sentTo c h ++ stored s c = dueTo c h ∧
      ∀ l' h' s', Run (Serves l') (init l') h' s' →
        (∀ st ∈ h', Admissible st.before st.input) → own c h' = own c h →
          sentTo c h' = sentTo c h ∧ stored s' c = stored s c := by
  have hf := (Run.followed run hok).2.2 c hc
  have hpending : stored s c = (after (own c h)).pending := congrArg Box.pending hf.box_eq
  constructor
  · rw [hf.sent_eq, hf.due_eq, hpending]
    exact sent_append_pending (own c h)
  · intro l' h' s' run' hok' hown
    have hf' := (Run.followed run' hok').2.2 c hc
    have hpending' : stored s' c = (after (own c h')).pending := congrArg Box.pending hf'.box_eq
    rw [hf'.sent_eq, hf.sent_eq, hpending', hpending, hown]
    exact ⟨rfl, rfl⟩

/-! ### A line for an absent client -/

def news : Token TOPIC_SIZE := ⟨ascii "news", by decide, by decide, by decide⟩

def newsDatagram : Bytes := ascii "news" ++ List.replicate 46 0 ++ 3 :: ascii "hi"

def newsPacket : UdpPacket := ⟨ascii "STRING", ascii "hi", ascii "news", true⟩

/-- Client `a` has subscribed to `news` with the store flag. -/
def subscribedA : State := onSubscribe connectedA 5 (ascii "news") true

/-- Client `a` has gone away. -/
def absentA : State := (onEof subscribedA 5).1

def subscribeA : Input :=
  ⟨.recv 5 (Command.subscribe news 1).bytes ⟨[], 0⟩, fun _ => true⟩

def closeA : Input := ⟨.recv 5 [] ⟨[], 0⟩, fun _ => true⟩

def publishNews : Input := ⟨.datagram localhost newsDatagram, fun _ => true⟩

theorem subscribeA_serves : Serves listeners connectedA subscribeA subscribedA [] := by
  refine ⟨⟨⟨by decide, by decide, by decide⟩, rfl⟩, ?_⟩
  rw [subscribeA, step]
  dsimp only
  rw [if_neg (Command.ne_nil _), onCommand_bytes]
  rfl

theorem closeA_serves : Serves listeners subscribedA closeA absentA [.close 5] :=
  ⟨⟨⟨by decide, by decide, by decide⟩, rfl⟩, rfl⟩

theorem newsPacket_eq : processUdpPacket newsDatagram = some newsPacket := by
  decide +kernel

theorem publishNews_serves : ∃ s out, Serves listeners absentA publishNews s out := by
  refine ⟨(deliver (line localhost newsPacket) absentA [{ clientID := ascii "a", SF := true }]).1, [],
    trivial, ?_⟩
  rw [publishNews, step]
  dsimp only
  rw [onDatagram, newsPacket_eq]
  rfl

/-- The line published while `a` is away is the one line due to it. -/
theorem news_due_to_absent :
    ∃ h s, Run (Serves listeners) (init listeners) h s ∧ (sentTo (ascii "a") h ++ stored s (ascii "a") =
      dueTo (ascii "a") h) ∧ dueTo (ascii "a") h = [line localhost newsPacket] := by
  obtain ⟨s, out, hpublish⟩ := publishNews_serves
  have run := (((Run.start.next connectA).next subscribeA_serves).next closeA_serves).next hpublish
  refine ⟨_, _, run, (delivered_exactly_once run ?_ (by decide)).1, ?_⟩
  · simp only [List.forall_mem_cons]
    exact ⟨⟨newsPacket, newsPacket_eq, rfl⟩, Or.inl rfl, Or.inr ⟨news, 1, rfl⟩, trivial, by simp⟩
  · have hwanted : wanted absentA (ascii "a") none (ascii "news") = true := rfl
    have hsession : session (ascii "a") [⟨subscribedA, closeA, [.close 5]⟩,
        ⟨connectedA, subscribeA, []⟩, ⟨init listeners, announceA 5, []⟩] = none := rfl
    simp only [dueTo, hsession, publishNews, dueNow, newsPacket_eq, List.nil_append]
    rw [show newsPacket.topic = ascii "news" from rfl, if_pos hwanted]
    rfl

end Pcom.Tema2.Delivery
