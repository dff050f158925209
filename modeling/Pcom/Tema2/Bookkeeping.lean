import Pcom.Tema2.Server

/-!
# Connection bookkeeping of the broker

Three structures describe the open connections: `read_fds`, `clientsConnected` (descriptor to id) and
`subscribers` (id to connected flag and descriptor).  Seen through `idOf` and `connFd` every branch of
the loop is an update of two partial maps, and the invariant says that the maps are inverse to each
other.

* `Linked` — the invariant that holds in **every** run: the two maps are inverse on non-empty ids;
* `bookkeeping_iff` — **the exact condition** for the full bookkeeping property: it holds in all states
  of a run exactly when no connection announces the empty id or the id of a connected client;
* `rejected_socket_unbooked` — the second connection with an id stays watched without an entry.
-/

namespace Pcom.Tema2.Bookkeeping

open Pcom.Lib.Scan Pcom.Lib.StepSystem Pcom.Tema2.Datagram Pcom.Tema2.Server

/-- The client id a descriptor is mapped to in `clientsConnected`. -/
def idOf (s : State) (fd : ℕ) : Option Bytes := (s.clientsConnected fd).map Data.clientID

/-- The descriptor in `subscribers[c]`, if its connected flag is set. -/
def connFd (s : State) (c : Bytes) : Option ℕ :=
  (s.subscribers c).bind fun data => if data.connected then some data.fd else none

theorem isConnected_iff (s : State) (c : Bytes) : isConnected s c = (connFd s c).isSome := by
  unfold isConnected connFd
  cases s.subscribers c with
  | none => rfl
  | some data => cases h : data.connected <;> simp [h]

theorem sendFor_eq (text : Bytes) (s : State) (e : Subscriber) :
    sendFor text s e = (connFd s e.clientID).map fun fd => Out.send fd text := by
  unfold sendFor connFd
  cases s.subscribers e.clientID with
  | none => rfl
  | some data => cases h : data.connected <;> simp [h]

/-! ### The branches as updates of the two maps -/

/-- Delivering a line touches neither map. -/
theorem connFd_deliver (text : Bytes) (s : State) (subs : List Subscriber) :
    connFd (deliver text s subs).1 = connFd s := by
  funext c
  simp only [connFd, deliver_eq]
  cases s.subscribers c with
  | none => rfl
  | some data =>
    simp only [Option.map_some, Option.bind_some, queueFor]
    split <;> simp_all

theorem idOf_register (s : State) (fd : ℕ) (addr : SockAddr) (id : Bytes) :
    idOf (register s fd addr id) = Function.update (idOf s) fd (some id) := by
  funext fd'
  by_cases h : fd' = fd
  · subst h
    simp [idOf, register]
  · simp only [idOf, register, Function.update_of_ne h]

theorem connFd_register (s : State) (fd : ℕ) (addr : SockAddr) (id : Bytes) :
    connFd (register s fd addr id) = Function.update (connFd s) id (some fd) := by
  funext c
  by_cases h : c = id
  · subst h
    simp only [connFd, register, Function.update_self, Option.bind_some]
    cases s.subscribers c <;> simp
  · simp only [connFd, register, Function.update_of_ne h]

theorem onEof_topics (s : State) (fd : ℕ) : (onEof s fd).1.topics = s.topics := by
  unfold onEof
  dsimp only
  split <;> rfl

/-- An end of file clears the connected flag of the client behind the descriptor, and of no other. -/
theorem onEof_subscribers (s : State) (fd : ℕ) (c : Bytes) :
    (onEof s fd).1.subscribers c =
      if idOf s fd = some c ∧ c ≠ [] then
        (s.subscribers c).map fun data => { data with connected := false }
      else s.subscribers c := by
  cases hd : s.clientsConnected fd with
  | none => simp [onEof, idOf, hd]
  | some client =>
    simp only [onEof, idOf, hd, Option.getD_some, Option.map_some, Option.some.injEq]
    by_cases hnil : client.clientID = []
    · rw [if_pos hnil, if_neg]
      exact fun h => h.2 (h.1.symm.trans hnil)
    · rw [if_neg hnil]
      by_cases hc : client.clientID = c
      · subst hc
        rw [if_pos ⟨rfl, hnil⟩]
        cases hs : s.subscribers client.clientID with
        | none => exact hs
        | some data => exact Function.update_self ..
      · rw [if_neg fun h => hc h.1]
        cases s.subscribers client.clientID with
        | none => rfl
        | some data => exact Function.update_of_ne (Ne.symm hc) ..

/-- An end of file behind which there is no named client: the lookup leaves an empty entry. -/
theorem onEof_unnamed {s : State} {fd : ℕ} (h : ∀ c, idOf s fd = some c → c = []) :
    idOf (onEof s fd).1 = Function.update (idOf s) fd (some []) ∧
      connFd (onEof s fd).1 = connFd s ∧ (onEof s fd).1.readFds = s.readFds ∧
      (onEof s fd).2 = [] := by
  have hnil : ((s.clientsConnected fd).getD {}).clientID = [] := by
    cases hd : s.clientsConnected fd with
    | none => rfl
    | some data => exact h data.clientID (by rw [idOf, hd]; rfl)
  refine ⟨?_, ?_, ?_, ?_⟩
  · funext fd'
    by_cases hfd : fd' = fd
    · subst hfd
      simp [idOf, onEof, hnil]
    · simp only [idOf, onEof, hnil, if_true, Function.update_of_ne hfd]
  · simp only [onEof, hnil, if_true]; rfl
  · simp only [onEof, hnil, if_true]
  · simp only [onEof, hnil, if_true]

/-- An end of file of client `c`. -/
theorem onEof_named {s : State} {fd : ℕ} {c : Bytes} (hid : idOf s fd = some c) (hc : c ≠ []) :
    idOf (onEof s fd).1 = Function.update (idOf s) fd none ∧
      connFd (onEof s fd).1 = Function.update (connFd s) c none ∧
      (onEof s fd).1.readFds = Function.update s.readFds fd false ∧
      (onEof s fd).2 = [.close fd] := by
  obtain ⟨data, hd, rfl⟩ := Option.map_eq_some_iff.mp hid
  refine ⟨?_, ?_, ?_, ?_⟩
  · funext fd'
    by_cases hfd : fd' = fd
    · subst hfd
      simp [idOf, onEof, hd, hc]
    · simp only [idOf, onEof, hd, Option.getD_some, hc, if_false, Function.update_of_ne hfd]
  · funext c'
    simp only [connFd, onEof_subscribers, hid, Option.some.injEq]
    by_cases h : c' = data.clientID
    · subst h
      rw [if_pos ⟨rfl, hc⟩, Function.update_self]
      cases s.subscribers data.clientID <;> rfl
    · rw [if_neg fun heq => h heq.1.symm, Function.update_of_ne h]
      rfl
  all_goals simp only [onEof, hd, Option.getD_some, hc, if_false]

/-- What one step does to the two maps and the watched set. -/
inductive Books (l : Listeners) (s : State) : Event → State → Prop
  | same {event : Event} {s' : State} (hev : ∀ fd addr received, event ≠ .accept fd addr received)
      (heof : ∀ fd stale, event ≠ .recv fd [] stale)
      (hid : idOf s' = idOf s) (hconn : connFd s' = connFd s) (hread : s'.readFds = s.readFds) :
      Books l s event s'
  | rejected {fd : ℕ} {addr : SockAddr} {received id : Bytes} {s' : State}
      (hbuf : bufferString MAX_LEN received = some id) (hfresh : s.readFds fd = false)
      (hcon : (connFd s id).isSome = true) (hid : idOf s' = idOf s) (hconn : connFd s' = connFd s)
      (hread : s'.readFds = Function.update s.readFds fd true) :
      Books l s (.accept fd addr received) s'
  | registered {fd : ℕ} {addr : SockAddr} {received id : Bytes} {s' : State}
      (hbuf : bufferString MAX_LEN received = some id) (hfresh : s.readFds fd = false)
      (hcon : connFd s id = none) (hid : idOf s' = Function.update (idOf s) fd (some id))
      (hconn : connFd s' = Function.update (connFd s) id (some fd))
      (hread : s'.readFds = Function.update s.readFds fd true) :
      Books l s (.accept fd addr received) s'
  | eofUnnamed {fd : ℕ} {stale : Stale} {s' : State} (hclient : l.isClient fd)
      (hwatched : s.readFds fd = true) (hnone : ∀ c, idOf s fd = some c → c = [])
      (hid : idOf s' = Function.update (idOf s) fd (some [])) (hconn : connFd s' = connFd s)
      (hread : s'.readFds = s.readFds) : Books l s (.recv fd [] stale) s'
  | eofNamed {fd : ℕ} {stale : Stale} {c : Bytes} {s' : State} (hclient : l.isClient fd)
      (hwatched : s.readFds fd = true) (hsome : idOf s fd = some c) (hc : c ≠ [])
      (hid : idOf s' = Function.update (idOf s) fd none)
      (hconn : connFd s' = Function.update (connFd s) c none)
      (hread : s'.readFds = Function.update s.readFds fd false) : Books l s (.recv fd [] stale) s'

/-- **Every step of the broker is one of the five kinds of book entry.** -/
theorem Serves.books {l : Listeners} {s s' : State} {input : Input} {out : List Out}
    (h : Serves l s input s' out) : Books l s input.event s' := by
  obtain ⟨event, sendOk⟩ := input
  obtain ⟨hkernel, hstep⟩ := h
  cases event with
  | stdin text =>
    obtain ⟨rfl, -⟩ := step_stdin hstep
    exact .same (by simp) (by simp) rfl rfl rfl
  | datagram sender received =>
    obtain ⟨pkt, -, ⟨-, rfl, -⟩ | ⟨subs, -, -, heq⟩⟩ := step_datagram hstep
    · exact .same (by simp) (by simp) rfl rfl rfl
    · have hs' : s' = (deliver (line sender pkt) s subs).1 := congrArg Prod.fst heq
      have hframe := deliver_eq (line sender pkt) s subs
      refine .same (by simp) (by simp) ?_ (by rw [hs', connFd_deliver]) (by rw [hs', hframe])
      funext fd
      rw [hs', hframe]
      rfl
  | accept fd addr received =>
    obtain ⟨id, hbuf, ⟨hcon, rfl, -⟩ | ⟨hcon, rfl, -⟩⟩ := step_accept hstep
    · exact .rejected hbuf hkernel (by rw [← isConnected_iff, hcon]) rfl rfl rfl
    · rw [isConnected_iff, Option.isSome_eq_false_iff, Option.isNone_iff_eq_none] at hcon
      exact .registered hbuf hkernel hcon (idOf_register ..) (connFd_register ..) rfl
  | recv fd received stale =>
    rcases step_recv hstep with ⟨rfl, heq⟩ | ⟨hne, hcmd, -⟩
    · have hs' : s' = (onEof s fd).1 := congrArg Prod.fst heq
      subst hs'
      by_cases hnone : ∀ c, idOf s fd = some c → c = []
      · obtain ⟨hid, hconn, hread, -⟩ := onEof_unnamed hnone
        exact .eofUnnamed hkernel.1 hkernel.2 hnone hid hconn hread
      · push Not at hnone
        obtain ⟨c, hsome, hc⟩ := hnone
        obtain ⟨hid, hconn, hread, -⟩ := onEof_named hsome hc
        exact .eofNamed hkernel.1 hkernel.2 hsome hc hid hconn hread
    · obtain ⟨topics, rfl⟩ := onCommand_topics hcmd
      exact .same (by simp) (by simpa using hne) rfl rfl rfl
  | recvError fd => cases hstep

/-! ### The invariant of every run -/

/-- On non-empty ids the two maps are inverse to each other, a connected empty id is mapped back, and
mapped descriptors are watched. -/
structure Linked (s : State) : Prop where
  inverse : ∀ fd c, c ≠ [] → (idOf s fd = some c ↔ connFd s c = some fd)
  unnamed : ∀ fd, connFd s [] = some fd → idOf s fd = some []
  watched : ∀ fd c, idOf s fd = some c → s.readFds fd = true

theorem Linked.mapped {s : State} (h : Linked s) {fd : ℕ} {c : Bytes} (hc : connFd s c = some fd) :
    idOf s fd = some c := by
  by_cases hnil : c = []
  · subst hnil
    exact h.unnamed fd hc
  · exact (h.inverse fd c hnil).mpr hc

/-- A socket just accepted is no one's session yet. -/
theorem Linked.fresh {s : State} (h : Linked s) {fd : ℕ} (hfresh : s.readFds fd = false) (c : Bytes) :
    connFd s c ≠ some fd := by
  intro hc
  rw [h.watched fd c (h.mapped hc)] at hfresh
  cases hfresh

theorem linked_init (l : Listeners) : Linked (init l) where
  inverse := fun fd c _ => by simp [idOf, connFd, init]
  unnamed := fun fd h => by simp [connFd, init] at h
  watched := fun fd c h => by simp [idOf, init] at h

/-- **Two maps that undo each other**, changed at one pair, still do. -/
theorem inverse_update {f : ℕ → Option Bytes} {g : Bytes → Option ℕ}
    (h : ∀ a b, b ≠ [] → (f a = some b ↔ g b = some a)) {a : ℕ} {b : Bytes} {v : Option Bytes} {w : Option ℕ}
    (hf : ∀ b', b' ≠ b → f a ≠ some b') (hg : ∀ a', a' ≠ a → g b ≠ some a')
    (hv : ∀ b', b' ≠ b → v ≠ some b') (hw : ∀ a', a' ≠ a → w ≠ some a') (hvw : v = some b ↔ w = some a)
    (a' : ℕ) (b' : Bytes) (hb' : b' ≠ []) :
    Function.update f a v a' = some b' ↔ Function.update g b w b' = some a' := by
  rw [Function.update_apply, Function.update_apply]
  by_cases ha : a' = a
  · by_cases hb : b' = b
    · rw [if_pos ha, if_pos hb, ha, hb]
      exact hvw
    · rw [if_pos ha, if_neg hb, ← h a' b' hb', ha]
      exact iff_of_false (hv b' hb) (hf b' hb)
  · by_cases hb : b' = b
    · rw [if_neg ha, if_pos hb, h a' b' hb', hb]
      exact iff_of_false (hg a' ha) (hw a' ha)
    · rw [if_neg ha, if_neg hb]
      exact h a' b' hb'

theorem Linked.books {l : Listeners} {s s' : State} {event : Event} (h : Linked s)
    (hb : Books l s event s') : Linked s' := by
  cases hb with
  | same _ _ hid hconn hread =>
    exact ⟨by rw [hid, hconn]; exact h.inverse, by rw [hid, hconn]; exact h.unnamed,
      by rw [hid, hread]; exact h.watched⟩
  | rejected _ _ _ hid hconn hread =>
    refine ⟨by rw [hid, hconn]; exact h.inverse, by rw [hid, hconn]; exact h.unnamed, ?_⟩
    intro fd' c hc
    rw [hid] at hc
    rw [hread, Function.update_apply]
    split
    · rfl
    · exact h.watched fd' c hc
  | @registered fd addr received id s' hbuf hfresh hcon hid hconn hread =>
    have hnew : ∀ c, idOf s fd ≠ some c := fun c hc => by
      rw [h.watched fd c hc] at hfresh
      cases hfresh
    constructor
    · rw [hid, hconn]
      refine inverse_update h.inverse (fun c _ => hnew c) (fun fd' _ => ?_) (fun c hc => ?_) (fun fd' hfd => ?_)
        (iff_of_true rfl rfl)
      · rw [hcon]
        simp
      · exact fun heq => hc (Option.some.inj heq).symm
      · exact fun heq => hfd (Option.some.inj heq).symm
    · intro fd' hconn'
      rw [hconn, Function.update_apply] at hconn'
      rw [hid, Function.update_apply]
      split at hconn'
      · rename_i hnil
        rw [if_pos (Option.some.inj hconn').symm, hnil]
      · have hmapped := h.unnamed fd' hconn'
        have hfd : fd' ≠ fd := fun heq => hnew [] (heq ▸ hmapped)
        rw [if_neg hfd]
        exact hmapped
    · intro fd' c hc
      rw [hread, Function.update_apply]
      split
      · rfl
      · rename_i hfd
        rw [hid, Function.update_of_ne hfd] at hc
        exact h.watched fd' c hc
  | @eofUnnamed fd stale s' hclient hwatched hnone hid hconn hread =>
    constructor
    · intro fd' c hc
      rw [hid, hconn, Function.update_apply]
      split
      · rename_i hfd
        subst hfd
        refine iff_of_false (fun heq => hc (Option.some.inj heq).symm) ?_
        rw [← h.inverse fd' c hc]
        exact fun heq => hc (hnone c heq)
      · exact h.inverse fd' c hc
    · intro fd' hconn'
      rw [hid, Function.update_apply]
      split
      · rfl
      · exact h.unnamed fd' (by rw [← hconn]; exact hconn')
    · intro fd' c hc
      rw [hread]
      by_cases hfd : fd' = fd
      · rw [hfd, hwatched]
      · rw [hid, Function.update_of_ne hfd] at hc
        exact h.watched fd' c hc
  | @eofNamed fd stale c₀ s' hclient hwatched hsome hc₀ hid hconn hread =>
    constructor
    · rw [hid, hconn]
      refine inverse_update h.inverse (fun c hc => ?_) (fun fd' hfd => ?_) (by simp) (by simp) (by simp)
      · rw [hsome]
        exact fun heq => hc (Option.some.inj heq).symm
      · rw [(h.inverse fd c₀ hc₀).mp hsome]
        exact fun heq => hfd (Option.some.inj heq).symm
    · intro fd' hconn'
      rw [hconn, Function.update_of_ne (Ne.symm hc₀)] at hconn'
      have hmapped := h.unnamed fd' hconn'
      have hfd : fd' ≠ fd := by
        intro heq
        rw [heq, hsome] at hmapped
        exact hc₀ (Option.some.inj hmapped)
      rw [hid, Function.update_of_ne hfd]
      exact hmapped
    · intro fd' c hc
      by_cases hfd : fd' = fd
      · rw [hid, hfd, Function.update_self] at hc
        cases hc
      · rw [hid, Function.update_of_ne hfd] at hc
        rw [hread, Function.update_of_ne hfd]
        exact h.watched fd' c hc

/-- The two maps are linked in every state the broker can reach. -/
theorem Run.linked {l : Listeners} {h : List (Step State Input Out)} {s : State}
    (run : Run (Serves l) (init l) h s) : Linked s :=
  run.invariant (P := Linked) (E := fun _ _ => True) (linked_init l)
    (fun _ _ _ _ hs _ hstep => hs.books (Serves.books hstep)) (fun _ _ => trivial)

/-! ### The full bookkeeping property and its exact condition -/

/-- A socket whose `recv` returns `0` is closed and removed from `read_fds` and `clientsConnected`. -/
def EofCloses (l : Listeners) (s : State) : Prop :=
  ∀ fd stale sendOk s' out, Serves l s ⟨.recv fd [] stale, sendOk⟩ s' out →
    Out.close fd ∈ out ∧ s'.readFds fd = false ∧ s'.clientsConnected fd = none

/-- The bookkeeping property of a state. -/
structure BooksBalance (l : Listeners) (s : State) : Prop where
  inverse : ∀ fd c, (∃ data, s.clientsConnected fd = some data ∧ data.clientID = c) ↔
    ∃ sub, s.subscribers c = some sub ∧ sub.connected = true ∧ sub.fd = fd
  oneSocket : ∀ fd fd' data data', s.clientsConnected fd = some data →
    s.clientsConnected fd' = some data' → data.clientID = data'.clientID → fd = fd'
  known : ∀ fd, l.isClient fd → s.readFds fd = true → s.clientsConnected fd ≠ none
  eofCloses : EofCloses l s

/-- A connection announces a non-empty id that no connected client has. -/
def Announces (s : State) (input : Input) : Prop :=
  ∀ fd addr received, input.event = .accept fd addr received →
    ∀ id, bufferString MAX_LEN received = some id → id ≠ [] ∧ isConnected s id = false

/-- The inductive strengthening: no empty id anywhere, every client socket mapped, listeners watched. -/
structure Booked (l : Listeners) (s : State) : Prop extends Linked s where
  named : ∀ fd, idOf s fd ≠ some []
  noEmpty : connFd s [] = none
  known : ∀ fd, l.isClient fd → s.readFds fd = true → ∃ c, idOf s fd = some c
  listening : ∀ fd, ¬ l.isClient fd → s.readFds fd = true

theorem idOf_eq_some {s : State} {fd : ℕ} {c : Bytes} :
    idOf s fd = some c ↔ ∃ data, s.clientsConnected fd = some data ∧ data.clientID = c := by
  rw [idOf, Option.map_eq_some_iff]

theorem connFd_eq_some {s : State} {fd : ℕ} {c : Bytes} :
    connFd s c = some fd ↔ ∃ sub, s.subscribers c = some sub ∧ sub.connected = true ∧ sub.fd = fd := by
  rw [connFd, Option.bind_eq_some_iff]
  refine exists_congr fun sub => and_congr_right fun _ => ?_
  cases sub.connected <;> simp

theorem booked_init (l : Listeners) : Booked l (init l) where
  toLinked := linked_init l
  named := fun fd => by simp [idOf, init]
  noEmpty := by simp [connFd, init]
  known := fun fd hc hr => by
    simp only [init, Bool.or_eq_true, beq_iff_eq] at hr
    obtain ⟨h0, htcp, hudp⟩ := hc
    rcases hr with (rfl | rfl) | rfl <;> contradiction
  listening := fun fd hc => by
    simp only [init, Bool.or_eq_true, beq_iff_eq]
    unfold Listeners.isClient at hc
    tauto

/-- The invariant gives the bookkeeping property. -/
theorem Booked.booksBalance {l : Listeners} {s : State} (h : Booked l s) : BooksBalance l s := by
  have hinv : ∀ fd c, idOf s fd = some c ↔ connFd s c = some fd := by
    intro fd c
    by_cases hc : c = []
    · subst hc
      exact iff_of_false (h.named fd) (by rw [h.noEmpty]; simp)
    · exact h.inverse fd c hc
  refine ⟨?_, ?_, ?_, ?_⟩
  · intro fd c
    rw [← idOf_eq_some, ← connFd_eq_some]
    exact hinv fd c
  · intro fd fd' data data' hd hd' heq
    have h₁ := (hinv fd data.clientID).mp (idOf_eq_some.mpr ⟨data, hd, rfl⟩)
    have h₂ := (hinv fd' data.clientID).mp (idOf_eq_some.mpr ⟨data', hd', heq.symm⟩)
    exact Option.some.inj (h₁.symm.trans h₂)
  · intro fd hclient hwatched hnone
    obtain ⟨c, hc⟩ := h.known fd hclient hwatched
    rw [idOf, hnone] at hc
    cases hc
  · intro fd stale sendOk s' out hserves
    obtain ⟨⟨hclient, hwatched⟩, hstep⟩ := hserves
    obtain ⟨c, hc⟩ := h.known fd hclient hwatched
    have hne : c ≠ [] := fun hnil => h.named fd (hnil ▸ hc)
    rcases step_recv hstep with ⟨-, heq⟩ | ⟨hne', -, -⟩
    · obtain ⟨hid, -, hread, hout⟩ := onEof_named hc hne
      have hs' : s' = (onEof s fd).1 := congrArg Prod.fst heq
      have ho : out = (onEof s fd).2 := congrArg Prod.snd heq
      rw [← hs'] at hid hread
      refine ⟨?_, by rw [hread, Function.update_self], ?_⟩
      · rw [ho, hout]
        exact List.mem_singleton_self _
      · have hnone : idOf s' fd = none := by rw [hid, Function.update_self]
        exact Option.map_eq_none_iff.mp hnone
    · exact absurd rfl hne'

theorem Booked.books {l : Listeners} {s s' : State} {input : Input} (h : Booked l s)
    (hb : Books l s input.event s') (ha : Announces s input) : Booked l s' := by
  obtain ⟨event, sendOk⟩ := input
  have hlinked := h.toLinked.books hb
  cases hb with
  | same _ _ hid hconn hread =>
    exact ⟨hlinked, by rw [hid]; exact h.named, by rw [hconn]; exact h.noEmpty,
      by rw [hid, hread]; exact h.known, by rw [hread]; exact h.listening⟩
  | rejected hbuf _ hcon =>
    have hnot := (ha _ _ _ rfl _ hbuf).2
    rw [isConnected_iff, hcon] at hnot
    cases hnot
  | registered hbuf _ _ hid hconn hread =>
    have hne := (ha _ _ _ rfl _ hbuf).1
    refine ⟨hlinked, fun fd' => ?_, ?_, fun fd' hclient hwatched => ?_, fun fd' hc => ?_⟩
    · rw [hid, Function.update_apply]
      split
      · exact fun heq => hne (Option.some.inj heq)
      · exact h.named fd'
    · rw [hconn, Function.update_of_ne (Ne.symm hne), h.noEmpty]
    · rw [hid, Function.update_apply]
      split
      · exact ⟨_, rfl⟩
      · rename_i hfd
        rw [hread, Function.update_of_ne hfd] at hwatched
        exact h.known fd' hclient hwatched
    · rw [hread, Function.update_apply, h.listening fd' hc, ite_self]
  | eofUnnamed hclient hwatched hnone =>
    obtain ⟨c, hc⟩ := h.known _ hclient hwatched
    exact absurd (hnone c hc ▸ hc) (h.named _)
  | @eofNamed fd stale c s' hclient _ _ hne hid hconn hread =>
    refine ⟨hlinked, fun fd' => ?_, ?_, fun fd' hclient' hwatched => ?_, fun fd' hc => ?_⟩
    · rw [hid, Function.update_apply]
      split
      · simp
      · exact h.named fd'
    · rw [hconn, Function.update_of_ne (Ne.symm hne), h.noEmpty]
    · have hfd : fd' ≠ fd := by
        intro heq
        rw [hread, heq, Function.update_self] at hwatched
        cases hwatched
      rw [hread, Function.update_of_ne hfd] at hwatched
      rw [hid, Function.update_of_ne hfd]
      exact h.known fd' hclient' hwatched
    · have hfd : fd' ≠ fd := fun heq => hc (heq ▸ hclient)
      rw [hread, Function.update_of_ne hfd, h.listening fd' hc]

/-- An announcement that is empty or already connected breaks the bookkeeping at once: the socket is
watched without an entry, or has an entry that its end of file does not remove. -/
theorem announces_of_booksBalance {l : Listeners} {s s' : State} {input : Input} (h : Booked l s)
    (hb : Books l s input.event s') (hs' : BooksBalance l s') : Announces s input := by
  intro fd addr received hev id hbuf
  rw [hev] at hb
  have hclientOf : s.readFds fd = false → l.isClient fd := by
    intro hfresh
    by_contra hc
    rw [h.listening fd hc] at hfresh
    cases hfresh
  cases hb with
  | same hne => exact absurd rfl (hne fd addr received)
  | rejected _ hfresh _ hid _ hread =>
    have hwatched : s'.readFds fd = true := by rw [hread, Function.update_self]
    have hknown := hs'.known fd (hclientOf hfresh) hwatched
    obtain ⟨data, hdata⟩ := Option.ne_none_iff_exists'.mp hknown
    have hmapped : idOf s fd = some data.clientID := by
      rw [← hid]
      exact idOf_eq_some.mpr ⟨data, hdata, rfl⟩
    rw [h.watched fd _ hmapped] at hfresh
    cases hfresh
  | registered hbuf' hfresh hcon hid _ hread =>
    obtain rfl := Option.some.inj (hbuf'.symm.trans hbuf)
    refine ⟨?_, by rw [isConnected_iff, hcon]; rfl⟩
    intro hnil
    subst hnil
    have hwatched : s'.readFds fd = true := by rw [hread, Function.update_self]
    -- the end of file of the socket just accepted finds the empty id and leaves everything in place
    have heof : Serves l s' ⟨.recv fd [] ⟨[], 0⟩, fun _ => true⟩ (onEof s' fd).1 (onEof s' fd).2 :=
      ⟨⟨hclientOf hfresh, hwatched⟩, rfl⟩
    have hunnamed : ∀ c, idOf s' fd = some c → c = [] := by
      intro c hc
      rw [hid, Function.update_self] at hc
      exact (Option.some.inj hc).symm
    have hopen := (hs'.eofCloses _ _ _ _ _ heof).2.1
    rw [(onEof_unnamed hunnamed).2.2.1, hwatched] at hopen
    cases hopen

/-- **The exact condition for the bookkeeping of the broker.**  In every run, the bookkeeping property
holds in all states exactly when every accepted connection announces a non-empty id that is not
connected. -/
theorem bookkeeping_iff {l : Listeners} {h : List (Step State Input Out)} {s : State}
    (run : Run (Serves l) (init l) h s) :
    (BooksBalance l s ∧ ∀ st ∈ h, BooksBalance l st.before) ↔
      ∀ st ∈ h, Announces st.before st.input :=
  run.all_states_iff (P := BooksBalance l) (I := Booked l) (C := Announces) (booked_init l)
    (fun _ hs => hs.booksBalance) (fun _ _ _ _ hs hr ha => hs.books (Serves.books hr) ha)
    (fun _ _ _ _ hs hr hs' => announces_of_booksBalance hs (Serves.books hr) hs')

/-! ### A rejected connection -/

def listeners : Listeners := ⟨3, 4⟩

def localhost : SockAddr := ⟨127, 0, 0, 1, 0⟩

/-- The state after client `a` has connected on descriptor `5`. -/
def connectedA : State := register (watch (init listeners) 5) 5 localhost (ascii "a")

def announceA (fd : ℕ) : Input := ⟨.accept fd localhost (ascii "a"), fun _ => true⟩

theorem connectA : Serves listeners (init listeners) (announceA 5) connectedA [] := by
  refine ⟨rfl, ?_⟩
  rfl

theorem rejectA : Serves listeners connectedA (announceA 6) (watch connectedA 6)
    [.send 6 (ascii ";ID_EXISTS;\n")] := by
  refine ⟨rfl, ?_⟩
  rfl

/-- **A second connection announcing a connected id** leaves a watched socket without an entry. -/
theorem rejected_socket_unbooked :
    ∃ h s, Run (Serves listeners) (init listeners) h s ∧ ¬ BooksBalance listeners s := by
  refine ⟨_, _, (Run.start.next connectA).next rejectA, fun hb => ?_⟩
  have hclient : listeners.isClient 6 := ⟨by decide, by decide, by decide⟩
  exact hb.known 6 hclient rfl rfl

/-- One client with a fresh id: the bookkeeping holds throughout. -/
theorem single_client_booked :
    BooksBalance listeners connectedA ∧
      ∀ st ∈ [(⟨init listeners, announceA 5, []⟩ : Step State Input Out)],
        BooksBalance listeners st.before := by
  refine (bookkeeping_iff (Run.start.next connectA)).mpr ?_
  rw [List.forall_mem_singleton]
  intro fd addr received hev id hbuf
  injection hev with _ _ hreceived
  subst hreceived
  have hid : ascii "a" = id := Option.some.inj hbuf
  subst hid
  exact ⟨by decide, rfl⟩

end Pcom.Tema2.Bookkeeping
