import Pcom.Tema2.Bookkeeping
import Pcom.Tema2.Commands

/-!
# The command stream and its segmentation

A client writes its id and then its commands; TCP hands the byte stream to the server in pieces of its
own choosing (`Cut`).  The server takes the first piece for the id and each later piece for a command.

* `outcome_of_messages` — pieces that are exactly the messages give the id and the commands in order;
* `head_of_registered` — the id registered is right only if the first piece is the id;
* `segmentation_iff` — **the exact condition** for the result to be the same for all ways of cutting:
  there is nothing to cut, the stream is a single byte.
-/

namespace Pcom.Tema2.Segmentation

open Pcom.Lib.Scan Pcom.Tema2.Datagram Pcom.Tema2.Server Pcom.Tema2.Bookkeeping Pcom.Tema2.Commands

/-- The id given to a subscriber; it has to fit the buffer it is sent from. -/
structure ClientId where
  bytes : Bytes
  ne_nil : bytes ≠ []
  noNul : NoNul bytes
  length_lt : bytes.length < MAX_LEN

/-- What the subscriber writes to the connection. -/
def written (id : ClientId) (commands : List Command) : Bytes :=
  id.bytes ++ commands.flatMap Command.bytes

/-- A way of cutting a stream into the pieces successive `recv` calls return. -/
structure Cut (stream : Bytes) (pieces : List Bytes) : Prop where
  join : pieces.flatten = stream
  nonempty : ∀ p ∈ pieces, p ≠ []
  fits : ∀ p ∈ pieces, p.length ≤ MAX_LEN

/-- The steps of the server on the later pieces; each comes with what the locals held before. -/
def readCommands (s : State) (fd : ℕ) : List (Bytes × Stale) → Except Halt State
  | [] => .ok s
  | (received, stale) :: reads =>
    match step s ⟨.recv fd received stale, fun _ => true⟩ with
    | .error e => .error e
    | .ok (s', _) => readCommands s' fd reads

/-- The steps of the server on all pieces: the first one is read by the accept branch. -/
def serve (s : State) (fd : ℕ) (addr : SockAddr) : List (Bytes × Stale) → Except Halt State
  | [] => .ok s
  | (received, _) :: reads =>
    match step s ⟨.accept fd addr received, fun _ => true⟩ with
    | .error e => .error e
    | .ok (s', _) => readCommands s' fd reads

/-- The id registered for the connection and the topics table. -/
abbrev Result := Except Halt (Option Bytes × (Bytes → Option (List Subscriber)))

def outcome (s : State) (fd : ℕ) (addr : SockAddr) (reads : List (Bytes × Stale)) : Result :=
  (serve s fd addr reads).map fun s' => (idOf s' fd, s'.topics)

/-- The commands applied one by one. -/
def runAll (s : State) (fd : ℕ) : List Command → Except Halt State
  | [] => .ok s
  | c :: commands =>
    match c.run s fd with
    | .error e => .error e
    | .ok s' => runAll s' fd commands

/-- The id as it was written, and the table after the commands in order. -/
def inOrder (s : State) (fd : ℕ) (addr : SockAddr) (id : ClientId) (commands : List Command) : Result :=
  (runAll (register (watch s fd) fd addr id.bytes) fd commands).map fun s' => (some id.bytes, s'.topics)

/-- The socket is new and no client of that id is connected. -/
structure Awaits (s : State) (fd : ℕ) (id : ClientId) : Prop where
  unmapped : idOf s fd = none
  absent : isConnected s id.bytes = false

/-- The reading of a command stream does not depend on how it is cut. -/
def Independent (s : State) (fd : ℕ) (addr : SockAddr) (id : ClientId) (commands : List Command) :
    Prop :=
  ∀ reads reads', Cut (written id commands) (reads.map Prod.fst) →
    Cut (written id commands) (reads'.map Prod.fst) →
      outcome s fd addr reads = outcome s fd addr reads' ∧
        outcome s fd addr reads = inOrder s fd addr id commands

/-! ### The pieces -/

theorem written_noNul (id : ClientId) (commands : List Command) : NoNul (written id commands) := by
  rw [written, noNul_append]
  refine ⟨id.noNul, fun b hb => ?_⟩
  obtain ⟨c, -, hb⟩ := List.mem_flatMap.mp hb
  exact c.noNul b hb

/-- Any first piece is possible, the others being single bytes. -/
theorem cut_at (stream : Bytes) {n : ℕ} (hpos : 0 < n) (hn : n ≤ stream.length) (hfits : n ≤ MAX_LEN) :
    Cut stream (stream.take n :: (stream.drop n).map fun b => [b]) where
  join := by
    have hsingle : ∀ bs : Bytes, (bs.map fun b => [b]).flatten = bs := by
      intro bs
      induction bs with
      | nil => rfl
      | cons b bs ih => rw [List.map_cons, List.flatten_cons, ih]; rfl
    rw [List.flatten_cons, hsingle, List.take_append_drop]
  nonempty := by
    intro p hp
    rcases List.mem_cons.mp hp with rfl | hp
    · rw [← List.length_pos_iff, List.length_take]
      omega
    · obtain ⟨b, -, rfl⟩ := List.mem_map.mp hp
      exact List.cons_ne_nil b []
  fits := by
    intro p hp
    rcases List.mem_cons.mp hp with rfl | hp
    · rw [List.length_take]
      omega
    · obtain ⟨b, -, rfl⟩ := List.mem_map.mp hp
      exact (by decide : 1 ≤ MAX_LEN)

/-- A single byte can only come in one piece. -/
theorem Cut.single {b : UInt8} {pieces : List Bytes} (h : Cut [b] pieces) : pieces = [[b]] := by
  obtain ⟨hjoin, hne, -⟩ := h
  cases pieces with
  | nil => cases hjoin
  | cons p ps =>
    rw [List.forall_mem_cons] at hne
    rw [List.flatten_cons, List.append_eq_singleton_iff] at hjoin
    obtain ⟨hp, -⟩ | ⟨rfl, hps⟩ := hjoin
    · exact absurd hp hne.1
    · cases ps with
      | nil => rfl
      | cons q qs =>
        rw [List.flatten_cons, List.append_eq_nil_iff] at hps
        exact absurd hps.1 (hne.2 q List.mem_cons_self)

/-! ### The steps of the server -/

/-- What the first piece registers, if anything. -/
theorem idOf_accept {s s' : State} {fd : ℕ} {addr : SockAddr} {received : Bytes} {out : List Out}
    (hfd : idOf s fd = none)
    (h : step s ⟨.accept fd addr received, fun _ => true⟩ = .ok (s', out)) :
    idOf s' fd = none ∨ idOf s' fd = bufferString MAX_LEN received := by
  obtain ⟨id, hbuf, ⟨-, rfl, -⟩ | ⟨-, rfl, -⟩⟩ := step_accept h
  · exact Or.inl hfd
  · refine Or.inr ?_
    rw [idOf_register, Function.update_self, hbuf]

/-- Later pieces do not touch the id. -/
theorem idOf_readCommands {s s' : State} {fd : ℕ} {reads : List (Bytes × Stale)}
    (hne : ∀ r ∈ reads, r.1 ≠ []) (h : readCommands s fd reads = .ok s') : idOf s' fd = idOf s fd := by
  induction reads generalizing s with
  | nil => rw [← Except.ok.inj h]
  | cons r reads ih =>
    rw [List.forall_mem_cons] at hne
    unfold readCommands at h
    split at h
    · cases h
    · rename_i s₁ out hstep
      rw [ih hne.2 h]
      obtain ⟨hnil, -⟩ | ⟨-, hcmd, -⟩ := step_recv hstep
      · exact absurd hnil hne.1
      · obtain ⟨topics, rfl⟩ := onCommand_topics hcmd
        rfl

theorem step_accept_absent {s : State} {fd : ℕ} {id : ClientId} (h : isConnected s id.bytes = false)
    (addr : SockAddr) :
    step s ⟨.accept fd addr id.bytes, fun _ => true⟩ =
      .ok (register (watch s fd) fd addr id.bytes, (stored s id.bytes).map (Out.send fd)) := by
  simp only [step, checkSends_bind fun _ => rfl, onAccept,
    bufferString_of_clean id.length_lt id.noNul, h, Bool.false_eq_true, if_false]

theorem readCommands_commands (s : State) (fd : ℕ) {commands : List Command}
    {reads : List (Bytes × Stale)} (h : reads.map Prod.fst = commands.map Command.bytes) :
    readCommands s fd reads = runAll s fd commands := by
  induction commands generalizing s reads with
  | nil =>
    obtain rfl := List.map_eq_nil_iff.mp h
    rfl
  | cons c commands ih =>
    cases reads with
    | nil => cases h
    | cons r reads =>
      obtain ⟨received, stale⟩ := r
      obtain ⟨rfl, hrest⟩ := List.cons.inj h
      simp only [readCommands, runAll, step, if_neg c.ne_nil, onCommand_bytes]
      cases hrun : c.run s fd with
      | error e => rfl
      | ok s' => exact ih s' hrest

/-- **Message by message**: the id and the commands in order. -/
theorem outcome_of_messages {s : State} {fd : ℕ} {id : ClientId} (hs : Awaits s fd id)
    (addr : SockAddr) {commands : List Command} {reads : List (Bytes × Stale)}
    (h : reads.map Prod.fst = id.bytes :: commands.map Command.bytes) :
    outcome s fd addr reads = inOrder s fd addr id commands := by
  cases reads with
  | nil => cases h
  | cons r reads =>
    obtain ⟨received, stale⟩ := r
    obtain ⟨rfl, hrest⟩ := List.cons.inj h
    have hnext := readCommands_commands (register (watch s fd) fd addr id.bytes) fd hrest
    have hne : ∀ r ∈ reads, r.1 ≠ [] := by
      intro r hr hnil
      obtain ⟨c, -, hc⟩ := List.mem_map.mp (hrest ▸ List.mem_map_of_mem hr)
      exact c.ne_nil (hc.trans hnil)
    simp only [outcome, inOrder, serve, step_accept_absent hs.absent, ← hnext]
    cases hrun : readCommands (register (watch s fd) fd addr id.bytes) fd reads with
    | error e => rfl
    | ok s' =>
      have hid : idOf s' fd = some id.bytes := by
        rw [idOf_readCommands hne hrun, idOf_register, Function.update_self]
      simp only [Except.map, hid]

/-- **The id registered is the id written** only if the first piece is exactly the id. -/
theorem head_of_registered {s : State} {fd : ℕ} {id : ClientId} (hs : Awaits s fd id)
    {addr : SockAddr} {commands : List Command} {reads : List (Bytes × Stale)}
    (hcut : Cut (written id commands) (reads.map Prod.fst))
    {topics : Bytes → Option (List Subscriber)}
    (h : outcome s fd addr reads = .ok (some id.bytes, topics)) :
    (reads.map Prod.fst).head? = some id.bytes := by
  cases reads with
  | nil =>
    have hnil : [] = written id commands := hcut.join
    rw [written, List.nil_eq, List.append_eq_nil_iff] at hnil
    exact absurd hnil.1 id.ne_nil
  | cons r reads =>
    obtain ⟨received, stale⟩ := r
    have hne : ∀ r ∈ reads, r.1 ≠ [] := fun r hr =>
      hcut.nonempty r.1 (List.mem_cons_of_mem _ (List.mem_map_of_mem hr))
    have hnul : NoNul received := fun b hb => by
      refine written_noNul id commands b ?_
      rw [← hcut.join]
      exact List.mem_flatten.mpr ⟨received, List.mem_cons_self, hb⟩
    have hfits : received.take MAX_LEN = received :=
      List.take_of_length_le (hcut.fits received List.mem_cons_self)
    unfold outcome serve at h
    cases hstep : step s ⟨.accept fd addr received, fun _ => true⟩ with
    | error e => simp [hstep, Except.map] at h
    | ok r =>
      obtain ⟨s₁, out⟩ := r
      simp only [hstep] at h
      cases hread : readCommands s₁ fd reads with
      | error e => simp [hread, Except.map] at h
      | ok s₂ =>
        simp only [hread, Except.map, Except.ok.injEq, Prod.mk.injEq] at h
        rw [idOf_readCommands hne hread] at h
        rcases idOf_accept hs.unmapped hstep with hid | hid
        · rw [hid] at h
          cases h.1
        · rw [hid] at h
          simp only [bufferString, hfits, cString_eq_self hnul] at h
          split at h
          · exact h.1
          · cases h.1

/-- A single byte is no command. -/
theorem readCommands_bytes (s : State) (fd : ℕ) (stale : Stale) (bs : Bytes) :
    readCommands s fd (bs.map fun b => ([b], stale)) = .ok s := by
  induction bs with
  | nil => rfl
  | cons b bs ih =>
    have hun : startsWith (ascii "unsubscribe") [b] = false :=
      show ((117 : UInt8) == b && false) = false from Bool.and_false _
    have hsub : startsWith (ascii "subscribe") [b] = false :=
      show ((115 : UInt8) == b && false) = false from Bool.and_false _
    have hcmd : onCommand s fd [b] stale = .ok s := by
      simp only [onCommand, show ([b] : Bytes).take MAX_LEN = [b] from rfl, hun, hsub,
        Bool.false_eq_true, if_false]
    have hstep : step s ⟨.recv fd [b] stale, fun _ => true⟩ = .ok (s, []) := by
      simp only [step, if_neg (List.cons_ne_nil b []), hcmd]
      rfl
    simp only [List.map_cons, readCommands, hstep]
    exact ih

/-- Whatever the first piece is, the bytes after it do nothing. -/
theorem outcome_at {s : State} {fd : ℕ} {addr : SockAddr} {first : Bytes} (hnul : NoNul first)
    (hlen : first.length < MAX_LEN) (stale : Stale) (bs : Bytes) :
    ∃ r, outcome s fd addr ((first, stale) :: bs.map fun b => ([b], stale)) = .ok r := by
  have hstep : ∃ r, step s ⟨.accept fd addr first, fun _ => true⟩ = .ok r := by
    simp only [step, checkSends_bind fun _ => rfl, onAccept, bufferString_of_clean hlen hnul]
    split
    · exact ⟨_, rfl⟩
    · exact ⟨_, rfl⟩
  obtain ⟨⟨s₁, out⟩, hstep⟩ := hstep
  simp only [outcome, serve, hstep, readCommands_bytes]
  exact ⟨_, rfl⟩

/-- A first piece of another length than the id spoils the outcome. -/
theorem length_of_independent {s : State} {fd : ℕ} {addr : SockAddr} {id : ClientId}
    (hs : Awaits s fd id) {commands : List Command} (h : Independent s fd addr id commands) {n : ℕ}
    (hpos : 0 < n) (hn : n ≤ (written id commands).length) (hfits : n < MAX_LEN) :
    n = id.bytes.length := by
  let stale : Stale := ⟨[], 0⟩
  let stream := written id commands
  let reads : List (Bytes × Stale) :=
    (stream.take n, stale) :: (stream.drop n).map fun b => ([b], stale)
  have hpieces : reads.map Prod.fst = stream.take n :: (stream.drop n).map fun b => [b] := by
    simp only [reads, List.map_cons, List.map_map, Function.comp_def]
  have hcut : Cut stream (reads.map Prod.fst) := hpieces ▸ cut_at stream hpos hn hfits.le
  have hlen : (stream.take n).length = n := List.length_take_of_le hn
  have hnul : NoNul (stream.take n) := fun b hb =>
    written_noNul id commands b (List.mem_of_mem_take hb)
  obtain ⟨r, hr⟩ : ∃ r, outcome s fd addr reads = .ok r :=
    outcome_at hnul (by rw [hlen]; exact hfits) stale (stream.drop n)
  have heq := (h reads reads hcut hcut).2
  rw [show outcome s fd addr reads = .ok r from hr, inOrder] at heq
  cases hrun : runAll (register (watch s fd) fd addr id.bytes) fd commands with
  | error e => simp [hrun, Except.map] at heq
  | ok s' =>
    simp only [hrun, Except.map, Except.ok.injEq] at heq
    subst heq
    have hhead := head_of_registered hs hcut hr
    rw [hpieces, List.head?_cons, Option.some.injEq] at hhead
    rw [← hhead, hlen]

/-- **The exact condition for independence of segmentation.**  The server registers the same id and
ends with the table of the commands in order for all ways of cutting exactly when the stream is a
single byte.  Pieces that are exactly the messages always give that result, and a result with the
right id needs the id for its first piece. -/
theorem segmentation_iff {s : State} {fd : ℕ} (addr : SockAddr) {id : ClientId}
    (hs : Awaits s fd id) (commands : List Command) :
    (Independent s fd addr id commands ↔ (written id commands).length = 1) ∧
      (∀ reads, reads.map Prod.fst = id.bytes :: commands.map Command.bytes →
        outcome s fd addr reads = inOrder s fd addr id commands) ∧
      ∀ reads topics, Cut (written id commands) (reads.map Prod.fst) →
        outcome s fd addr reads = .ok (some id.bytes, topics) →
          (reads.map Prod.fst).head? = some id.bytes := by
  have hidpos : 0 < id.bytes.length := List.length_pos_iff.mpr id.ne_nil
  have hlen : (written id commands).length =
      id.bytes.length + (commands.flatMap Command.bytes).length := List.length_append
  refine ⟨⟨fun h => ?_, fun h => ?_⟩, fun reads hreads => outcome_of_messages hs addr hreads,
    fun reads topics hcut h => head_of_registered hs hcut h⟩
  · by_contra hne
    have hone := length_of_independent hs h (n := 1) (by decide) (by omega) (by decide)
    have htwo := length_of_independent hs h (n := 2) (by decide) (by omega) (by decide)
    omega
  · have hnil : commands.flatMap Command.bytes = [] := List.eq_nil_of_length_eq_zero (by omega)
    have hcommands : commands = [] := by
      cases commands with
      | nil => rfl
      | cons c commands =>
        rw [List.flatMap_cons, List.append_eq_nil_iff] at hnil
        exact absurd hnil.1 c.ne_nil
    subst hcommands
    obtain ⟨b, hb⟩ := List.length_eq_one_iff.mp h
    have hid : id.bytes = [b] := by rw [← hb, written, hnil, List.append_nil]
    have hright : ∀ reads, Cut (written id []) (reads.map Prod.fst) →
        outcome s fd addr reads = inOrder s fd addr id [] := by
      intro reads hcut
      rw [hb] at hcut
      exact outcome_of_messages hs addr (by rw [hcut.single, hid]; rfl)
    intro reads reads' hcut hcut'
    rw [hright reads hcut, hright reads' hcut']
    exact ⟨rfl, rfl⟩

/-! ### Two commands in one piece -/

def idA : ClientId := ⟨ascii "a", by decide, by decide, by decide⟩

def twoCommands : List Command :=
  [.subscribe ⟨ascii "sports", by decide, by decide, by decide⟩ 1,
    .subscribe ⟨ascii "weather", by decide, by decide, by decide⟩ 0]

/-- Does the table hold the topic `weather`? -/
def hasWeather : Result → Bool
  | .ok (_, topics) => (topics (ascii "weather")).isSome
  | .error _ => false

/-- The pieces with some contents of the locals. -/
def withStale (pieces : List Bytes) : List (Bytes × Stale) := pieces.map fun p => (p, ⟨[], 0⟩)

/-- **Merged commands**: of two commands that arrive in one piece the second is lost. -/
theorem merged_command_lost :
    ∃ reads reads', Cut (written idA twoCommands) (reads.map Prod.fst) ∧
      Cut (written idA twoCommands) (reads'.map Prod.fst) ∧
        outcome (init listeners) 5 localhost reads ≠ outcome (init listeners) 5 localhost reads' := by
  refine ⟨withStale [ascii "a", ascii "subscribe sports 1\n", ascii "subscribe weather 0\n"],
    withStale [ascii "a", ascii "subscribe sports 1\nsubscribe weather 0\n"],
    ⟨by decide, by decide, by decide⟩, ⟨by decide, by decide, by decide⟩, fun heq => ?_⟩
  have hpieces : hasWeather (outcome (init listeners) 5 localhost (withStale
      [ascii "a", ascii "subscribe sports 1\n", ascii "subscribe weather 0\n"])) = true := by
    decide +kernel
  rw [heq] at hpieces
  revert hpieces
  decide +kernel

theorem awaits_init (id : ClientId) : Awaits (init listeners) 5 id := ⟨rfl, rfl⟩

/-- The two commands are read rightly when every piece is a message, and not for all ways of cutting. -/
theorem two_commands_depend_on_cut :
    ¬ Independent (init listeners) 5 localhost idA twoCommands ∧
      outcome (init listeners) 5 localhost (withStale (idA.bytes :: twoCommands.map Command.bytes)) =
        inOrder (init listeners) 5 localhost idA twoCommands := by
  obtain ⟨hiff, hmessages, -⟩ := segmentation_iff localhost (awaits_init idA) twoCommands
  refine ⟨fun h => ?_, hmessages _ ?_⟩
  · have hone := hiff.mp h
    revert hone
    decide
  · simp [withStale, Function.comp_def]

end Pcom.Tema2.Segmentation
