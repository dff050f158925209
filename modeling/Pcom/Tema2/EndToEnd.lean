import Pcom.Tema2.Delivery
import Pcom.Tema2.RoundTrip

/-!
# From the publishers to the terminals

A client's sessions with the broker are connections of their own, each read by a subscriber of its own.  What the broker
sends in a session is a stream; TCP cuts it as it likes, and at any time only a beginning of it has arrived.

* `shown_iff` — one stream: the subscriber shows at any time a beginning of the lines, and in the end all of them,
  exactly when each line is one frame;
* `shown_exactly_once` — **a whole run**: what the subscribers of a client have to show, followed by what is stored
  for it, is what was published for it, in order and once each; and they show it exactly under that condition.
-/

namespace Pcom.Tema2.EndToEnd

open Pcom.Lib.Scan Pcom.Lib.StepSystem Pcom.Lib.Mailbox Pcom.Tema2.Datagram Pcom.Tema2.Server Pcom.Tema2.Bookkeeping
open Pcom.Tema2.Commands Pcom.Tema2.Delivery Pcom.Tema2.Subscriber Pcom.Tema2.RoundTrip

/-! ### One stream -/

/-- The subscriber shows a beginning of the lines at any time, and all of them when all has arrived. -/
def Shown (lines : List Bytes) : Prop := ∀ segments : List Bytes, segments.flatten <+: lines.flatten →
  (receive segments).shown <+: lines ∧ (segments.flatten = lines.flatten → receive segments = ⟨lines, .ok []⟩)

/-- What has been shown stays. -/
theorem shown_prefix (s : Bytes) (r : Session) : r.shown <+: (s.foldl recvByte r).shown := by
  induction s generalizing r with
  | nil => exact List.prefix_refl _
  | cons b s ih =>
    refine List.IsPrefix.trans ?_ (ih (recvByte r b))
    rw [recvByte]
    split
    · exact List.prefix_refl _
    · split
      · split
        · exact List.prefix_refl _
        · exact List.prefix_append _ _
      · exact List.prefix_refl _

theorem receive_flatten (segments : List Bytes) : receive segments = segments.flatten.foldl recvByte start :=
  List.foldl_flatten.symm

theorem shown_iff {lines : List Bytes}
    (hshape : ∀ l ∈ lines, (∃ b body, l = b :: body ++ [10] ∧ b ≠ 59) ∧ NoNul l) :
    Shown lines ↔ ∀ l ∈ lines, OneFrame l := by
  constructor
  · intro h
    exact (receive_lines hshape (List.flatten_singleton ..)).mp ((h [lines.flatten] (by simp)).2 (by simp))
  · intro h segments hfront
    obtain ⟨rest, hrest⟩ := hfront
    have hall : [lines.flatten].flatten = lines.flatten := List.flatten_singleton ..
    have hwhole := (receive_lines hshape hall).mpr h
    rw [receive_flatten, List.flatten_singleton, ← hrest, List.foldl_append, ← receive_flatten] at hwhole
    refine ⟨?_, fun heq => (receive_lines hshape heq).mpr h⟩
    have hshown := shown_prefix rest (receive segments)
    rwa [hwhole] at hshown

/-! ### The streams of a client -/

/-- What the broker sends in each session of `c`, the latest session first. -/
def streams (c : Bytes) : List (Step State Input Out) → List (List Bytes)
  | [] => []
  | st :: h =>
    if session c h = none ∧ session c (st :: h) ≠ none then linesTo (session c (st :: h)) st.out :: streams c h
    else (streams c h).modifyHead (· ++ linesTo (session c (st :: h)) st.out)

theorem streams_ne_nil {c : Bytes} {h : List (Step State Input Out)} (hopen : session c h ≠ none) :
    streams c h ≠ [] := by
  induction h with
  | nil => exact absurd rfl hopen
  | cons st h ih =>
    rw [streams]
    split
    · exact List.cons_ne_nil _ _
    · rename_i hold
      obtain ⟨lines, more, hlines⟩ := List.exists_cons_of_ne_nil (ih fun hnone => hold ⟨hnone, hopen⟩)
      rw [hlines]
      exact List.cons_ne_nil _ _

/-- The streams hold what is sent. -/
theorem streams_flatten (c : Bytes) (h : List (Step State Input Out)) :
    (streams c h).reverse.flatten = sentTo c h := by
  induction h with
  | nil => rfl
  | cons st h ih =>
    rw [streams, sentTo, ← ih]
    split
    · rw [List.reverse_cons, List.flatten_concat]
    · rename_i hold
      by_cases hopen : session c (st :: h) = none
      · have hsame : (fun lines : List Bytes => lines ++ []) = id := funext List.append_nil
        rw [hopen, linesTo_none, hsame, List.modifyHead_id, List.append_nil]
        rfl
      · obtain ⟨lines, more, hlines⟩ :=
          List.exists_cons_of_ne_nil (streams_ne_nil fun hnone => hold ⟨hnone, hopen⟩)
        rw [hlines, List.modifyHead_cons, List.reverse_cons, List.flatten_concat, List.reverse_cons,
          List.flatten_concat, List.append_assoc]

/-! ### The lines -/

/-- A line that is due comes from a datagram of the run. -/
theorem exists_datagram {c l : Bytes} {h : List (Step State Input Out)} (hl : l ∈ dueTo c h) :
    ∃ st ∈ h, ∃ sender received pkt, st.input.event = .datagram sender received ∧
      processUdpPacket received = some pkt ∧ l = line sender pkt := by
  induction h with
  | nil => exact absurd hl List.not_mem_nil
  | cons st h ih =>
    rw [dueTo] at hl
    rcases List.mem_append.mp hl with hl | hl
    · obtain ⟨st', hst', hexists⟩ := ih hl
      exact ⟨st', List.mem_cons_of_mem _ hst', hexists⟩
    · refine ⟨st, List.mem_cons_self, ?_⟩
      cases hevent : st.input.event with
      | datagram sender received =>
        rw [hevent, dueNow] at hl
        split at hl
        · exact absurd hl List.not_mem_nil
        · rename_i pkt hpkt
          split at hl
          · exact ⟨sender, received, pkt, rfl, hpkt, List.mem_singleton.mp hl⟩
          · exact absurd hl List.not_mem_nil
      | _ =>
        rw [hevent] at hl
        exact absurd hl List.not_mem_nil

/-- A datagram fits the buffer it is received into. -/
def Received : Event → Prop
  | .datagram _ received => received.length ≤ MAX_LEN
  | _ => True

/-- A valid packet comes from a datagram of a known type with a topic. -/
theorem exists_rendered {sender : SockAddr} {received : Bytes} {pkt : UdpPacket} (hfits : received.length ≤ MAX_LEN)
    (hpkt : processUdpPacket received = some pkt) (hvalid : pkt.valid = true) :
    ∃ d : RoundTrip.Datagram, d.rendered = some (line sender pkt) := by
  have hparts : byteAt received TOPIC_SIZE ≤ 3 ∧ cString (received.take TOPIC_SIZE) ≠ [] := by
    rw [processUdpPacket] at hpkt
    split at hpkt
    · cases hpkt
      cases hvalid
    · cases hpkt
    · rename_i type payload hpayload
      refine ⟨?_, fun hnil => ?_⟩
      · rw [payloadOf] at hpayload
        split at hpayload <;> first | (rename_i htype; rw [htype]; decide) | cases hpayload
      · simp only [if_pos hnil] at hpkt
        cases hpkt
  refine ⟨⟨sender, received, hfits, hparts.1, hparts.2⟩, ?_⟩
  rw [Datagram.rendered, hpkt]
  rfl

/-! ### Every run -/

variable {l : Listeners} {h : List (Step State Input Out)} {s : State} {c : Bytes}

/-- **From the publishers to the terminals.**  The streams of a client's sessions, followed by what is stored for it,
are the lines published for it; its subscribers show them exactly when each is one frame. -/
theorem shown_exactly_once (run : Run (Serves l) (init l) h s) (hok : ∀ st ∈ h, Admissible st.before st.input)
    (hreceived : ∀ st ∈ h, Received st.input.event) (hc : c ≠ []) :
    (streams c h).reverse.flatten ++ stored s c = dueTo c h ∧
      ((∀ lines ∈ streams c h, Shown lines) ↔ ∀ l ∈ sentTo c h, OneFrame l) := by
  have hf := (Run.followed run hok).2.2 c hc
  have hpending : stored s c = (after (own c h)).pending := congrArg Box.pending hf.box_eq
  have hdue : sentTo c h ++ stored s c = dueTo c h := by
    rw [hf.sent_eq, hf.due_eq, hpending]
    exact sent_append_pending (own c h)
  have hsent : ∀ l ∈ sentTo c h, (∃ b body, l = b :: body ++ [10] ∧ b ≠ 59) ∧ NoNul l := by
    intro l hl
    obtain ⟨st, hst, sender, received, pkt, hevent, hpkt, rfl⟩ := exists_datagram (hdue ▸ List.mem_append_left _ hl)
    have hadm := hok st hst
    rw [Admissible, hevent] at hadm
    obtain ⟨pkt', hpkt', hvalid⟩ := hadm
    obtain rfl : pkt' = pkt := Option.some.inj (hpkt'.symm.trans hpkt)
    have hfits := hreceived st hst
    rw [hevent] at hfits
    obtain ⟨d, hd⟩ := exists_rendered hfits hpkt hvalid
    exact rendered_shape hd
  have hmem (l : Bytes) : l ∈ sentTo c h ↔ ∃ lines ∈ streams c h, l ∈ lines := by
    rw [← streams_flatten, List.mem_flatten]
    exact exists_congr fun lines => and_congr_left fun _ => List.mem_reverse
  refine ⟨by rw [streams_flatten, hdue], ?_⟩
  constructor
  · intro h l hl
    obtain ⟨lines, hlines, hl⟩ := (hmem l).mp hl
    exact (shown_iff fun l hl => hsent l ((hmem l).mpr ⟨lines, hlines, hl⟩)).mp (h lines hlines) l hl
  · intro h lines hlines
    exact (shown_iff fun l hl => hsent l ((hmem l).mpr ⟨lines, hlines, hl⟩)).mpr
      fun l hl => h l ((hmem l).mpr ⟨lines, hlines, hl⟩)

/-! ### A line on the terminal -/

theorem sendNews_serves : ∃ s, Serves listeners subscribedA publishNews s [.send 5 (line localhost newsPacket)] := by
  refine ⟨(deliver (line localhost newsPacket) subscribedA [{ clientID := ascii "a", SF := true }]).1, trivial, ?_⟩
  rw [publishNews, step]
  dsimp only
  rw [onDatagram, newsPacket_eq]
  rfl

/-- The line published for `a` is shown, however it is cut. -/
theorem news_shown : ∃ h s, Run (Serves listeners) (init listeners) h s ∧
    streams (ascii "a") h = [[line localhost newsPacket]] ∧ Shown [line localhost newsPacket] := by
  obtain ⟨s, hsend⟩ := sendNews_serves
  have run := ((Run.start.next connectA).next subscribeA_serves).next hsend
  have hstreams : streams (ascii "a") [⟨subscribedA, publishNews, [.send 5 (line localhost newsPacket)]⟩,
      ⟨connectedA, subscribeA, []⟩, ⟨init listeners, announceA 5, []⟩] = [[line localhost newsPacket]] := rfl
  have hsent : sentTo (ascii "a") [⟨subscribedA, publishNews, [.send 5 (line localhost newsPacket)]⟩,
      ⟨connectedA, subscribeA, []⟩, ⟨init listeners, announceA 5, []⟩] = [line localhost newsPacket] := rfl
  have hc : ascii "a" ≠ [] := by decide
  have honce := shown_exactly_once run (by
    simp only [List.forall_mem_cons]
    exact ⟨⟨newsPacket, newsPacket_eq, rfl⟩, Or.inr ⟨news, 1, rfl⟩, trivial, by simp⟩) (by
    simp only [List.forall_mem_cons]
    exact ⟨show newsDatagram.length ≤ MAX_LEN by decide, trivial, trivial, by simp⟩) hc
  have hframe : OneFrame (line localhost newsPacket) := by
    rw [OneFrame]
    decide +kernel
  rw [hstreams, hsent, List.forall_mem_singleton, List.forall_mem_singleton] at honce
  exact ⟨_, s, run, hstreams, honce.2.mpr hframe⟩

end Pcom.Tema2.EndToEnd
