import Pcom.Lib.Framing
import Pcom.Tema2.Datagram

/-!
# The receive loop of `Tema2/subscriber.cpp`

The subscriber reads one byte per `recv` into a zeroed buffer until a line feed that is not the first
byte, or until the buffer is full; then it looks for the two flags and prints the buffer.  `recvByte` is
one `recv` with what follows it up to the next one, `receive` the loop over the segments TCP delivers.
The commands from the keyboard are left out.

* `receive_eq` — the loop shows the frames `Framing.split` takes from the stream, whatever the segments.
-/

namespace Pcom.Tema2.Subscriber

open Pcom.Lib.Scan Pcom.Lib.Framing Pcom.Tema2.Datagram

/-- Why the loop ends: one of the two flags, or a buffer printed without a terminator in it. -/
inductive Stop
  | idExists
  | exit
  | undefined
  deriving DecidableEq

/-- What has been printed, and the part of the next message in the buffer. -/
structure Session where
  shown : List Bytes
  state : Except Stop Bytes

def start : Session := ⟨[], .ok []⟩

/-- The text printed for a full buffer. -/
def onMessage (buf : Bytes) : Except Stop Bytes :=
  if startsWith (ascii ";ID_EXISTS;") buf then .error .idExists
  else if startsWith (ascii ";EXIT;") buf then .error .exit
  else
    match bufferString MAX_LEN buf with
    | none => .error .undefined
    | some text => .ok text

/-- One byte received. -/
def recvByte (r : Session) (b : UInt8) : Session :=
  match r.state with
  | .error _ => r
  | .ok buf =>
    if (buf ≠ [] ∧ b = 10) ∨ buf.length + 1 = MAX_LEN then
      match onMessage (buf ++ [b]) with
      | .error e => { r with state := .error e }
      | .ok text => ⟨r.shown ++ [text], .ok []⟩
    else { r with state := .ok (buf ++ [b]) }

/-- The loop over the segments of the stream. -/
def receive (segments : List Bytes) : Session :=
  segments.foldl (fun r segment => segment.foldl recvByte r) start

/-- The messages handled one after the other, with `left` in the buffer at the end. -/
def consume (shown : List Bytes) (left : Bytes) : List Bytes → Session
  | [] => ⟨shown, .ok left⟩
  | frame :: frames =>
    match onMessage frame with
    | .error e => ⟨shown, .error e⟩
    | .ok text => consume (shown ++ [text]) left frames

theorem recvBytes_stopped (shown : List Bytes) (e : Stop) (s : Bytes) :
    s.foldl recvByte ⟨shown, .error e⟩ = ⟨shown, .error e⟩ := by
  induction s with
  | nil => rfl
  | cons b s ih => exact ih

theorem recvBytes_eq (shown : List Bytes) (buf s : Bytes) :
    s.foldl recvByte ⟨shown, .ok buf⟩ =
      consume shown (split 10 MAX_LEN buf s).2 (split 10 MAX_LEN buf s).1 := by
  induction s generalizing shown buf with
  | nil => rfl
  | cons b s ih =>
    rw [List.foldl_cons, split, recvByte]
    by_cases hend : Ends 10 MAX_LEN buf b
    · have hend' : (buf ≠ [] ∧ b = 10) ∨ buf.length + 1 = MAX_LEN := hend
      simp only [if_pos hend, if_pos hend', consume]
      cases onMessage (buf ++ [b]) with
      | error e => exact recvBytes_stopped shown e s
      | ok text => exact ih (shown ++ [text]) []
    · have hend' : ¬ ((buf ≠ [] ∧ b = 10) ∨ buf.length + 1 = MAX_LEN) := hend
      simp only [if_neg hend, if_neg hend']
      exact ih shown (buf ++ [b])

/-- **The loop does not see the segments**, only the frames of the stream. -/
theorem receive_eq (segments : List Bytes) :
    receive segments =
      consume [] (split 10 MAX_LEN [] segments.flatten).2 (split 10 MAX_LEN [] segments.flatten).1 := by
  rw [receive, ← List.foldl_flatten, start, recvBytes_eq]

/-- Messages are shown as they are when each is shown as it is. -/
theorem consume_eq {frames : List Bytes} (h : ∀ f ∈ frames, onMessage f = .ok f)
    (shown : List Bytes) (left : Bytes) :
    consume shown left frames = ⟨shown ++ frames, .ok left⟩ := by
  induction frames generalizing shown with
  | nil => rw [consume, List.append_nil]
  | cons f frames ih =>
    rw [List.forall_mem_cons] at h
    simp only [consume, h.1, ih h.2, List.append_assoc, List.singleton_append]

/-- Conversely, a loop that goes on has shown a text for each frame. -/
theorem shown_of_consume {frames shown shown' : List Bytes} {left left' : Bytes}
    (h : consume shown left frames = ⟨shown', .ok left'⟩) :
    left = left' ∧ ∃ texts, shown' = shown ++ texts ∧
      List.Forall₂ (fun f text => onMessage f = .ok text) frames texts := by
  induction frames generalizing shown with
  | nil =>
    injection h with h1 h2
    injection h2 with h2
    exact ⟨h2, [], by rw [h1, List.append_nil], .nil⟩
  | cons f frames ih =>
    rw [consume] at h
    cases hf : onMessage f with
    | error e =>
      rw [hf] at h
      injection h with h1 h2
      cases h2
    | ok text =>
      rw [hf] at h
      obtain ⟨hleft, texts, rfl, hall⟩ := ih h
      exact ⟨hleft, text :: texts, by simp, .cons hf hall⟩

/-- A text without zero bytes is shown only as itself, and only if a terminator still fits. -/
theorem eq_of_onMessage {buf text : Bytes} (hnul : NoNul buf) (hfits : buf.length ≤ MAX_LEN)
    (h : onMessage buf = .ok text) : text = buf ∧ buf.length < MAX_LEN := by
  unfold onMessage at h
  split at h
  · cases h
  · split at h
    · cases h
    · simp only [bufferString, List.take_of_length_le hfits, cString_eq_self hnul] at h
      by_cases hlen : buf.length < MAX_LEN
      · rw [if_pos hlen] at h
        exact ⟨(Except.ok.inj h).symm, hlen⟩
      · rw [if_neg hlen] at h
        cases h

/-- A text that starts with another byte than `;` is no flag. -/
theorem onMessage_eq {b : UInt8} {text : Bytes} (hb : b ≠ 59) (hnul : NoNul (b :: text))
    (hlen : (b :: text).length < MAX_LEN) : onMessage (b :: text) = .ok (b :: text) := by
  have hsemi : ((59 : UInt8) == b) = false := beq_eq_false_iff_ne.mpr (Ne.symm hb)
  have hid : startsWith (ascii ";ID_EXISTS;") (b :: text) = false :=
    show ((59 : UInt8) == b && (ascii "ID_EXISTS;").isPrefixOf text) = false by rw [hsemi]; rfl
  have hexit : startsWith (ascii ";EXIT;") (b :: text) = false :=
    show ((59 : UInt8) == b && (ascii "EXIT;").isPrefixOf text) = false by rw [hsemi]; rfl
  rw [onMessage, hid, hexit, bufferString_of_clean hlen hnul]
  rfl

end Pcom.Tema2.Subscriber
