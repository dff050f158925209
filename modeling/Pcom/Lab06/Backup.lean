import Pcom.Lib.Memory
import Pcom.Lib.Scan

/-!
# The file backup of `Lab06`

`client.c` sends a file in pieces of at most 1500 bytes and then the text `DONE`; `server.c` writes what it receives
until a datagram looks like that text.  The datagrams arrive in order, unchanged and without loss.  The server
compares its buffer, which is not cleared between two datagrams, and not the datagram.

* `copied_iff` — the file is copied exactly when no piece is taken for the end;
* `transparent_iff` — **the exact condition** on the file: none of its pieces begins with `DONE`, and none is a
  beginning of it;
* `marker_in_file` — a file that begins with `DONE` is lost.
-/

namespace Pcom.Lab06.Backup

open Pcom.Lib.Memory Pcom.Lib.Scan

def BUFLEN : ℕ := 1500

/-! ### The client -/

/-- The loop `while ((readerFile = read(fd, buf, BUFLEN)))`: what it sends. -/
def readLoop (file : Bytes) : List Bytes :=
  if file.take BUFLEN = [] then [] else file.take BUFLEN :: readLoop (file.drop BUFLEN)
termination_by file.length
decreasing_by
  rename_i hne
  rw [List.length_drop]
  have hpos : file.length ≠ 0 := fun h => hne (by rw [List.length_eq_zero_iff.mp h, List.take_nil])
  have hbuf : 0 < BUFLEN := by decide
  omega

/-- A datagram, and which of the two `sendto`s it comes from. -/
inductive Datagram
  | data (chunk : Bytes)
  | done

/-- `strcpy(buf, "DONE")`, sent with the terminator. -/
def Datagram.bytes : Datagram → Bytes
  | .data chunk => chunk
  | .done => ascii "DONE" ++ [0]

/-- Everything the client sends. -/
def client (file : Bytes) : List Datagram := (readLoop file).map .data ++ [.done]

/-! ### The server -/

/-- `strncmp(buf, "DONE", 4) == 0`. -/
def isDone (buf : Buf) : Bool := decide (Pcom.Lib.Memory.bytes buf 0 4 = ascii "DONE")

/-- `recvfrom` over what the buffer held. -/
def receive (buf : Buf) (d : Datagram) : Buf := overwrite buf (d.bytes.take BUFLEN)

/-- The file being written, and the file when the loop has ended. -/
inductive Server
  | waiting (written : Bytes)
  | closed (written : Bytes)
  deriving DecidableEq

/-- The loop over the datagrams. -/
def server (buf : Buf) (written : Bytes) : List Datagram → Server
  | [] => .waiting written
  | d :: ds =>
    if isDone (receive buf d) then .closed written
    else server (receive buf d) (written ++ d.bytes.take BUFLEN) ds

/-- The datagrams the loop takes, each with what the buffer held before. -/
def taken (buf : Buf) : List Datagram → List (Buf × Datagram)
  | [] => []
  | d :: ds => (buf, d) :: if isDone (receive buf d) then [] else taken (receive buf d) ds

/-! ### The specification -/

/-- The backup of a file by a server whose buffer starts with these contents. -/
structure Transparent (buf : Buf) (file : Bytes) : Prop where
  copied : server buf [] (client file) = .closed file
  /-- No piece is taken for the end. -/
  kept : ∀ b chunk, (b, .data chunk) ∈ taken buf (client file) → isDone (receive b (.data chunk)) = false
  /-- What the buffer held before does not matter to the decision. -/
  independent : ∀ b d, (b, d) ∈ taken buf (client file) → ∀ b', isDone (receive b' d) = isDone (receive b d)

/-! ### The pieces of a file -/

theorem readLoop_flatten (file : Bytes) : (readLoop file).flatten = file := by
  induction file using readLoop.induct with
  | case1 file hnil =>
    rw [readLoop, if_pos hnil]
    rcases List.take_eq_nil_iff.mp hnil with h | h
    · exact absurd h (by decide)
    · exact h.symm
  | case2 file hne ih => rw [readLoop, if_neg hne, List.flatten_cons, ih, List.take_append_drop]

theorem of_mem_readLoop {file chunk : Bytes} (h : chunk ∈ readLoop file) : chunk ≠ [] ∧ chunk.length ≤ BUFLEN := by
  induction file using readLoop.induct with
  | case1 file hnil =>
    rw [readLoop, if_pos hnil] at h
    cases h
  | case2 file hne ih =>
    rw [readLoop, if_neg hne] at h
    rcases List.mem_cons.mp h with rfl | h
    · exact ⟨hne, List.length_take_le ..⟩
    · exact ih h

/-! ### The decision -/

/-- The first bytes of the buffer after a short or long piece. -/
theorem bytes_overwrite_take (b : Buf) (xs : Bytes) (n : ℕ) :
    bytes (overwrite b xs) 0 n = xs.take n ++ bytes b (xs.take n).length (n - xs.length) := by
  refine List.ext_getElem (by simp [bytes]; omega) fun k hk _ => ?_
  have hn : k < n := by simpa [bytes] using hk
  by_cases hx : k < xs.length
  · simp [bytes, overwrite, hx, List.getElem_append_left, hn]
  · have hlen : (xs.take n).length = xs.length := by
      rw [List.length_take]
      omega
    rw [List.getElem_append_right (by omega)]
    simp [bytes, overwrite, hx, hlen, Nat.add_sub_cancel' (Nat.le_of_not_lt hx)]

theorem isDone_data {b : Buf} {chunk : Bytes} (hlen : chunk.length ≤ BUFLEN) :
    isDone (receive b (.data chunk)) = true ↔
      chunk.take 4 ++ bytes b (chunk.take 4).length (4 - chunk.length) = ascii "DONE" := by
  rw [isDone, decide_eq_true_iff, receive, Datagram.bytes, List.take_of_length_le hlen, bytes_overwrite_take]

theorem isDone_done (b : Buf) : isDone (receive b .done) = true := by
  rw [isDone, decide_eq_true_iff, receive, bytes_overwrite_take]
  rfl

/-- A piece that begins with the marker is always taken for it. -/
theorem isDone_of_marker {chunk : Bytes} (hlen : chunk.length ≤ BUFLEN) (h : ascii "DONE" <+: chunk)
    (b : Buf) : isDone (receive b (.data chunk)) = true := by
  obtain ⟨rest, rfl⟩ := h
  have hfour : (ascii "DONE").length = 4 := by decide
  have htake : (ascii "DONE" ++ rest).take 4 = ascii "DONE" := List.take_left' hfour
  have hnone : 4 - (ascii "DONE" ++ rest).length = 0 := by
    rw [List.length_append, hfour]
    omega
  rw [isDone_data hlen, htake, hnone]
  exact List.append_nil _

/-- A piece that is taken for the marker begins with it, or is a beginning of it. -/
theorem prefix_of_isDone {chunk : Bytes} (hlen : chunk.length ≤ BUFLEN) {b : Buf}
    (h : isDone (receive b (.data chunk)) = true) : ascii "DONE" <+: chunk ∨ chunk <+: ascii "DONE" := by
  rw [isDone_data hlen] at h
  rcases Nat.le_total 4 chunk.length with hlong | hshort
  · rw [Nat.sub_eq_zero_of_le hlong] at h
    have htake : chunk.take 4 = ascii "DONE" := (List.append_nil _).symm.trans h
    exact Or.inl (htake ▸ List.take_prefix ..)
  · rw [List.take_of_length_le hshort] at h
    exact Or.inr ⟨_, h⟩

/-- On a beginning of the marker, what the buffer held before decides. -/
theorem isDone_of_prefix_marker {chunk : Bytes} (h : chunk <+: ascii "DONE") :
    isDone (receive (ofBytes (ascii "DONE")) (.data chunk)) = true := by
  obtain ⟨rest, hrest⟩ := h
  have hlen : chunk.length + rest.length = 4 := by
    have hfour := congrArg List.length hrest
    rwa [List.length_append] at hfour
  have hbuf : chunk.length ≤ BUFLEN := by
    rw [BUFLEN]
    omega
  have hbehind : bytes (ofBytes (ascii "DONE")) chunk.length (4 - chunk.length) = rest := by
    rw [← hrest, show 4 - chunk.length = rest.length by omega]
    refine List.ext_getElem (by simp [bytes]) fun k _ hk => ?_
    simp [bytes, ofBytes, hk]
  rw [isDone_data hbuf, List.take_of_length_le (by omega), hbehind, hrest]

/-! ### The loop of the server -/

/-- **The pieces are written exactly when** none of them is taken for the end. -/
theorem server_eq_closed_iff {chunks : List Bytes} (hchunks : ∀ c ∈ chunks, c ≠ [] ∧ c.length ≤ BUFLEN)
    (buf : Buf) (written : Bytes) :
    server buf written (chunks.map .data ++ [.done]) = .closed (written ++ chunks.flatten) ↔
      ∀ b chunk, (b, .data chunk) ∈ taken buf (chunks.map .data ++ [.done]) →
        isDone (receive b (.data chunk)) = false := by
  induction chunks generalizing buf written with
  | nil => simp [server, taken, isDone_done]
  | cons c cs ih =>
    rw [List.forall_mem_cons] at hchunks
    rw [List.map_cons, List.cons_append, server, taken, List.flatten_cons]
    cases hdone : isDone (receive buf (.data c)) with
    | true =>
      refine iff_of_false (fun h => ?_) fun h => ?_
      · have hnil := Server.closed.inj h
        rw [List.self_eq_append_right, List.append_eq_nil_iff] at hnil
        exact hchunks.1.1 hnil.1
      · rw [h buf c List.mem_cons_self] at hdone
        cases hdone
    | false =>
      have hc : (Datagram.data c).bytes.take BUFLEN = c := List.take_of_length_le hchunks.1.2
      simp only [Bool.false_eq_true, if_false, hc]
      rw [← List.append_assoc, ih hchunks.2]
      refine ⟨fun h b chunk hmem => ?_, fun h b chunk hmem => h b chunk (List.mem_cons_of_mem _ hmem)⟩
      rcases List.mem_cons.mp hmem with heq | hmem
      · cases heq
        exact hdone
      · exact h b chunk hmem

/-- If no piece is taken for the end, every piece is taken. -/
theorem exists_taken {chunks : List Bytes} {buf : Buf}
    (hkept : ∀ b chunk, (b, .data chunk) ∈ taken buf (chunks.map .data ++ [.done]) →
      isDone (receive b (.data chunk)) = false) {chunk : Bytes} (h : chunk ∈ chunks) :
    ∃ b, (b, .data chunk) ∈ taken buf (chunks.map .data ++ [.done]) := by
  induction chunks generalizing buf with
  | nil => cases h
  | cons c cs ih =>
    rw [List.map_cons, List.cons_append, taken] at hkept ⊢
    rw [hkept buf c List.mem_cons_self] at hkept ⊢
    rcases List.mem_cons.mp h with rfl | h
    · exact ⟨buf, List.mem_cons_self⟩
    · obtain ⟨b, hb⟩ := ih (fun b chunk hmem => hkept b chunk (List.mem_cons_of_mem _ hmem)) h
      exact ⟨b, List.mem_cons_of_mem _ hb⟩

theorem mem_of_mem_taken {buf b : Buf} {d : Datagram} {ds : List Datagram} (h : (b, d) ∈ taken buf ds) : d ∈ ds := by
  induction ds generalizing buf with
  | nil => cases h
  | cons d' ds ih =>
    rw [taken] at h
    rcases List.mem_cons.mp h with heq | h
    · cases heq
      exact List.mem_cons_self
    · split at h
      · cases h
      · exact List.mem_cons_of_mem _ (ih h)

variable {buf : Buf} {file : Bytes}

/-- **The file is copied exactly when** no piece is taken for the end. -/
theorem copied_iff : server buf [] (client file) = .closed file ↔
    ∀ b chunk, (b, .data chunk) ∈ taken buf (client file) → isDone (receive b (.data chunk)) = false := by
  have h := server_eq_closed_iff (fun c (hc : c ∈ readLoop file) => of_mem_readLoop hc) buf []
  rwa [List.nil_append, readLoop_flatten] at h

/-- **The backup is transparent exactly when** no piece of the file begins with the marker or is a beginning of it,
whatever the server's buffer holds at the start. -/
theorem transparent_iff : Transparent buf file ↔
    ∀ chunk ∈ readLoop file, ¬ ascii "DONE" <+: chunk ∧ ¬ chunk <+: ascii "DONE" := by
  constructor
  · intro h chunk hchunk
    obtain ⟨-, hlen⟩ := of_mem_readLoop hchunk
    obtain ⟨b, hb⟩ := exists_taken h.kept hchunk
    have hkept : isDone (receive b (.data chunk)) = false := h.kept b chunk hb
    refine ⟨fun hmarker => ?_, fun hbegin => ?_⟩
    · rw [isDone_of_marker hlen hmarker] at hkept
      cases hkept
    · have hsame := h.independent b _ hb (ofBytes (ascii "DONE"))
      rw [isDone_of_prefix_marker hbegin, hkept] at hsame
      cases hsame
  · intro h
    have hfree : ∀ b chunk, Datagram.data chunk ∈ client file → isDone (receive b (.data chunk)) = false := by
      intro b chunk hmem
      have hchunk : chunk ∈ readLoop file := by
        rcases List.mem_append.mp hmem with hmem | hmem
        · obtain ⟨c, hc, heq⟩ := List.mem_map.mp hmem
          exact Datagram.data.inj heq ▸ hc
        · cases List.mem_singleton.mp hmem
      rw [Bool.eq_false_iff]
      exact fun hdone => (prefix_of_isDone (of_mem_readLoop hchunk).2 hdone).elim (h chunk hchunk).1 (h chunk hchunk).2
    have hkept : ∀ b chunk, (b, .data chunk) ∈ taken buf (client file) → isDone (receive b (.data chunk)) = false :=
      fun b chunk hmem => hfree b chunk (mem_of_mem_taken hmem)
    refine ⟨copied_iff.mpr hkept, hkept, fun b d hmem b' => ?_⟩
    cases d with
    | data chunk => rw [hfree b' chunk (mem_of_mem_taken hmem), hfree b chunk (mem_of_mem_taken hmem)]
    | done => rw [isDone_done, isDone_done]

/-- **A file that begins with the marker** is not copied: nothing is written. -/
theorem marker_in_file : server (fun _ => 0) [] (client (ascii "DONE!")) = .closed [] ∧
    ¬ Transparent (fun _ => 0) (ascii "DONE!") := by
  have hpieces : readLoop (ascii "DONE!") = [ascii "DONE!"] := by
    rw [readLoop, if_neg (by decide), readLoop, if_pos (by decide)]
    rfl
  have hserver : server (fun _ => 0) [] (client (ascii "DONE!")) = .closed [] := by
    rw [client, hpieces]
    decide
  refine ⟨hserver, fun h => ?_⟩
  have hcopied := h.copied
  rw [hserver] at hcopied
  exact absurd hcopied (by decide)

end Pcom.Lab06.Backup
