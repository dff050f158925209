import Mathlib.Data.List.Forall2
import Pcom.Lib.Http

/-!
# The requests of a connection

A server reads one request after the other from a connection, each from where the one before it ended.

* `readRequest_append` — what follows a request does not change how it is read;
* `readAll_of_each` — requests that are each read up to something the server skips are all read;
* `readAll_stops` — and where one cannot be read, the server gets no further.
-/

namespace Pcom.Lib.Http

open Pcom.Lib.Scan

variable {s left rest : Bytes}

/-! ### One request -/

theorem splitLine_append_right {line : Bytes} (h : splitLine s = some (line, left)) (rest : Bytes) :
    splitLine (s ++ rest) = some (line, left ++ rest) := by
  fun_induction splitLine s generalizing line left with
  | case1 s =>
    cases h
    rfl
  | case2 c s hne ih =>
    obtain ⟨⟨line', left'⟩, hmore, heq⟩ := Option.map_eq_some_iff.mp h
    cases heq
    have hstill : ∀ t, c = 13 → s ++ rest = 10 :: t → False := by
      intro t hc ht
      cases s with
      | nil => rw [splitLine] at hmore; cases hmore
      | cons d s =>
        obtain ⟨rfl, -⟩ := List.cons.inj ht
        exact hne s hc rfl
    rw [List.cons_append, splitLine.eq_2 _ _ hstill, ih hmore]
    rfl
  | case3 => cases h

theorem readLines_append_right {n m : ℕ} {lines : List Bytes} (h : readLines n s = some (lines, left)) (hle : n ≤ m)
    (rest : Bytes) : readLines m (s ++ rest) = some (lines, left ++ rest) := by
  induction n generalizing m s lines left with
  | zero => cases h
  | succ n ih =>
    obtain ⟨m, rfl⟩ : ∃ k, m = k + 1 := ⟨m - 1, by omega⟩
    simp only [readLines, Option.bind_eq_bind, Option.bind_eq_some_iff, Prod.exists] at h
    obtain ⟨line, s', hline, h⟩ := h
    rw [readLines, splitLine_append_right hline]
    dsimp only [Option.bind_eq_bind, Option.bind_some]
    split at h
    · rename_i hempty
      cases h
      rw [if_pos hempty]
      rfl
    · rename_i hline
      obtain ⟨⟨lines', s''⟩, hmore, heq⟩ := Option.bind_eq_some_iff.mp h
      cases heq
      rw [if_neg hline, ih hmore (Nat.le_of_succ_le_succ hle)]
      rfl

/-- **What follows a request** is left as it is. -/
theorem readRequest_append {q : Request} (h : readRequest s = some (q, left)) (rest : Bytes) :
    readRequest (s ++ rest) = some (q, left ++ rest) := by
  rw [readRequest, Option.bind_eq_bind, Option.bind_eq_some_iff] at h
  obtain ⟨⟨lines, body⟩, hlines, h⟩ := h
  obtain ⟨⟨method, target⟩, hline, h⟩ := Option.bind_eq_some_iff.mp h
  obtain ⟨fields, hfields, h⟩ := Option.bind_eq_some_iff.mp h
  obtain ⟨n, hn, h⟩ := Option.bind_eq_some_iff.mp h
  rw [Option.ite_none_left_eq_some] at h
  obtain ⟨hle, h⟩ := h
  have hlong : ¬ (body ++ rest).length < n := by
    rw [List.length_append]
    omega
  rw [readRequest, readLines_append_right hlines (by rw [List.length_append]; omega)]
  simp only [Option.bind_eq_bind, Option.bind_some, hline, hfields, hn, if_neg hlong]
  rw [List.take_append_of_le_length (not_lt.mp hle), List.drop_append_of_le_length (not_lt.mp hle)]
  cases h
  rfl

/-! ### All of them -/

/-- A server that passes over an empty line in front of a request, and one that does not. -/
def skipEmptyLine : Bytes → Bytes
  | 13 :: 10 :: s => s
  | s => s

theorem skipEmptyLine_block (l : Line) (ls : List Line) (s : Bytes) :
    skipEmptyLine (block (l :: ls) ++ s) = block (l :: ls) ++ s := by
  obtain ⟨c, bytes, hl⟩ := List.exists_cons_of_ne_nil l.ne_nil
  have hc : c ≠ 13 := (l.clean c (hl ▸ List.mem_cons_self)).1
  rw [block_cons, hl]
  exact skipEmptyLine.eq_2 _ fun _ heq => hc (List.cons.inj heq).1

/-- Up to `n` requests from a connection, and what is behind the last one read. -/
def readAll (skip : Bytes → Bytes) : ℕ → Bytes → List Request × Bytes
  | 0, s => ([], s)
  | n + 1, s =>
    match readRequest (skip s) with
    | none => ([], s)
    | some (q, s) => (q :: (readAll skip n s).1, (readAll skip n s).2)

variable {α : Type*} {text left : α → Bytes} {as : List α} {qs : List Request} {skip : Bytes → Bytes}

/-- **Every message of a connection is read** by a server that skips what the message before it leaves. -/
theorem readAll_of_each (front : Bytes)
    (hread : List.Forall₂ (fun a q => readRequest (text a) = some (q, left a)) as qs)
    (hskip : ∀ a ∈ as, ∀ b ∈ as, ∀ rest, skip (left a ++ (text b ++ rest)) = text b ++ rest)
    (hfront : ∀ a ∈ as, ∀ rest, skip (front ++ (text a ++ rest)) = text a ++ rest) :
    readAll skip as.length (front ++ as.flatMap text) = (qs, (as.getLast?.map left).getD front) := by
  induction hread generalizing front with
  | nil =>
    rw [List.flatMap_nil, List.append_nil]
    rfl
  | @cons a q as qs hq _ ih =>
    have hmore := ih (left a) (fun b hb c hc => hskip b (List.mem_cons_of_mem _ hb) c (List.mem_cons_of_mem _ hc))
      fun b hb => hskip a List.mem_cons_self b (List.mem_cons_of_mem _ hb)
    rw [List.length_cons, List.flatMap_cons, readAll, hfront a List.mem_cons_self, readRequest_append hq]
    dsimp only
    rw [hmore]
    cases as with
    | nil => rfl
    | cons b bs =>
      rw [List.getLast?_cons_cons, List.getLast?_eq_some_getLast (List.cons_ne_nil b bs)]
      rfl

/-- A request line that cannot be read ends the connection. -/
theorem readAll_stops (h : readRequest (skip s) = none) (n : ℕ) :
    readAll skip n s = ([], s) := by
  cases n with
  | zero => rfl
  | succ n => rw [readAll, h]

/-- A stream that begins with an empty line has no request line. -/
theorem readRequest_crlf (s : Bytes) : readRequest (crlf ++ s) = none := by
  have hline : splitLine (crlf ++ s) = some ([], s) := rfl
  have hlines : readLines (crlf ++ s).length (crlf ++ s) = some ([], s) := by
    rw [show (crlf ++ s).length = s.length + 1 + 1 from rfl, readLines, hline]
    rfl
  rw [readRequest, hlines]
  rfl

end Pcom.Lib.Http
