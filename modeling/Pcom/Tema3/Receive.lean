import Pcom.Lib.Http
import Pcom.Lib.Words

/-!
# Receiving a response

`receive_from_server` reads into a growing buffer, first until the end of the header block and the text
`Content-Length: ` have been found in it, then until the buffer has as many bytes as announced.  Positions and lengths
go through `int` on the way.

* `receiveHead_split` — the first loop ends with **the first read that reaches both texts**;
* `received_of_blank` — a space behind the colon of the field is enough;
* `received_iff` — **the exact condition** for a response to be received in the same way however it is cut.
-/

namespace Pcom.Tema3.Receive

open Pcom.Lib.Scan Pcom.Lib.Words Pcom.Lib.Search Pcom.Lib.Http

/-! ### The two loops -/

/-- What one call of `read` returns. -/
inductive Read
  | data (response : Bytes)
  | closed
  | failed
  deriving DecidableEq

/-- The bytes behind the pointer returned, and the reads not made; or `exit`; or the call of `read` that does not
return; or an access outside of the buffer. -/
inductive Outcome
  | returned (data : Bytes) (unread : List Read)
  | exited
  | blocked
  | undefined
  deriving DecidableEq

def headerTerminator : Bytes := ascii "\r\n\r\n"

def contentLength : Bytes := ascii "Content-Length: "

/-- A position found, as the `int` it is returned as. -/
def position (found : Option ℕ) : ℤ := found.elim (-1) fun i => toInt i

/-- `buffer_find`. -/
def bufferFind (buffer data : Bytes) : ℤ := position (first data buffer)

/-- `buffer_find_insensitive`. -/
def bufferFindInsensitive (buffer data : Bytes) : ℤ := position (first (lower data) (lower buffer))

/-- `strtol` from a position of the buffer, as an `int`; there has to be a byte in the buffer that ends the number. -/
def strtol (buffer : Bytes) (start : ℤ) : Option ℤ :=
  if start < 0 ∨ (scanSign (skipSpace (buffer.drop start.toNat))).2.dropWhile isDigit = [] then none
  else some (atoi (buffer.drop start.toNat))

/-- The sum of two `int`s as a `size_t`. -/
def total (contentLength headerEnd : ℤ) : ℕ := ((contentLength + headerEnd) % 2 ^ 64).toNat

/-- The second loop, and the zero byte behind what was read. -/
def receiveBody (total : ℕ) (buffer : Bytes) (reads : List Read) : Outcome :=
  if buffer.length < total then
    match reads with
    | [] => .blocked
    | .failed :: _ => .exited
    | .closed :: _ => .returned (buffer ++ [0]) reads
    | .data response :: reads => receiveBody total (buffer ++ response) reads
  else .returned (buffer ++ [0]) reads

/-- The first loop. -/
def receiveHead (headerEnd : ℤ) (buffer : Bytes) : List Read → Outcome
  | [] => .blocked
  | .failed :: _ => .exited
  | .closed :: reads => receiveBody (total 0 headerEnd) buffer (.closed :: reads)
  | .data response :: reads =>
    let buffer := buffer ++ response
    let headerEnd := bufferFind buffer headerTerminator
    if 0 ≤ headerEnd then
      let headerEnd := toInt (headerEnd + 4)
      let start := bufferFindInsensitive buffer contentLength
      if start < 0 then receiveHead headerEnd buffer reads
      else
        match strtol buffer (toInt (start + 16)) with
        | none => .undefined
        | some n => receiveBody (total n headerEnd) buffer reads
    else receiveHead headerEnd buffer reads

def receiveFromServer (reads : List Read) : Outcome := receiveHead 0 [] reads

/-! ### What the loops look for -/

/-- A way of cutting a text into reads. -/
structure Cut (text : Bytes) (pieces : List Bytes) : Prop where
  join : pieces.flatten = text
  nonempty : ∀ p ∈ pieces, p ≠ []
  fits : ∀ p ∈ pieces, p.length ≤ 4096

/-- However it is cut, the response is returned, with a zero byte behind it, and nothing is left unread. -/
def Received (r : Response) : Prop :=
  ∀ pieces, Cut r.render pieces →
    receiveFromServer (pieces.map .data) = .returned (r.render ++ [0]) []

/-- Where the text is found, in any case of its letters. -/
def NameAt (s : Bytes) (c : ℕ) : Prop := FirstAt (lower contentLength) (lower s) c

instance (s : Bytes) (c : ℕ) : Decidable (NameAt s c) := inferInstanceAs (Decidable (FirstAt _ _ _))

theorem position_some (i : ℕ) : position (some i) = toInt i := by
  rw [position, Option.elim_some]

theorem position_none : position none = -1 := by
  rw [position, Option.elim_none]

theorem position_first {lit s : Bytes} {i n : ℕ} (hne : lit ≠ []) (h : FirstAt lit s i) :
    position (first lit (s.take n)) = if i + lit.length ≤ n then toInt i else -1 := by
  split
  · rename_i hle
    rw [(first_eq_some_iff hne).mpr ((firstAt_take_iff hne).mpr ⟨h, hle⟩), position_some]
  · rename_i hlt
    have hnone : first lit (s.take n) = none := (first_eq_none_iff hne).mpr fun j hj => by
      obtain ⟨hj, hle⟩ := (firstAt_take_iff hne).mp hj
      exact hlt (h.unique hj ▸ hle)
    rw [hnone, position_none]

theorem position_first_none {lit s : Bytes} {n : ℕ} (hne : lit ≠ []) (h : ∀ i, ¬ FirstAt lit s i) :
    position (first lit (s.take n)) = -1 := by
  have hnone : first lit (s.take n) = none := (first_eq_none_iff hne).mpr fun j hj =>
    h j ((firstAt_take_iff hne).mp hj).1
  rw [hnone, position_none]

variable {r : Response} {c n : ℕ}

theorem four_le_head (r : Response) : 4 ≤ r.head.length := by
  rw [Response.head, block_cons]
  have hpos := List.length_pos_iff.mpr r.status.ne_nil
  simp only [List.length_append, List.length_cons, block, crlf]
  omega

theorem head_le (r : Response) : r.head.length ≤ r.render.length := by
  rw [Response.render, List.length_append]
  exact Nat.le_add_right _ _

/-- The header block is found when its last byte is there. -/
theorem bufferFind_take (r : Response) (n : ℕ) :
    bufferFind (r.render.take n) headerTerminator =
      if r.head.length ≤ n then toInt ((r.head.length - 4 : ℕ) : ℤ) else -1 := by
  have hfirst : FirstAt headerTerminator r.render (r.head.length - 4) := by
    rw [show headerTerminator = crlf ++ crlf by decide]
    exact terminator_first r.status r.lines r.body
  rw [bufferFind, position_first (by decide) hfirst, show headerTerminator.length = 4 by decide,
    Nat.sub_add_cancel (four_le_head r)]

/-- So is the text in front of the number. -/
theorem bufferFindInsensitive_take (hc : NameAt r.render c) (n : ℕ) :
    bufferFindInsensitive (r.render.take n) contentLength = if c + 16 ≤ n then toInt c else -1 := by
  rw [bufferFindInsensitive, lower, lower, List.map_take]
  exact position_first (by decide) hc

theorem bufferFindInsensitive_none (hnone : ∀ c, ¬ NameAt r.render c) (n : ℕ) :
    bufferFindInsensitive (r.render.take n) contentLength = -1 := by
  rw [bufferFindInsensitive, lower, lower, List.map_take]
  exact position_first_none (by decide) hnone

/-! ### The first loop -/

/-- What is left of the response after `n` bytes have been read when both texts were found. -/
def finish (r : Response) (c n : ℕ) (reads : List Read) : Outcome :=
  (strtol (r.render.take n) (toInt (c + 16))).elim .undefined fun v =>
    receiveBody (total v (toInt r.head.length)) (r.render.take n) reads

/-- Both positions come out of `int` as positions. -/
def InRange (r : Response) (c : ℕ) : Prop := 0 ≤ toInt ((r.head.length - 4 : ℕ) : ℤ) ∧ 0 ≤ toInt c

theorem toInt_add (a b : ℤ) : toInt (toInt a + b) = toInt (a + b) := Int.bmod_add_bmod ..

/-- One read: the loop goes on as long as a text is missing. -/
theorem receiveHead_data (hc : NameAt r.render c) (hin : InRange r c) {buffer piece : Bytes}
    (hbuf : buffer ++ piece = r.render.take n) (h : ℤ) (reads : List Read) :
    if max r.head.length (c + 16) ≤ n then
      receiveHead h buffer (.data piece :: reads) = finish r c n reads
    else ∃ h', receiveHead h buffer (.data piece :: reads) = receiveHead h' (r.render.take n) reads := by
  have hlen := four_le_head r
  obtain ⟨hhead, hname⟩ := hin
  have hend : toInt (toInt ((r.head.length - 4 : ℕ) : ℤ) + 4) = toInt r.head.length := by
    rw [toInt_add]
    congr 1
  simp only [receiveHead, hbuf, bufferFind_take, bufferFindInsensitive_take hc]
  by_cases h1 : r.head.length ≤ n
  · by_cases h2 : c + 16 ≤ n
    · rw [if_pos (max_le h1 h2), if_pos h1, if_pos h2, if_pos hhead, if_neg (not_lt.mpr hname), hend, toInt_add,
        finish]
      cases strtol (r.render.take n) (toInt (c + 16)) <;> rfl
    · rw [if_neg (by omega), if_pos h1, if_neg h2, if_pos hhead, if_pos (by decide)]
      exact ⟨_, rfl⟩
  · rw [if_neg (by omega), if_neg h1, if_neg (by decide)]
    exact ⟨_, rfl⟩

/-- The next piece. -/
theorem take_append_of_drop {s p : Bytes} {ps : List Bytes} (h : (p :: ps).flatten = s.drop n) :
    s.take n ++ p = s.take (n + p.length) ∧ ps.flatten = s.drop (n + p.length) := by
  rw [List.flatten_cons] at h
  rw [List.take_add, ← List.drop_drop, ← h, List.take_left, List.drop_left]
  exact ⟨rfl, rfl⟩

/-- Without the texts the loop goes on. -/
theorem receiveHead_on (hnever : ∀ c, NameAt r.render c → ¬ InRange r c) {buffer piece : Bytes}
    (hbuf : buffer ++ piece = r.render.take n) (h : ℤ) (reads : List Read) :
    ∃ h', receiveHead h buffer (.data piece :: reads) = receiveHead h' (r.render.take n) reads := by
  simp only [receiveHead, hbuf, bufferFind_take]
  by_cases hhead : 0 ≤ if r.head.length ≤ n then toInt ((r.head.length - 4 : ℕ) : ℤ) else -1
  · have hstart : bufferFindInsensitive (r.render.take n) contentLength < 0 := by
      by_cases hname : ∃ c, NameAt r.render c
      · obtain ⟨c, hc⟩ := hname
        rw [bufferFindInsensitive_take hc]
        split at hhead
        · have hneg : ¬ 0 ≤ toInt c := fun hpos => hnever c hc ⟨hhead, hpos⟩
          split <;> omega
        · exact absurd hhead (by decide)
      · rw [bufferFindInsensitive_none fun c hc => hname ⟨c, hc⟩]
        decide
    rw [if_pos hhead, if_pos hstart]
    exact ⟨_, rfl⟩
  · rw [if_neg hhead]
    exact ⟨_, rfl⟩

theorem receiveHead_blocked (hnever : ∀ c, NameAt r.render c → ¬ InRange r c) {pieces : List Bytes}
    (hjoin : pieces.flatten = r.render.drop n) (h : ℤ) :
    receiveHead h (r.render.take n) (pieces.map .data) = .blocked := by
  induction pieces generalizing n h with
  | nil => rfl
  | cons p ps ih =>
    obtain ⟨hbuf, hrest⟩ := take_append_of_drop hjoin
    obtain ⟨h', hgo⟩ := receiveHead_on hnever hbuf h (ps.map .data)
    rw [List.map_cons, hgo]
    exact ih hrest h'

theorem max_le_render (hc : NameAt r.render c) : max r.head.length (c + 16) ≤ r.render.length := by
  have hle := add_length_le (by decide) hc.1
  rw [lower, lower, List.length_map, List.length_map] at hle
  exact max_le (head_le r) hle

/-- **The first loop ends with the first read that reaches both texts.** -/
theorem receiveHead_split (hc : NameAt r.render c) (hin : InRange r c) {pieces : List Bytes}
    (hjoin : pieces.flatten = r.render.drop n) (hn : n < max r.head.length (c + 16)) (h : ℤ) :
    ∃ pre p post, pieces = pre ++ p :: post ∧
      n + pre.flatten.length < max r.head.length (c + 16) ∧
      max r.head.length (c + 16) ≤ n + pre.flatten.length + p.length ∧
      post.flatten = r.render.drop (n + pre.flatten.length + p.length) ∧
      receiveHead h (r.render.take n) (pieces.map .data) =
        finish r c (n + pre.flatten.length + p.length) (post.map .data) := by
  induction pieces generalizing n h with
  | nil =>
    have hle := max_le_render hc
    rw [List.flatten_nil, eq_comm, List.drop_eq_nil_iff] at hjoin
    omega
  | cons p ps ih =>
    obtain ⟨hbuf, hrest⟩ := take_append_of_drop hjoin
    have hstep := receiveHead_data hc hin hbuf h (ps.map .data)
    rw [List.map_cons]
    by_cases hreach : max r.head.length (c + 16) ≤ n + p.length
    · rw [if_pos hreach] at hstep
      exact ⟨[], p, ps, rfl, hn, hreach, hrest, hstep⟩
    · rw [if_neg hreach] at hstep
      obtain ⟨h', hstep⟩ := hstep
      obtain ⟨pre, q, post, rfl, hbefore, hafter, hpost, hrun⟩ := ih hrest (not_le.mp hreach) h'
      have hsum : n + (p :: pre).flatten.length = n + p.length + pre.flatten.length := by
        rw [List.flatten_cons, List.length_append, Nat.add_assoc]
      refine ⟨p :: pre, q, post, rfl, ?_, ?_, ?_, ?_⟩
      · rwa [hsum]
      · rwa [hsum]
      · rwa [hsum]
      · rw [hsum, hstep, hrun]

/-! ### The second loop -/

/-- Reading on up to the end of the response. -/
theorem receiveBody_of_max {t : ℕ} {pieces : List Bytes} (hmax : max t n = r.render.length)
    (hjoin : pieces.flatten = r.render.drop n) (hne : ∀ p ∈ pieces, p ≠ []) :
    receiveBody t (r.render.take n) (pieces.map .data) = .returned (r.render ++ [0]) [] := by
  have hlen : (r.render.take n).length = n := by
    rw [List.length_take]
    omega
  induction pieces generalizing n with
  | nil =>
    rw [List.flatten_nil, eq_comm, List.drop_eq_nil_iff] at hjoin
    rw [List.map_nil, receiveBody, if_neg (by omega), List.take_of_length_le hjoin]
  | cons p ps ih =>
    obtain ⟨hbuf, hrest⟩ := take_append_of_drop hjoin
    have hpos := List.length_pos_iff.mpr (hne p List.mem_cons_self)
    have hsum : p.length + ps.flatten.length = r.render.length - n := by
      rw [← List.length_drop, ← hjoin, List.flatten_cons, List.length_append]
    have hgo : (r.render.take n).length < t := by omega
    rw [List.map_cons, receiveBody, if_pos hgo]
    simp only [hbuf]
    exact ih (by omega) hrest (fun q hq => hne q (List.mem_cons_of_mem _ hq))
      (by rw [List.length_take]; omega)

/-- Byte by byte the second loop ends at the larger of its two bounds. -/
theorem max_of_receiveBody {t : ℕ} {pieces : List Bytes} (hn : n ≤ r.render.length)
    (hjoin : pieces.flatten = r.render.drop n) (hone : ∀ p ∈ pieces, p.length = 1)
    (h : receiveBody t (r.render.take n) (pieces.map .data) = .returned (r.render ++ [0]) []) :
    max t n = r.render.length := by
  have hlen : (r.render.take n).length = n := List.length_take_of_le hn
  induction pieces generalizing n with
  | nil =>
    rw [List.flatten_nil, eq_comm, List.drop_eq_nil_iff] at hjoin
    rw [List.map_nil, receiveBody, hlen] at h
    split at h
    · cases h
    · omega
  | cons p ps ih =>
    obtain ⟨hbuf, hrest⟩ := take_append_of_drop hjoin
    have hp : p.length = 1 := hone p List.mem_cons_self
    have hlt : n < r.render.length := by
      have hsum := congrArg List.length hjoin
      rw [List.flatten_cons, List.length_append, List.length_drop] at hsum
      omega
    rw [hp] at hbuf hrest
    rw [List.map_cons, receiveBody, hlen] at h
    split at h
    · simp only [hbuf] at h
      have hmax := ih hlt hrest (fun q hq => hone q (List.mem_cons_of_mem _ hq)) h (List.length_take_of_le hlt)
      omega
    · cases (Outcome.returned.inj h).2

/-! ### The number -/

/-- What is read from a part of the buffer does not change when the buffer grows. -/
theorem strtol_grow {s : Bytes} {m : ℕ} {start v : ℤ} (h : strtol (s.take n) start = some v) (hm : n ≤ m) :
    strtol (s.take m) start = some v := by
  rw [strtol, Option.ite_none_left_eq_some, not_or] at h
  obtain ⟨⟨hpos, hends⟩, hv⟩ := h
  obtain ⟨t, hgrow⟩ := (List.take_prefix_take_left (l := s) hm).drop start.toNat
  obtain ⟨hends', hsame⟩ := atoi_append hends t
  rw [strtol, ← hgrow, if_neg (not_or.mpr ⟨hpos, hends'⟩), hsame, hv]

/-! ### Every way of cutting -/

/-- The loops stop at the end of the response: `max` of the bytes needed to leave the first loop, and of those
announced, both as computed in `int`. -/
def StopsAtEnd (r : Response) : Prop :=
  ∃ c v, NameAt r.render c ∧ InRange r c ∧
    strtol (r.render.take (max r.head.length (c + 16))) (toInt (c + 16)) = some v ∧
    max (total v (toInt r.head.length)) (max r.head.length (c + 16)) = r.render.length

theorem received_of_stopsAtEnd (h : StopsAtEnd r) : Received r := by
  obtain ⟨c, v, hc, hin, hnumber, hmax⟩ := h
  have hlen := four_le_head r
  rintro pieces ⟨hjoin, hne, -⟩
  obtain ⟨pre, p, post, rfl, -, hreach, hpost, hrun⟩ :=
    receiveHead_split (n := 0) hc hin hjoin (by omega) 0
  have hpost_ne : ∀ q ∈ post, q ≠ [] := fun q hq => hne q (by simp [hq])
  have hle : 0 + pre.flatten.length + p.length ≤ r.render.length := by
    have hsum := congrArg List.length hjoin
    simp only [List.flatten_append, List.flatten_cons, List.length_append] at hsum
    omega
  rw [List.take_zero] at hrun
  rw [receiveFromServer, hrun, finish, strtol_grow hnumber hreach, Option.elim_some]
  exact receiveBody_of_max (by omega) hpost hpost_ne

/-- The pieces of one byte. -/
theorem cut_bytes (s : Bytes) : Cut s (s.map fun b => [b]) where
  join := by induction s <;> simp_all
  nonempty := by simp
  fits := by simp

theorem stopsAtEnd_of_received (h : Received r) : StopsAtEnd r := by
  have hbytes := h _ (cut_bytes r.render)
  have hone : ∀ p ∈ r.render.map fun b => [b], p.length = 1 := by simp
  have hjoin : (r.render.map fun b => [b]).flatten = r.render.drop 0 := (cut_bytes r.render).join
  have hlen := four_le_head r
  by_cases hsome : ∃ c, NameAt r.render c ∧ InRange r c
  · obtain ⟨c, hc, hin⟩ := hsome
    obtain ⟨pre, p, post, hsplit, hbefore, hreach, hpost, hrun⟩ :=
      receiveHead_split (n := 0) hc hin hjoin (by omega) 0
    rw [hsplit] at hone
    have hp : p.length = 1 := hone p (by simp)
    have hstop : 0 + pre.flatten.length + p.length = max r.head.length (c + 16) := by omega
    rw [List.take_zero, hstop] at hrun
    rw [receiveFromServer, hrun, finish] at hbytes
    rw [hstop] at hpost
    cases hnumber : strtol (r.render.take (max r.head.length (c + 16))) (toInt (c + 16)) with
    | none =>
      rw [hnumber] at hbytes
      cases hbytes
    | some v =>
      rw [hnumber] at hbytes
      exact ⟨c, v, hc, hin, hnumber, max_of_receiveBody (max_le_render hc) hpost
        (fun q hq => hone q (by simp [hq])) hbytes⟩
  · have hblocked := receiveHead_blocked (n := 0) (fun c hc hin => hsome ⟨c, hc, hin⟩) hjoin 0
    rw [List.take_zero] at hblocked
    rw [receiveFromServer, hblocked] at hbytes
    cases hbytes

/-! ### Below the limits of `int` -/

/-- The text `Content-Length: ` occurs in the header block, in any case of its letters, and the number read behind its
first occurrence is the length of the body; for an empty body, it may be negative. -/
def Announced (r : Response) : Prop :=
  ∃ c v, NameAt r.head c ∧ strtol r.head (c + 16) = some v ∧
    -(r.head.length : ℤ) ≤ v ∧ max v 0 = r.body.length

theorem take_head (r : Response) : r.render.take r.head.length = r.head := List.take_left

theorem length_render (r : Response) : r.render.length = r.head.length + r.body.length := List.length_append

theorem nameAt_head_iff : NameAt r.head c ↔ NameAt r.render c ∧ c + 16 ≤ r.head.length := by
  have htake : lower r.head = (lower r.render).take r.head.length := by
    rw [lower, lower, ← List.map_take, take_head]
  rw [NameAt, htake, firstAt_take_iff (by decide)]
  rfl

theorem toInt_of_lt {k : ℕ} (hk : k < 2 ^ 31) : toInt k = k := toInt_eq_self (by omega) (by omega)

/-- A position from `2 ^ 31` on is negative. -/
theorem lt_of_toInt_nonneg {k : ℕ} (hk : k < 2 ^ 32) (h : 0 ≤ toInt k) : k < 2 ^ 31 := by
  by_contra hge
  have hwrap : toInt k = (k : ℤ) - 2 ^ 32 := by
    rw [toInt, Int.bmod_eq_iff (by decide)]
    omega
  omega

theorem strtol_fits {s : Bytes} {start v : ℤ} (h : strtol s start = some v) : FitsInt v := by
  rw [strtol, Option.ite_none_left_eq_some] at h
  exact Option.some.inj h.2 ▸ fitsInt_atoi _

theorem total_of_nonneg {a b : ℤ} (hlo : 0 ≤ a + b) (hhi : a + b < 2 ^ 64) : (total a b : ℤ) = a + b := by
  rw [total, Int.emod_eq_of_lt hlo hhi, Int.toNat_of_nonneg hlo]

theorem total_of_neg {a b : ℤ} (hlo : -2 ^ 63 ≤ a + b) (hhi : a + b < 0) : 2 ^ 63 ≤ total a b := by
  rw [total]
  omega

theorem stopsAtEnd_iff (hhead : r.head.length < 2 ^ 31) (hlen : r.render.length < 2 ^ 32) :
    StopsAtEnd r ↔ Announced r := by
  have hfour := four_le_head r
  have hrender := length_render r
  constructor
  · rintro ⟨c, v, hc, ⟨-, hpos⟩, hnumber, hmax⟩
    have hreach := max_le_render hc
    have hstart : c + 16 < 2 ^ 31 := by
      refine lt_of_toInt_nonneg (by omega) ?_
      rw [strtol, Option.ite_none_left_eq_some, not_or, not_lt] at hnumber
      rw [Nat.cast_add]
      exact hnumber.1.1
    have hint : toInt ((c : ℤ) + 16) = c + 16 := toInt_eq_self (by omega) (by omega)
    obtain ⟨hvlo, hvhi⟩ := strtol_fits hnumber
    -- a text found behind the header block has no byte behind it yet when the first loop ends
    have hle : c + 16 ≤ r.head.length := by
      by_contra hlt
      rw [max_eq_right (by omega), hint, strtol, Option.ite_none_left_eq_some,
        List.drop_eq_nil_of_le (by rw [List.length_take]; omega)] at hnumber
      exact hnumber.1 (Or.inr rfl)
    rw [max_eq_left hle, take_head, hint] at hnumber
    rw [max_eq_left hle, toInt_of_lt hhead] at hmax
    refine ⟨c, v, nameAt_head_iff.mpr ⟨hc, hle⟩, hnumber, ?_⟩
    by_cases hneg : v + r.head.length < 0
    · have hhuge := total_of_neg (by omega) hneg
      omega
    · have htotal := total_of_nonneg (a := v) (b := r.head.length) (by omega) (by omega)
      omega
  · rintro ⟨c, v, hc, hnumber, hlo, hmax⟩
    obtain ⟨hc, hle⟩ := nameAt_head_iff.mp hc
    obtain ⟨hvlo, hvhi⟩ := strtol_fits hnumber
    have hstop : max r.head.length (c + 16) = r.head.length := max_eq_left hle
    have hint : toInt ((c : ℤ) + 16) = c + 16 := toInt_eq_self (by omega) (by omega)
    have htotal := total_of_nonneg (a := v) (b := r.head.length) (by omega) (by omega)
    refine ⟨c, v, hc, ⟨?_, ?_⟩, ?_, ?_⟩
    · rw [toInt_of_lt (by omega)]
      exact Int.natCast_nonneg _
    · rw [toInt_of_lt (by omega)]
      exact Int.natCast_nonneg _
    · rw [hstop, take_head, hint, hnumber]
    · rw [hstop, toInt_of_lt hhead]
      omega

/-! ### The spelling the client looks for -/

/-- The line has the text `Content-Length: ` in it, in any case of its letters. -/
def Mentions (l : Line) : Prop := lower contentLength <:+: lower l.bytes

theorem nameAt_append_line {l : Line} (hl : ¬ Mentions l) {s : Bytes} {i : ℕ} (h : NameAt s i) :
    NameAt (l.bytes ++ 13 :: 10 :: s) (l.bytes.length + 2 + i) := by
  have hlit : lower contentLength ≠ [] := by decide
  have hlower : lower (l.bytes ++ 13 :: 10 :: s) = lower l.bytes ++ 13 :: ([] ++ 10 :: lower s) := by
    simp [lower, toLower]
  have hlen : (lower l.bytes).length = l.bytes.length := List.length_map _
  have hpos : l.bytes.length + 2 + i = l.bytes.length + 1 + (0 + 1 + i) := by omega
  have hnewline := FirstAt.append_line h hlit (a := 10) (by decide) (l := []) (by decide)
  have hline := FirstAt.append_line hnewline hlit (a := 13) (by decide) hl
  rw [NameAt, hlower, hpos, ← hlen]
  exact hline

/-- Lines that do not mention it are passed over. -/
theorem nameAt_append_lines {ls : List Line} (hls : ∀ l ∈ ls, ¬ Mentions l) {s : Bytes} {i : ℕ} (h : NameAt s i) :
    NameAt (ls.flatMap (fun l => l.bytes ++ crlf) ++ s)
      ((ls.flatMap fun l => l.bytes ++ crlf).length + i) := by
  induction ls with
  | nil => simpa using h
  | cons l ls ih =>
    have hrest := nameAt_append_line (hls l List.mem_cons_self) (ih fun l' hl' => hls l' (List.mem_cons_of_mem _ hl'))
    convert hrest using 1
    · simp [crlf]
    · simp only [List.flatMap_cons, List.length_append, crlf, List.length_cons, List.length_nil]
      omega

/-- The lines in front of the `Content-Length` field. -/
def linesBefore (r : Response) : List Line := r.status :: r.fieldsBefore.map Field.line

/-- What is behind the blank of the field. -/
def number (r : Response) (blanks : Bytes) : Bytes :=
  blanks ++ r.contentLength.digits ++ r.contentLength.after ++ 13 :: 10 :: block (r.fieldsAfter.map Field.line)

theorem head_eq {blanks : Bytes} (hb : r.contentLength.before = 32 :: blanks) :
    r.head = (linesBefore r).flatMap (fun l => l.bytes ++ crlf) ++
      ((r.contentLength.name ++ [58, 32]) ++ number r blanks) := by
  simp [Response.head, Response.lines, linesBefore, number, block, crlf, LengthField.field, Field.line, hb]

theorem length_name (r : Response) : r.contentLength.name.length = 14 := by
  have hlen := congrArg List.length r.contentLength.spelled
  rw [lower, List.length_map] at hlen
  exact hlen

theorem nameAt_field (r : Response) (s : Bytes) : NameAt ((r.contentLength.name ++ [58, 32]) ++ s) 0 := by
  have hname : lower (r.contentLength.name ++ [58, 32]) = lower contentLength := by
    rw [lower, List.map_append]
    exact congrArg (· ++ [58, 32]) r.contentLength.spelled
  have hlower : lower ((r.contentLength.name ++ [58, 32]) ++ s) = lower contentLength ++ lower s := by
    rw [← hname]
    exact List.map_append
  refine ⟨?_, fun j hj => absurd hj j.not_lt_zero⟩
  rw [List.drop_zero, hlower]
  exact List.prefix_append _ _

theorem strtol_number (r : Response) {blanks : Bytes} (pre : Bytes) (hblank : ∀ c ∈ blanks, isBlank c = true)
    (hsmall : r.body.length < 2 ^ 31) {start : ℤ} (hstart : start = pre.length) :
    strtol (pre ++ number r blanks) start = some (r.body.length : ℤ) := by
  obtain ⟨d, ds, hds⟩ := List.exists_cons_of_ne_nil r.contentLength.ne_nil
  obtain ⟨hspace, hminus, hplus, -⟩ := isDigit_facts (r.contentLength.decimal d (hds ▸ List.mem_cons_self))
  obtain ⟨rest, hnumber, hrest⟩ : ∃ rest, number r blanks = blanks ++ (r.contentLength.digits ++ rest) ∧
      (rest ≠ [] ∧ StopsAt isDigit rest) := by
    refine ⟨_, by rw [number, List.append_assoc, List.append_assoc], by simp, ?_⟩
    cases hafter : r.contentLength.after with
    | nil => exact show isDigit 13 = false by decide
    | cons b bs =>
      have hb := r.contentLength.blank_after b (hafter ▸ List.mem_cons_self)
      simp only [isBlank, Bool.or_eq_true, beq_iff_eq] at hb
      rcases hb with rfl | rfl
      · exact show isDigit 32 = false by decide
      · exact show isDigit 9 = false by decide
  have hskip : skipSpace (number r blanks) = r.contentLength.digits ++ rest := by
    rw [hnumber]
    refine dropWhile_append_stop (fun c hc => ?_) (by rw [hds]; exact hspace)
    have hb := hblank c hc
    simp only [isBlank, Bool.or_eq_true, beq_iff_eq] at hb
    rcases hb with rfl | rfl <;> decide
  have hsign : scanSign (r.contentLength.digits ++ rest) = (false, r.contentLength.digits ++ rest) := by
    rw [hds]
    exact scanSign_of_ne hminus hplus
  have hscan : scanInt (number r blanks) = some ((r.body.length : ℤ), rest) :=
    scanInt_of_digits hskip hsign r.contentLength.ne_nil r.contentLength.decimal hrest.2
      (by rw [r.contentLength.announces]; rfl) ⟨by omega, by omega⟩
  rw [hstart, strtol, Int.toNat_natCast, List.drop_left, hskip, hsign, if_neg]
  · rw [atoi, hscan, Option.map_some, Option.getD_some]
  · rw [dropWhile_append_stop r.contentLength.decimal hrest.2, not_or]
    exact ⟨by omega, hrest.1⟩

/-- **A response is received however it is cut** if its field is spelled with a space behind the colon, and no line in
front of it mentions the name. -/
theorem received_of_blank {blanks : Bytes} (hspelled : r.contentLength.before = 32 :: blanks)
    (hbefore : ∀ l ∈ linesBefore r, ¬ Mentions l) (hbody : r.body.length < 2 ^ 31) (hhead : r.head.length < 2 ^ 31) :
    Received r := by
  have hrender := length_render r
  have hblank : ∀ c ∈ blanks, isBlank c = true := fun c hc =>
    r.contentLength.blank_before c (hspelled ▸ List.mem_cons_of_mem _ hc)
  have hname := nameAt_append_lines hbefore (nameAt_field r (number r blanks))
  have hnumber := strtol_number r ((linesBefore r).flatMap (fun l => l.bytes ++ crlf) ++
    (r.contentLength.name ++ [58, 32])) hblank hbody rfl
  rw [List.append_assoc, ← head_eq hspelled] at hnumber
  rw [← head_eq hspelled] at hname
  have hlen : (r.contentLength.name ++ [58, 32]).length = 16 := by
    rw [List.length_append, length_name]
    rfl
  refine received_of_stopsAtEnd ((stopsAtEnd_iff hhead (by omega)).mpr ⟨_, r.body.length, hname, ?_, ?_, ?_⟩)
  · rw [← hnumber, List.length_append, hlen]
    rfl
  · omega
  · omega

/-! ### The exact condition -/

/-- **Received however it is cut**: exactly when the loops stop at the end, and, as long as all lengths are within their
types, exactly when the header block announces the length where the client looks for it. -/
theorem received_iff (r : Response) : (Received r ↔ StopsAtEnd r) ∧
    (r.head.length < 2 ^ 31 → r.render.length < 2 ^ 32 → (Received r ↔ Announced r)) :=
  have hstops : Received r ↔ StopsAtEnd r := ⟨stopsAtEnd_of_received, received_of_stopsAtEnd⟩
  ⟨hstops, fun hhead hlen => hstops.trans (stopsAtEnd_iff hhead hlen)⟩

/-- Five bytes, announced with some blanks behind the colon. -/
def hello (blanks : Bytes) (hblanks : ∀ c ∈ blanks, isBlank c = true) : Response where
  code := ascii "200"
  reason := ascii "OK"
  fieldsBefore := []
  body := ascii "hello"
  contentLength := ⟨ascii "Content-Length", blanks, ascii "5", [], by decide, hblanks, by decide, by decide,
    by decide, by decide⟩
  fieldsAfter := []
  three_digits := by decide
  text := by decide
  once := by decide

theorem hello_received : Received (hello (ascii " ") (by decide)) :=
  ((received_iff (hello (ascii " ") (by decide))).2 (by decide) (by decide)).mpr
    ⟨17, 5, by decide +kernel, by decide +kernel, by decide, by decide⟩

/-- **Without a blank behind the colon** the client waits for ever. -/
theorem unspaced_blocks : ∃ r : Response, r.contentLength.before = [] ∧
    receiveFromServer [.data r.render] = .blocked ∧ ¬ Received r := by
  have hblocked : receiveFromServer [.data (hello [] (by decide)).render] = .blocked := by decide +kernel
  have hcut : Cut (hello [] (by decide)).render [(hello [] (by decide)).render] := ⟨by simp, by decide, by decide⟩
  refine ⟨hello [] (by decide), rfl, hblocked, fun hreceived => ?_⟩
  have hreturned := hreceived _ hcut
  rw [List.map_singleton, hblocked] at hreturned
  cases hreturned

end Pcom.Tema3.Receive
