import Pcom.Lib.Chain

/-!
# The queue of `Tema1/queue.c`

A queue is a chain of cells on the heap that leads from `head`, the oldest, to `tail`, the newest.  Dequeueing
frees the first cell and leaves `tail` alone, so that in an empty queue `tail` points to a freed cell.  A failed
`assert`, as well as a null or dangling pointer followed, is `none`.

* `Represents` — the invariant: the queue is a chain of these cells, and while there are any `tail` is the last;
* `Represents.enq`, `Represents.deq` — what one call preserves;
* `queue_fifo` — **the queue is a FIFO** over every sequence of calls.
-/

namespace Pcom.Tema1.CellQueue

open Function Pcom.Lib.Chain

variable {α : Type*}

/-- `struct cell`. -/
structure Cell (α : Type*) where
  element : α
  next : Option ℕ

/-- The part of the heap that holds the cells. -/
abbrev Heap (α : Type*) := ℕ → Option (Cell α)

/-- `struct queue`, with its cells. -/
structure Queue (α : Type*) where
  head : Option ℕ
  tail : Option ℕ
  heap : Heap α

/-- `cons`; `temp` is the address `malloc` returns. -/
def cons (heap : Heap α) (temp : ℕ) (element : α) (l : Option ℕ) : Heap α := update heap temp (some ⟨element, l⟩)

/-- `cdr_and_free`: the next cell, and the heap. -/
def cdrAndFree (heap : Heap α) (l : ℕ) : Option (Option ℕ × Heap α) :=
  (heap l).map fun c => (c.next, update heap l none)

/-- `queue_create`. -/
def queueCreate : Queue α := ⟨none, none, fun _ => none⟩

/-- `queue_empty`. -/
def queueEmpty (q : Queue α) : Bool := q.head.isNone

/-- `queue_enq`. -/
def queueEnq (q : Queue α) (temp : ℕ) (element : α) : Option (Queue α) :=
  let heap := cons q.heap temp element none
  if queueEmpty q then some ⟨some temp, some temp, heap⟩
  else
    match q.tail with
    | none => none
    | some tail => (heap tail).map fun c => ⟨q.head, some temp, update heap tail (some { c with next := some temp })⟩

/-- `queue_deq`: the element, and the queue. -/
def queueDeq (q : Queue α) : Option (α × Queue α) :=
  match q.head with
  | none => none
  | some head =>
    (q.heap head).bind fun c => (cdrAndFree q.heap head).map fun r => (c.element, ⟨r.1, q.tail, r.2⟩)

/-! ### One call -/

variable {q : Queue α} {cells : List (ℕ × α)}

/-- The queue is the chain of these cells, oldest first, and nothing else is on its heap; the tail counts only
while there are cells. -/
structure Represents (q : Queue α) (cells : List (ℕ × α)) : Prop where
  linked : Linked Cell.mk q.heap cells
  nodup : (cells.map Prod.fst).Nodup
  domain : ∀ a, q.heap a ≠ none → a ∈ cells.map Prod.fst
  head : q.head = start cells
  tail : cells ≠ [] → q.tail = cells.getLast?.map Prod.fst

theorem represents_queueCreate : Represents (queueCreate : Queue α) [] :=
  ⟨trivial, List.nodup_nil, fun _ h => absurd rfl h, rfl, fun h => absurd rfl h⟩

theorem Represents.queueEmpty_eq (h : Represents q cells) : queueEmpty q = cells.isEmpty := by
  rw [queueEmpty, h.head]
  cases cells <;> rfl

theorem Represents.owned (h : Represents q cells) : Owned Cell.mk q.heap cells := ⟨h.linked, h.nodup, h.domain⟩

/-- **Enqueueing** adds at the end, whatever the tail of an empty queue is. -/
theorem Represents.enq (h : Represents q cells) {temp : ℕ} (hfree : q.heap temp = none) (element : α) :
    ∃ q', queueEnq q temp element = some q' ∧ Represents q' (cells ++ [(temp, element)]) := by
  have hout := h.linked.notMem hfree
  have hempty := h.queueEmpty_eq
  rcases List.eq_nil_or_concat cells with rfl | ⟨cells, ⟨f, x⟩, rfl⟩
  · have heq : queueEnq q temp element = some ⟨some temp, some temp, cons q.heap temp element none⟩ := by
      rw [queueEnq, if_pos (show queueEmpty q = true from hempty)]
    have howned := h.owned.singleton temp element
    exact ⟨_, heq, howned.linked, howned.nodup, howned.domain, rfl, fun _ => rfl⟩
  · rw [List.concat_eq_append] at h hout hempty ⊢
    have htail : q.tail = some f := by
      rw [h.tail (by simp)]
      simp
    have hft : f ≠ temp := fun heq => hout (by simp [heq])
    have hf : cons q.heap temp element none f = some ⟨x, none⟩ := (update_of_ne hft ..).trans h.linked.last
    have heq : queueEnq q temp element = some ⟨q.head, some temp,
        update (update q.heap f (some ⟨x, some temp⟩)) temp (some ⟨element, none⟩)⟩ := by
      have hsome : queueEmpty q = false := by
        rw [hempty]
        simp
      rw [queueEnq, hsome, if_neg Bool.false_ne_true, htail]
      simp only [hf, Option.map_some]
      rw [cons, update_comm hft]
    have howned := h.owned.concat hfree element
    refine ⟨_, heq, howned.linked, howned.nodup, howned.domain, ?_, fun _ => ?_⟩
    · rw [h.head]
      cases cells <;> rfl
    · simp

/-- **Dequeueing** takes the oldest element and leaves the tail alone. -/
theorem Represents.deq {a : ℕ} {x : α} (h : Represents q ((a, x) :: cells)) :
    ∃ q', queueDeq q = some (x, q') ∧ Represents q' cells := by
  have hhead : q.head = some a := h.head
  have hcell := h.linked.1
  have howned := h.owned.free
  have heq : queueDeq q = some (x, ⟨start cells, q.tail, update q.heap a none⟩) := by
    simp only [queueDeq, cdrAndFree, hhead, hcell, Option.bind_some, Option.map_some]
  refine ⟨_, heq, howned.linked, howned.nodup, howned.domain, rfl, fun hne => ?_⟩
  show q.tail = _
  rw [h.tail (List.cons_ne_nil _ _), List.getLast?_cons_of_ne_nil hne]

/-- While there are cells the tail is the last that is reached from the head. -/
theorem Represents.last (h : Represents q cells) (hne : queueEmpty q = false) :
    ∃ t, q.tail = some t ∧ Last Cell.next q.heap q.head t := by
  rw [h.queueEmpty_eq] at hne
  rcases List.eq_nil_or_concat cells with rfl | ⟨cells, ⟨f, x⟩, rfl⟩
  · cases hne
  · rw [List.concat_eq_append] at h
    refine ⟨f, ?_, ?_⟩
    · rw [h.tail (by simp)]
      simp
    · rw [h.head]
      exact h.linked.reachable_last fun _ _ => rfl

/-- In an empty queue the tail points to no cell. -/
theorem Represents.stale (h : Represents q cells) (hempty : queueEmpty q = true) (t : ℕ) : q.heap t = none := by
  rw [h.queueEmpty_eq, List.isEmpty_iff] at hempty
  by_contra hne
  have hmem := h.domain t hne
  rw [hempty] at hmem
  exact absurd hmem List.not_mem_nil

/-! ### Sequences of calls -/

/-- A call; the address is what `malloc` returns. -/
inductive Call (α : Type*)
  | enq (temp : ℕ) (element : α)
  | deq

/-- A call, with the element it returns. -/
def call (q : Queue α) : Call α → Option (Queue α × List α)
  | .enq temp element => (queueEnq q temp element).map fun q' => (q', [])
  | .deq => (queueDeq q).map fun r => (r.2, [r.1])

/-- A sequence of calls, with the elements they return. -/
def run : Queue α → List (Call α) → Option (Queue α × List α)
  | q, [] => some (q, [])
  | q, c :: calls => (call q c).bind fun r => (run r.1 calls).map fun r' => (r'.1, r.2 ++ r'.2)

/-- `queue_deq` is only called when `queue_empty` is false, and `malloc` returns free addresses. -/
def allowed (q : Queue α) : Call α → Bool
  | .enq temp _ => (q.heap temp).isNone
  | .deq => !queueEmpty q

/-- Every call of the sequence is allowed where it is made. -/
def Allowed : Queue α → List (Call α) → Prop
  | _, [] => True
  | q, c :: calls => allowed q c = true ∧ ∀ q' out, call q c = some (q', out) → Allowed q' calls

/-- The elements enqueued. -/
def enqueued : List (Call α) → List α
  | [] => []
  | .enq _ element :: calls => element :: enqueued calls
  | .deq :: calls => enqueued calls

/-- What a call does to the cells: what was in the queue and what comes in is what goes out and what stays. -/
theorem Represents.call (h : Represents q cells) {c : Call α} (hallowed : allowed q c = true) :
    ∃ q' out cells', call q c = some (q', out) ∧ Represents q' cells' ∧
      cells.map Prod.snd ++ enqueued [c] = out ++ cells'.map Prod.snd := by
  cases c with
  | enq temp element =>
    obtain ⟨q', heq, hq'⟩ := h.enq (Option.isNone_iff_eq_none.mp hallowed) element
    exact ⟨q', [], _, by rw [CellQueue.call, heq]; rfl, hq', by rw [List.map_append]; rfl⟩
  | deq =>
    have hne : queueEmpty q = false := by simpa [allowed] using hallowed
    rw [h.queueEmpty_eq] at hne
    cases cells with
    | nil => cases hne
    | cons cell cells =>
      obtain ⟨q', heq, hq'⟩ := h.deq
      exact ⟨q', [cell.2], cells, by rw [CellQueue.call, heq]; rfl, hq', List.append_nil _⟩

/-- What a sequence of calls does. -/
theorem Represents.run (h : Represents q cells) {calls : List (Call α)} (hallowed : Allowed q calls) :
    ∃ q' out cells', run q calls = some (q', out) ∧ Represents q' cells' ∧
      cells.map Prod.snd ++ enqueued calls = out ++ cells'.map Prod.snd := by
  induction calls generalizing q cells with
  | nil => exact ⟨q, [], cells, rfl, h, List.append_nil _⟩
  | cons c calls ih =>
    obtain ⟨q₁, out₁, cells₁, hcall, hq₁, hsplit₁⟩ := h.call hallowed.1
    obtain ⟨q₂, out₂, cells₂, hrun, hq₂, hsplit₂⟩ := ih hq₁ (hallowed.2 q₁ out₁ hcall)
    refine ⟨q₂, out₁ ++ out₂, cells₂, ?_, hq₂, ?_⟩
    · rw [CellQueue.run, hcall, Option.bind_some, hrun]
      rfl
    · have hmore : enqueued (c :: calls) = enqueued [c] ++ enqueued calls := by
        cases c <;> rfl
      rw [hmore, ← List.append_assoc, hsplit₁, List.append_assoc, hsplit₂, List.append_assoc]

/-- What holds of a queue once `added` has been enqueued and `removed` returned. -/
structure Fifo (q : Queue α) (added removed : List α) : Prop where
  /-- The elements returned are the first ones added; the others are in the queue, in order. -/
  order : ∃ cells, Linked Cell.mk q.heap cells ∧ q.head = start cells ∧ added = removed ++ cells.map Prod.snd
  empty : queueEmpty q = true ↔ removed.length = added.length
  last : queueEmpty q = false → ∃ t, q.tail = some t ∧ Last Cell.next q.heap q.head t
  /-- A tail that is left over points to a freed cell. -/
  stale : queueEmpty q = true → ∀ t, q.tail = some t → q.heap t = none

/-- **The queue is a FIFO**: no call fails, and nothing is lost or repeated. -/
theorem queue_fifo {calls : List (Call α)} (hallowed : Allowed queueCreate calls) :
    ∃ q removed, run queueCreate calls = some (q, removed) ∧ Fifo q (enqueued calls) removed := by
  obtain ⟨q, removed, cells, hrun, hq, hsplit⟩ := represents_queueCreate.run hallowed
  rw [List.map_nil, List.nil_append] at hsplit
  refine ⟨q, removed, hrun, ⟨cells, hq.linked, hq.head, hsplit⟩, ?_, hq.last, fun hempty t _ => hq.stale hempty t⟩
  rw [hq.queueEmpty_eq, hsplit, List.length_append, List.length_map, List.isEmpty_iff, ← List.length_eq_zero_iff]
  omega

/-- Emptied and refilled, with the address the stale tail points to. -/
theorem refilled_fifo : ∃ q, run queueCreate [.enq 7 1, .deq, .enq 7 2, .enq 8 3, .deq] = some (q, [1, 2]) ∧
    Fifo q [1, 2, 3] [1, 2] := by
  have hallowed : Allowed (queueCreate : Queue ℕ) [.enq 7 1, .deq, .enq 7 2, .enq 8 3, .deq] := by
    refine ⟨rfl, fun q out h => ?_⟩
    cases h
    refine ⟨rfl, fun q out h => ?_⟩
    cases h
    refine ⟨rfl, fun q out h => ?_⟩
    cases h
    refine ⟨rfl, fun q out h => ?_⟩
    cases h
    refine ⟨rfl, fun q out h => ?_⟩
    trivial
  obtain ⟨q, removed, hrun, hfifo⟩ := queue_fifo hallowed
  cases hrun
  exact ⟨_, rfl, hfifo⟩

end Pcom.Tema1.CellQueue
