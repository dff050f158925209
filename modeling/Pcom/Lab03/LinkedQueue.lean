import Mathlib.Data.Fintype.EquivFin
import Mathlib.Data.List.Basic
import Mathlib.Logic.Function.Basic
import Pcom.Lib.Chain

/-!
# The linked queue of `link_emulator/queue.c`

A queue is a chain of entries on the heap that leads from `last`, the oldest, over `prev` to `first`, the newest.
A failed `assert`, as well as a null or dangling pointer followed, is `none`.

* `Represents` — the queue is a well-formed chain of these entries;
* `Represents.enqueue`, `Represents.dequeue` — on a well-formed queue no `assert` fails, and the operations are those
  of a list that grows at its end and shrinks at its head.
-/

namespace Pcom.Lab03.LinkedQueue

open Function

variable {α : Type*}

/-- `struct q`. -/
structure QueueEntry (α : Type*) where
  crt : α
  prev : Option ℕ

/-- `queue`, with the part of the heap that holds its entries. -/
structure Queue (α : Type*) where
  size : ℕ
  first : Option ℕ
  last : Option ℕ
  heap : ℕ → Option (QueueEntry α)

def createQueue : Queue α := ⟨0, none, none, fun _ => none⟩

/-- `enqueue`; `t` is the address `malloc` returns. -/
def enqueue (q : Queue α) (t : ℕ) (m : α) : Option (Queue α) :=
  match q.first with
  | none =>
    -- `assert(q->last == NULL)`
    if q.last = none then some ⟨q.size + 1, some t, some t, update q.heap t (some ⟨m, none⟩)⟩ else none
  | some first =>
    (q.heap first).map fun e =>
      ⟨q.size + 1, some t, q.last, update (update q.heap first (some { e with prev := some t })) t (some ⟨m, none⟩)⟩

/-- `dequeue`: the message, and the queue. -/
def dequeue (q : Queue α) : Option (Option α × Queue α) :=
  match q.first, q.last with
  | none, _ =>
    -- `assert(q->size == 0)`
    if q.size = 0 then some (none, q) else none
  | some _, none => none
  | some first, some t =>
    match q.heap t with
    | none => none
    | some e =>
      if first = t then
        -- `assert(q->first->prev == NULL)`
        if e.prev = none then some (some e.crt, ⟨q.size - 1, none, none, update q.heap t none⟩) else none
      else some (some e.crt, ⟨q.size - 1, some first, e.prev, update q.heap t none⟩)

/-- `q->last->crt`. -/
def Queue.oldest (q : Queue α) : Option α := (q.last.bind q.heap).map QueueEntry.crt

/-! ### Chains -/

/-- The entries are on the heap, each with the address of the next. -/
def Linked (heap : ℕ → Option (QueueEntry α)) : List (ℕ × α) → Prop
  | [] => True
  | (a, m) :: cells => heap a = some ⟨m, cells.head?.map Prod.fst⟩ ∧ Linked heap cells

variable {heap : ℕ → Option (QueueEntry α)} {cells : List (ℕ × α)} {q : Queue α}

/-- A chain of these entries is a chain of cells. -/
theorem linked_iff : Linked heap cells ↔ Lib.Chain.Linked QueueEntry.mk heap cells := by
  induction cells with
  | nil => exact Iff.rfl
  | cons cell cells ih => exact and_congr Iff.rfl ih

/-! ### Well-formed queues -/

/-- The queue is the chain of these entries, oldest first, and nothing else is on its heap. -/
structure Represents (q : Queue α) (cells : List (ℕ × α)) : Prop where
  linked : Linked q.heap cells
  nodup : (cells.map Prod.fst).Nodup
  domain : ∀ a, q.heap a ≠ none → a ∈ cells.map Prod.fst
  last : q.last = cells.head?.map Prod.fst
  first : q.first = cells.getLast?.map Prod.fst
  size : q.size = cells.length

theorem represents_createQueue : Represents (createQueue : Queue α) [] :=
  ⟨trivial, List.nodup_nil, fun _ h => absurd rfl h, rfl, rfl, rfl⟩

theorem Represents.owned (h : Represents q cells) : Lib.Chain.Owned QueueEntry.mk q.heap cells :=
  ⟨linked_iff.mp h.linked, h.nodup, h.domain⟩

/-- `malloc` always finds an address. -/
theorem Represents.exists_fresh (h : Represents q cells) : ∃ t, q.heap t = none := by
  obtain ⟨t, ht⟩ := Infinite.exists_notMem_finset (cells.map Prod.fst).toFinset
  rw [List.mem_toFinset] at ht
  exact ⟨t, not_not.mp (mt (h.domain t) ht)⟩

/-- **Enqueueing** adds at the end; no `assert` fails. -/
theorem Represents.enqueue (h : Represents q cells) {t : ℕ} (ht : q.heap t = none) (m : α) :
    ∃ q', enqueue q t m = some q' ∧ Represents q' (cells ++ [(t, m)]) := by
  rcases List.eq_nil_or_concat cells with rfl | ⟨cells, ⟨f, x⟩, rfl⟩
  · have heq : LinkedQueue.enqueue q t m =
        some ⟨q.size + 1, some t, some t, Function.update q.heap t (some ⟨m, none⟩)⟩ := by
      have hfirst : q.first = none := h.first
      have hlast : q.last = none := h.last
      simp only [LinkedQueue.enqueue, hfirst, hlast, if_true]
    have howned := h.owned.singleton t m
    exact ⟨_, heq, linked_iff.mpr howned.linked, howned.nodup, howned.domain, rfl, rfl, by simp [h.size]⟩
  · rw [List.concat_eq_append] at h ⊢
    have hfirst : q.first = some f := by
      rw [h.first]
      simp
    have heq : LinkedQueue.enqueue q t m = some ⟨q.size + 1, some t, q.last,
        Function.update (Function.update q.heap f (some ⟨x, some t⟩)) t (some ⟨m, none⟩)⟩ := by
      simp only [LinkedQueue.enqueue, hfirst, h.owned.linked.last, Option.map_some]
    have howned := h.owned.concat ht m
    refine ⟨_, heq, linked_iff.mpr howned.linked, howned.nodup, howned.domain, ?_, ?_, ?_⟩
    · rw [h.last]
      cases cells <;> rfl
    · simp
    · simp [h.size]

/-- **Dequeueing** an empty queue. -/
theorem Represents.dequeue_nil (h : Represents q []) : dequeue q = some (none, q) := by
  have hfirst : q.first = none := h.first
  simp only [dequeue, hfirst, h.size, List.length_nil, if_true]

/-- **Dequeueing** takes the oldest message; no `assert` fails. -/
theorem Represents.dequeue {a : ℕ} {m : α} (h : Represents q ((a, m) :: cells)) :
    ∃ q', dequeue q = some (some m, q') ∧ Represents q' cells := by
  have hlast : q.last = some a := h.last
  have hnodup := List.nodup_cons.mp h.nodup
  have howned := h.owned.free
  have hlinked := linked_iff.mpr howned.linked
  have hsize : q.size - 1 = cells.length := by
    rw [h.size]
    rfl
  cases cells with
  | nil =>
    have hfirst : q.first = some a := h.first
    have ha : q.heap a = some ⟨m, none⟩ := h.linked.1
    have heq : LinkedQueue.dequeue q = some (some m, ⟨q.size - 1, none, none, Function.update q.heap a none⟩) := by
      simp only [LinkedQueue.dequeue, hfirst, hlast, ha, if_true]
    exact ⟨_, heq, hlinked, howned.nodup, howned.domain, rfl, rfl, hsize⟩
  | cons cell cells =>
    obtain ⟨b, y⟩ := cell
    have ha : q.heap a = some ⟨m, some b⟩ := h.linked.1
    obtain ⟨f, hf⟩ : ∃ f, (((b, y) :: cells).getLast?.map Prod.fst) = some f := by
      rw [List.getLast?_eq_some_getLast (List.cons_ne_nil _ _)]
      exact ⟨_, rfl⟩
    have hfirst : q.first = some f := by
      rw [h.first, ← hf, List.getLast?_cons_cons]
    have hne : f ≠ a := by
      rintro rfl
      obtain ⟨cell, hcell, hfst⟩ := Option.map_eq_some_iff.mp hf
      exact hnodup.1 (List.mem_map.mpr ⟨cell, List.mem_of_getLast? hcell, hfst⟩)
    have heq : LinkedQueue.dequeue q =
        some (some m, ⟨q.size - 1, some f, some b, Function.update q.heap a none⟩) := by
      simp only [LinkedQueue.dequeue, hfirst, hlast, ha, if_neg hne]
    exact ⟨_, heq, hlinked, howned.nodup, howned.domain, rfl, hf.symm, hsize⟩

theorem Represents.oldest (h : Represents q cells) : q.oldest = cells.head?.map Prod.snd := by
  cases cells with
  | nil => rw [Queue.oldest, h.last]; rfl
  | cons cell cells =>
    have hlast : q.last = some cell.1 := h.last
    have ha : q.heap cell.1 = some ⟨cell.2, cells.head?.map Prod.fst⟩ := h.linked.1
    rw [Queue.oldest, hlast, Option.bind_some, ha]
    rfl

/-! ### The queue as a list -/

/-- The queue is well-formed and holds these messages, oldest first. -/
def Holds (q : Queue α) (ms : List α) : Prop := ∃ cells, Represents q cells ∧ cells.map Prod.snd = ms

variable {ms : List α}

theorem holds_createQueue : Holds (createQueue : Queue α) [] := ⟨[], represents_createQueue, rfl⟩

theorem Holds.size (h : Holds q ms) : q.size = ms.length := by
  obtain ⟨cells, hq, rfl⟩ := h
  rw [hq.size, List.length_map]

theorem Holds.oldest (h : Holds q ms) : q.oldest = ms.head? := by
  obtain ⟨cells, hq, rfl⟩ := h
  rw [hq.oldest, List.head?_map]

theorem Holds.exists_fresh (h : Holds q ms) : ∃ t, q.heap t = none := by
  obtain ⟨cells, hq, -⟩ := h
  exact hq.exists_fresh

theorem Holds.enqueue (h : Holds q ms) {t : ℕ} (ht : q.heap t = none) (m : α) :
    ∃ q', enqueue q t m = some q' ∧ Holds q' (ms ++ [m]) := by
  obtain ⟨cells, hq, rfl⟩ := h
  obtain ⟨q', heq, hq'⟩ := hq.enqueue ht m
  exact ⟨q', heq, _, hq', by rw [List.map_append]; rfl⟩

theorem Holds.dequeue_nil (h : Holds q []) : dequeue q = some (none, q) := by
  obtain ⟨cells, hq, hnil⟩ := h
  obtain rfl := List.map_eq_nil_iff.mp hnil
  exact hq.dequeue_nil

theorem Holds.dequeue {m : α} (h : Holds q (m :: ms)) : ∃ q', dequeue q = some (some m, q') ∧ Holds q' ms := by
  obtain ⟨cells, hq, hcons⟩ := h
  obtain ⟨⟨a, m'⟩, cells', rfl, rfl, rfl⟩ := List.map_eq_cons_iff.mp hcons
  obtain ⟨q', heq, hq'⟩ := hq.dequeue
  exact ⟨q', heq, cells', hq', rfl⟩

end Pcom.Lab03.LinkedQueue
