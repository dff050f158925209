import Mathlib.Data.List.Basic
import Mathlib.Tactic.Common

/-!
# Frames in a stream

A reader collects symbols until a delimiter ends the frame or the buffer is full; a delimiter that comes
first does not end it.  `split` is the list of frames it takes from a stream, and what is left over.

* `split_append` — a frame and what follows it are read one after the other;
* `split_flatten_iff` — **the framing law**: a sequence of frames, each with its delimiter at the end, is
  read back from its concatenation exactly when no frame has another delimiter and all fit.
-/

namespace Pcom.Lib.Framing

variable {α : Type*} [DecidableEq α] (delim : α) (limit : ℕ)

/-- Does `a`, read after `buf`, complete a frame? -/
def Ends (buf : List α) (a : α) : Prop := (buf ≠ [] ∧ a = delim) ∨ buf.length + 1 = limit

instance (buf : List α) (a : α) : Decidable (Ends delim limit buf a) :=
  inferInstanceAs (Decidable (_ ∨ _))

/-- The frames taken from a stream when `buf` has been collected already, and what is left over. -/
def split (buf : List α) : List α → List (List α) × List α
  | [] => ([], buf)
  | a :: s =>
    if Ends delim limit buf a then ((buf ++ [a]) :: (split [] s).1, (split [] s).2)
    else split (buf ++ [a]) s

variable {delim limit}

/-- Nothing is lost. -/
theorem split_flatten (buf s : List α) :
    (split delim limit buf s).1.flatten ++ (split delim limit buf s).2 = buf ++ s := by
  induction s generalizing buf with
  | nil => simp [split]
  | cons a s ih =>
    rw [split]
    split
    · simp only [List.flatten_cons, List.append_assoc, ih [], List.nil_append, List.cons_append]
    · rw [ih, List.append_assoc, List.singleton_append]

/-- **A frame in front of a stream is read first**, if it has no delimiter inside and fits. -/
theorem split_append (buf : List α) {body : List α} (hne : buf ++ body ≠ []) (hd : delim ∉ (buf ++ body).tail)
    (hlen : (buf ++ body).length < limit) (rest : List α) :
    split delim limit buf (body ++ delim :: rest) =
      ((buf ++ body ++ [delim]) :: (split delim limit [] rest).1, (split delim limit [] rest).2) := by
  induction body generalizing buf with
  | nil =>
    rw [List.append_nil] at hne
    have hend : Ends delim limit buf delim := Or.inl ⟨hne, rfl⟩
    simp only [List.nil_append, List.append_nil, split, if_pos hend]
  | cons b body ih =>
    have hcons : buf ++ b :: body = buf ++ [b] ++ body := by simp
    have hgo : ¬ Ends delim limit buf b := by
      rintro (⟨hbuf, rfl⟩ | hfull)
      · apply hd
        rw [List.tail_append_of_ne_nil hbuf]
        exact List.mem_append_right _ List.mem_cons_self
      · rw [List.length_append, List.length_cons] at hlen
        omega
    rw [hcons] at hne hd hlen ⊢
    rw [List.cons_append, split, if_neg hgo]
    exact ih (buf ++ [b]) hne hd hlen

/-- The first frame read has no delimiter inside, fits, and the others are read from what follows. -/
theorem of_split_cons {buf s f : List α} {fs : List (List α)} {left : List α}
    (hd : delim ∉ buf.tail) (hlen : buf.length < limit)
    (h : split delim limit buf s = (f :: fs, left)) :
    delim ∉ f.dropLast.tail ∧ f.length ≤ limit ∧
      ∃ rest, buf ++ s = f ++ rest ∧ split delim limit [] rest = (fs, left) := by
  induction s generalizing buf with
  | nil => cases h
  | cons a s ih =>
    rw [split] at h
    split at h
    · obtain ⟨hf, rfl⟩ := Prod.mk.inj h
      obtain ⟨rfl, rfl⟩ := List.cons.inj hf
      refine ⟨by rwa [List.dropLast_concat], ?_, s, by simp, rfl⟩
      rw [List.length_append, List.length_singleton]
      omega
    · rename_i hgo
      have hd' : delim ∉ (buf ++ [a]).tail := by
        cases buf with
        | nil => exact List.not_mem_nil
        | cons b buf =>
          rw [List.cons_append, List.tail_cons, List.mem_append, not_or]
          refine ⟨hd, fun ha => hgo (Or.inl ⟨List.cons_ne_nil b buf, ?_⟩)⟩
          exact (List.mem_singleton.mp ha).symm
      have hlen' : (buf ++ [a]).length < limit := by
        have hfull : buf.length + 1 ≠ limit := fun hfull => hgo (Or.inr hfull)
        rw [List.length_append, List.length_singleton]
        omega
      obtain ⟨h1, h2, rest, hrest, h3⟩ := ih hd' hlen' h
      exact ⟨h1, h2, rest, by rw [← hrest]; simp, h3⟩

/-- Every frame read has no delimiter inside and fits. -/
theorem of_mem_split (hlimit : 0 < limit) {s f : List α} (h : f ∈ (split delim limit [] s).1) :
    delim ∉ f.dropLast.tail ∧ f.length ≤ limit := by
  generalize hr : split delim limit [] s = r at h
  obtain ⟨frames, left⟩ := r
  induction frames generalizing s with
  | nil => exact absurd h List.not_mem_nil
  | cons g frames ih =>
    obtain ⟨hd, hlen, rest, -, hsplit⟩ := of_split_cons List.not_mem_nil hlimit hr
    rcases List.mem_cons.mp h with rfl | h
    · exact ⟨hd, hlen⟩
    · exact ih hsplit h

/-- **The framing law.** -/
theorem split_flatten_iff (hlimit : 0 < limit) {frames : List (List α)}
    (hframes : ∀ f ∈ frames, ∃ body, body ≠ [] ∧ f = body ++ [delim]) :
    split delim limit [] frames.flatten = (frames, []) ↔
      ∀ f ∈ frames, delim ∉ f.dropLast.tail ∧ f.length ≤ limit := by
  induction frames with
  | nil => simp [split]
  | cons f frames ih =>
    rw [List.forall_mem_cons] at hframes
    obtain ⟨⟨body, hbody, rfl⟩, hrest⟩ := hframes
    have hiff := ih hrest
    have hcat : ((body ++ [delim]) :: frames).flatten = body ++ delim :: frames.flatten := by simp
    rw [List.forall_mem_cons, ← hiff, hcat, List.dropLast_concat]
    constructor
    · intro h
      obtain ⟨hd, hlen, rest, hrest', hsplit⟩ := of_split_cons List.not_mem_nil hlimit h
      rw [List.dropLast_concat] at hd
      have heq : frames.flatten = rest := by
        rw [List.nil_append, List.append_assoc] at hrest'
        exact (List.cons.inj (List.append_cancel_left hrest')).2
      exact ⟨⟨hd, hlen⟩, heq ▸ hsplit⟩
    · intro ⟨⟨hd, hlen⟩, hsplit⟩
      rw [List.length_append, List.length_singleton] at hlen
      have hread := split_append [] hbody hd hlen frames.flatten
      rw [hread, hsplit]
      rfl

end Pcom.Lib.Framing
