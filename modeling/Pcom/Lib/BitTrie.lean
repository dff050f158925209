import Mathlib.Data.List.Basic
import Mathlib.Data.List.Induction
import Mathlib.Tactic.Common

/-!
# Binary tries and the greedy walk

A binary trie stores a value at every node, an empty one at the nodes that only lead somewhere.  `lookup`
is the value at a path; `insert` follows a path, creating what is missing, and sets the value at its end.
`descend` walks down by the bits of a key, falls back to the `0`-child where the `1`-child is missing, and
returns the value of the last node it reached.

* `lookup_insert` — an insertion changes the value at its path and creates the nodes in front of it;
* `lookup_insertAll` — the values after a list of insertions: the last one on each path counts;
* `descend_spec` — the walk ends at the one path that its choices lead to (`Leads`, `Leads.unique`).
-/

namespace Pcom.Lib.BitTrie

inductive Trie (α : Type*)
  | null
  | node (data : α) (child0 child1 : Trie α)

variable {α : Type*}

namespace Trie

def isNull : Trie α → Bool
  | null => true
  | node .. => false

/-- The child on the side of a bit. -/
def child (b : Bool) : Trie α → Trie α
  | null => null
  | node _ c0 c1 => if b then c1 else c0

/-- The value at a path, if there is a node. -/
def lookup : Trie α → List Bool → Option α
  | null, _ => none
  | node d _ _, [] => some d
  | node _ c0 c1, b :: π => if b then c1.lookup π else c0.lookup π

/-- A new node where there is none. -/
def create (empty : α) : Trie α → Trie α
  | null => node empty null null
  | node d c0 c1 => node d c0 c1

def setData (v : α) : Trie α → Trie α
  | null => null
  | node _ c0 c1 => node v c0 c1

/-- Follow a path from a node, creating what is missing; the value goes to the end of the path. -/
def insert (empty v : α) : List Bool → Trie α → Trie α
  | [], t => t
  | _ :: _, null => null
  | b :: rest, node d c0 c1 =>
    let next := create empty (if b then c1 else c0)
    let next := if rest = [] then setData v next else next
    if b then node d c0 (insert empty v rest next) else node d (insert empty v rest next) c1

/-- Walk down by the bits of a key; the value of every node reached replaces the match so far. -/
def descend (limit : ℕ) (key : ℕ → Bool) : Trie α → ℕ → α → α
  | null, _, found => found
  | node d c0 c1, pos, found =>
    if pos < limit then
      if key pos && c1.isNull && !c0.isNull then descend limit key c0 (pos + 1) d
      else if key pos then descend limit key c1 (pos + 1) d
      else descend limit key c0 (pos + 1) d
    else found

theorem isNull_eq {t : Trie α} : t.isNull = (t.lookup []).isNone := by
  cases t <;> rfl

@[simp] theorem lookup_null (π : List Bool) : (null : Trie α).lookup π = none := by
  cases π <;> rfl

theorem lookup_cons (t : Trie α) (b : Bool) (π : List Bool) :
    t.lookup (b :: π) = (t.child b).lookup π := by
  cases t with
  | null => simp [child]
  | node d c0 c1 => cases b <;> rfl

/-! ### Insertion -/

theorem lookup_create (empty : α) (t : Trie α) (π : List Bool) :
    (create empty t).lookup π = if π = [] then some ((t.lookup []).getD empty) else t.lookup π := by
  cases t with
  | null =>
    cases π with
    | nil => rfl
    | cons b π => cases b <;> simp [create, lookup]
  | node d c0 c1 => cases π <;> rfl

theorem lookup_setData (v : α) {t : Trie α} (ht : t.isNull = false) (π : List Bool) :
    (setData v t).lookup π = if π = [] then some v else t.lookup π := by
  cases t with
  | null => cases ht
  | node d c0 c1 => cases π <;> rfl

/-- **What an insertion does.** -/
theorem lookup_insert (empty v : α) {path : List Bool} {t : Trie α} (ht : t.isNull = false)
    (π : List Bool) :
    (insert empty v path t).lookup π =
      if path ≠ [] ∧ π = path then some v
      else if π <+: path then some ((t.lookup π).getD empty)
      else t.lookup π := by
  induction path generalizing t π with
  | nil =>
    rw [insert, if_neg (by simp)]
    split
    · rename_i hpre
      obtain rfl := List.prefix_nil.mp hpre
      cases t with
      | null => cases ht
      | node d c0 c1 => rfl
    · rfl
  | cons b rest ih =>
    cases t with
    | null => cases ht
    | node d c0 c1 =>
      cases π with
      | nil =>
        have hne : ¬ (b :: rest ≠ [] ∧ ([] : List Bool) = b :: rest) := by simp
        rw [if_neg hne, if_pos List.nil_prefix]
        cases b <;> rfl
      | cons b' π =>
        by_cases hb : b' = b
        · subst hb
          -- the node the path goes on from
          have hnext : ∀ (t' : Trie α) π', (insert empty v rest
              (if rest = [] then setData v (create empty t') else create empty t')).lookup π' =
              if π' = rest then some v
              else if π' <+: rest then some ((t'.lookup π').getD empty) else t'.lookup π' := by
            intro t' π'
            have hcreate : (create empty t').isNull = false := by cases t' <;> rfl
            by_cases hrest : rest = []
            · subst hrest
              rw [if_pos rfl, insert, lookup_setData v hcreate, lookup_create]
              by_cases hπ : π' = []
              · simp [hπ]
              · simp [hπ]
            · rw [if_neg hrest, ih hcreate, lookup_create]
              by_cases hπ : π' = []
              · subst hπ
                simp [Ne.symm hrest]
              · simp [hrest, hπ]
          have hgo := hnext ((node d c0 c1).child b') π
          simp only [ne_eq, reduceCtorEq, not_false_eq_true, List.cons.injEq, true_and,
            List.cons_prefix_cons, lookup_cons]
          cases b' <;> exact hgo
        · have hne : ¬ (b :: rest ≠ [] ∧ b' :: π = b :: rest) := fun h => hb (List.cons.inj h.2).1
          have hpre : ¬ b' :: π <+: b :: rest := fun h => hb (List.cons_prefix_cons.mp h).1
          rw [if_neg hne, if_neg hpre]
          cases b <;> cases b' <;> first | exact absurd rfl hb | rfl

theorem isNull_insert (empty v : α) (path : List Bool) {t : Trie α} (ht : t.isNull = false) :
    (insert empty v path t).isNull = false := by
  rw [isNull_eq, lookup_insert empty v ht]
  split
  · rfl
  · rw [if_pos List.nil_prefix]
    rfl

/-! ### A list of insertions -/

variable {β : Type*}

/-- Insert the elements of a list one after the other. -/
def insertAll (empty : α) (path : β → List Bool) (value : β → α) (t : Trie α) (bs : List β) : Trie α :=
  bs.foldl (fun t b => insert empty (value b) (path b) t) t

/-- Some inserted path goes through `π`. -/
def Through (path : β → List Bool) (bs : List β) (π : List Bool) : Prop := ∃ b ∈ bs, π <+: path b

instance (path : β → List Bool) (bs : List β) (π : List Bool) : Decidable (Through path bs π) :=
  inferInstanceAs (Decidable (∃ b ∈ bs, π <+: path b))

/-- The element inserted last on the path `π`. -/
def lastOn (path : β → List Bool) (bs : List β) (π : List Bool) : Option β :=
  bs.reverse.find? fun b => path b = π

/-- **The values after a list of insertions** into the empty trie. -/
theorem lookup_insertAll (empty : α) (path : β → List Bool) (value : β → α) (bs : List β)
    {π : List Bool} (hπ : π ≠ []) :
    (insertAll empty path value (node empty null null) bs).isNull = false ∧
      (insertAll empty path value (node empty null null) bs).lookup π =
        if Through path bs π then some (((lastOn path bs π).map value).getD empty) else none := by
  induction bs using List.reverseRecOn with
  | nil =>
    refine ⟨rfl, ?_⟩
    rw [if_neg (by simp [Through])]
    cases π with
    | nil => exact absurd rfl hπ
    | cons b π => cases b <;> simp [insertAll, lookup]
  | append_singleton bs b ih =>
    obtain ⟨hnull, ih⟩ := ih
    have hstep : insertAll empty path value (node empty null null) (bs ++ [b]) =
        insert empty (value b) (path b) (insertAll empty path value (node empty null null) bs) := by
      simp only [insertAll, List.foldl_append, List.foldl_cons, List.foldl_nil]
    have hthrough : Through path (bs ++ [b]) π ↔ Through path bs π ∨ π <+: path b := by
      simp only [Through, List.mem_append, List.mem_singleton, or_and_right, exists_or,
        exists_eq_left]
    have hlast : lastOn path (bs ++ [b]) π = if path b = π then some b else lastOn path bs π := by
      rw [lastOn, List.reverse_append, List.reverse_singleton, List.singleton_append, List.find?_cons]
      by_cases h : path b = π <;> simp [h, lastOn]
    rw [hstep]
    refine ⟨isNull_insert _ _ _ hnull, ?_⟩
    rw [lookup_insert _ _ hnull, ih, hlast]
    by_cases hpath : π = path b
    · subst hpath
      rw [if_pos ⟨hπ, rfl⟩, if_pos (hthrough.mpr (Or.inr List.prefix_rfl)), if_pos rfl]
      rfl
    · rw [if_neg fun h => hpath h.2, if_neg (Ne.symm hpath)]
      by_cases hpre : π <+: path b
      · rw [if_pos hpre, if_pos (hthrough.mpr (Or.inr hpre))]
        by_cases hbs : Through path bs π
        · rw [if_pos hbs, Option.getD_some]
        · have hnone : lastOn path bs π = none := by
            rw [lastOn, List.find?_eq_none]
            intro b' hb' heq
            exact hbs ⟨b', List.mem_reverse.mp hb', of_decide_eq_true heq ▸ List.prefix_rfl⟩
          rw [if_neg hbs, hnone]
          rfl
      · rw [if_neg hpre]
        by_cases hbs : Through path bs π
        · rw [if_pos hbs, if_pos (hthrough.mpr (Or.inl hbs))]
        · rw [if_neg hbs, if_neg fun h => (hthrough.mp h).elim hbs hpre]

/-- The root keeps the empty value. -/
theorem lookup_insertAll_nil (empty : α) (path : β → List Bool) (value : β → α) (bs : List β) :
    (insertAll empty path value (node empty null null) bs).lookup [] = some empty := by
  induction bs using List.reverseRecOn with
  | nil => rfl
  | append_singleton bs b ih =>
    have hnull : (insertAll empty path value (node empty null null) bs).isNull = false := by
      rw [isNull_eq, ih]
      rfl
    rw [insertAll, List.foldl_append, List.foldl_cons, List.foldl_nil, ← insertAll, lookup_insert _ _ hnull,
      if_neg fun h => h.1 h.2.symm, if_pos List.nil_prefix, ih]
    rfl

/-! ### The walk -/

/-- At the node `ρ` the walk goes on to the child `b`. -/
def Choice (Has : List Bool → Prop) (key : ℕ → Bool) (ρ : List Bool) (b : Bool) : Prop :=
  Has (ρ ++ [b]) ∧
    (b = key ρ.length ∨ (b = false ∧ key ρ.length = true ∧ ¬ Has (ρ ++ [true])))

theorem Choice.unique {Has : List Bool → Prop} {key : ℕ → Bool} {ρ : List Bool} {b b' : Bool}
    (h : Choice Has key ρ b) (h' : Choice Has key ρ b') : b = b' := by
  obtain ⟨hhas, hb | ⟨hb, hkey, hno⟩⟩ := h
  · obtain ⟨-, hb' | ⟨hb', hkey', hno'⟩⟩ := h'
    · rw [hb, hb']
    · rw [hb, hkey'] at hhas
      exact absurd hhas hno'
  · obtain ⟨hhas', hb' | ⟨hb', -, -⟩⟩ := h'
    · rw [hb', hkey] at hhas'
      exact absurd hhas' hno
    · rw [hb, hb']

/-- The choices lead from `ρ` down to `π` and end there. -/
structure Leads (Has : List Bool → Prop) (key : ℕ → Bool) (ρ π : List Bool) : Prop where
  below : ρ <+: π
  choices : ∀ p b, ρ.length ≤ p → π[p]? = some b → Choice Has key (π.take p) b
  ends : ∀ b, ¬ Choice Has key π b

theorem Leads.stop {Has : List Bool → Prop} {key : ℕ → Bool} {ρ : List Bool}
    (hends : ∀ b, ¬ Choice Has key ρ b) : Leads Has key ρ ρ where
  below := List.prefix_rfl
  choices := fun p b hp hb => by
    rw [List.getElem?_eq_none hp] at hb
    cases hb
  ends := hends

theorem Leads.step {Has : List Bool → Prop} {key : ℕ → Bool} {ρ π : List Bool} {b : Bool}
    (hb : Choice Has key ρ b) (h : Leads Has key (ρ ++ [b]) π) : Leads Has key ρ π where
  below := (List.prefix_append _ _).trans h.below
  choices := fun p b' hp hb' => by
    obtain ⟨σ, rfl⟩ := h.below
    obtain hlt | heq := Nat.lt_or_eq_of_le hp
    · exact h.choices p b' (by rw [List.length_append, List.length_singleton]; omega) hb'
    · subst heq
      have hbb : b = b' := by simpa using hb'
      subst hbb
      simpa using hb
  ends := h.ends

/-- The walk ends at one path only. -/
theorem Leads.unique {Has : List Bool → Prop} {key : ℕ → Bool} {ρ π π' : List Bool}
    (h : Leads Has key ρ π) (h' : Leads Has key ρ π') : π = π' := by
  obtain ⟨σ, rfl⟩ := h.below
  obtain ⟨σ', rfl⟩ := h'.below
  induction σ generalizing ρ σ' with
  | nil =>
    cases σ' with
    | nil => rfl
    | cons b σ' =>
      have hb := h'.choices ρ.length b (Nat.le_refl _) (by simp)
      rw [List.take_left] at hb
      rw [List.append_nil] at h
      exact absurd hb (h.ends b)
  | cons b σ ih =>
    have hb := h.choices ρ.length b (Nat.le_refl _) (by simp)
    rw [List.take_left] at hb
    cases σ' with
    | nil =>
      rw [List.append_nil] at h'
      exact absurd hb (h'.ends b)
    | cons b' σ' =>
      have hb' := h'.choices ρ.length b' (Nat.le_refl _) (by simp)
      rw [List.take_left] at hb'
      obtain rfl := hb.unique hb'
      have hnext : ∀ τ, ρ ++ b :: τ = ρ ++ [b] ++ τ := fun τ => by simp
      have hdown : ∀ τ, Leads Has key ρ (ρ ++ b :: τ) → Leads Has key (ρ ++ [b]) (ρ ++ [b] ++ τ) := by
        intro τ hτ
        rw [hnext τ] at hτ
        exact ⟨List.prefix_append _ _, fun p c hp hc => hτ.choices p c
          (by rw [List.length_append] at hp; omega) hc, hτ.ends⟩
      rw [hnext σ, hnext σ']
      exact ih (hdown σ h) _ (hdown σ' h')

/-- **Where the walk ends.**  Let `s` be the part of a trie `t` below `ρ`, shallower than the limit.  The
walk from `s` returns the value at the path its choices lead to. -/
theorem descend_spec (limit : ℕ) (key : ℕ → Bool) (Has : List Bool → Prop) (value : List Bool → α)
    {s : Trie α} (ρ : List Bool) (hs : s.isNull = false)
    (hhas : ∀ σ, Has (ρ ++ σ) ↔ (s.lookup σ).isSome = true)
    (hvalue : ∀ σ d, s.lookup σ = some d → value (ρ ++ σ) = d)
    (hlimit : ∀ σ, (s.lookup σ).isSome = true → ρ.length + σ.length < limit) (found : α) :
    ∃ π, Leads Has key ρ π ∧ Has π ∧ descend limit key s ρ.length found = value π := by
  induction s generalizing ρ found with
  | null => cases hs
  | node d c0 c1 ih0 ih1 =>
    have hpos : ρ.length < limit := by simpa using hlimit [] rfl
    have hroot : value ρ = d := by simpa using hvalue [] d rfl
    have hhere : Has ρ := by simpa using (hhas []).mpr rfl
    have hchild : ∀ b, Has (ρ ++ [b]) ↔ ((node d c0 c1).child b).isNull = false := by
      intro b
      rw [hhas, lookup_cons, isNull_eq]
      cases ((node d c0 c1).child b).lookup [] <;> simp
    -- going on to the child `b`
    have hgo : ∀ b, Choice Has key ρ b →
        (∀ ρ' : List Bool, ((node d c0 c1).child b).isNull = false →
          (∀ σ, Has (ρ' ++ σ) ↔ (((node d c0 c1).child b).lookup σ).isSome = true) →
          (∀ σ e, ((node d c0 c1).child b).lookup σ = some e → value (ρ' ++ σ) = e) →
          (∀ σ, (((node d c0 c1).child b).lookup σ).isSome = true → ρ'.length + σ.length < limit) →
          ∀ found, ∃ π, Leads Has key ρ' π ∧ Has π ∧
            descend limit key ((node d c0 c1).child b) ρ'.length found = value π) →
        ∃ π, Leads Has key ρ π ∧ Has π ∧
          descend limit key ((node d c0 c1).child b) (ρ.length + 1) d = value π := by
      intro b hb ih
      have hcat : ∀ σ, ρ ++ [b] ++ σ = ρ ++ b :: σ := fun σ => by simp
      obtain ⟨π, hleads, hπ, hdesc⟩ := ih (ρ ++ [b]) ((hchild b).mp hb.1)
        (fun σ => by rw [hcat, hhas, lookup_cons])
        (fun σ e he => by rw [hcat]; exact hvalue (b :: σ) e (by rw [lookup_cons, he]))
        (fun σ hσ => by
          have := hlimit (b :: σ) (by rw [lookup_cons]; exact hσ)
          rw [List.length_append, List.length_singleton]
          rw [List.length_cons] at this
          omega) d
      rw [List.length_append, List.length_singleton] at hdesc
      exact ⟨π, hleads.step hb, hπ, hdesc⟩
    have hstop : (∀ b, ¬ Choice Has key ρ b) → ∃ π, Leads Has key ρ π ∧ Has π ∧ d = value π :=
      fun hends => ⟨ρ, Leads.stop hends, hhere, hroot.symm⟩
    rw [descend, if_pos hpos]
    cases hkey : key ρ.length with
    | false =>
      rw [if_neg (by simp), if_neg (by simp)]
      cases hc : c0.isNull with
      | false => exact hgo false ⟨(hchild false).mpr hc, Or.inl hkey.symm⟩ fun ρ' h => ih0 ρ' h
      | true =>
        have hends : ∀ b, ¬ Choice Has key ρ b := by
          rintro b ⟨hb, rfl | ⟨-, htrue, -⟩⟩
          · rw [hkey, hchild] at hb
            exact absurd hc (by rw [show c0.isNull = false from hb]; simp)
          · rw [hkey] at htrue
            cases htrue
        cases c0 with
        | null => exact hstop hends
        | node => cases hc
    | true =>
      cases hc1 : c1.isNull with
      | false =>
        rw [if_neg (by simp), if_pos rfl]
        exact hgo true ⟨(hchild true).mpr hc1, Or.inl hkey.symm⟩ fun ρ' h => ih1 ρ' h
      | true =>
        have hno : ¬ Has (ρ ++ [true]) := by
          rw [hchild]
          exact fun h => absurd hc1 (by rw [show c1.isNull = false from h]; simp)
        cases hc0 : c0.isNull with
        | false =>
          rw [if_pos (by simp)]
          exact hgo false ⟨(hchild false).mpr hc0, Or.inr ⟨rfl, hkey, hno⟩⟩ fun ρ' h => ih0 ρ' h
        | true =>
          have hends : ∀ b, ¬ Choice Has key ρ b := by
            rintro b ⟨hb, rfl | ⟨rfl, -, -⟩⟩
            · rw [hkey] at hb
              exact hno hb
            · rw [hchild] at hb
              exact absurd hc0 (by rw [show c0.isNull = false from hb]; simp)
          rw [if_neg (by simp), if_pos rfl]
          cases c1 with
          | null => exact hstop hends
          | node => cases hc1

end Trie

end Pcom.Lib.BitTrie
