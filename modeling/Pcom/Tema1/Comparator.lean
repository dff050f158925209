import Pcom.Tema1.LongestPrefix

/-!
# The order of the routing table

`comparator` converts the prefixes to `int` and subtracts them; `get_best_route` compares them as unsigned words.
The difference wraps around, so that the two orders part where prefixes are 2³¹ or more apart.

* `sign_iff` — when the sign of the comparator is that of the unsigned comparison;
* `order_agrees_iff` — **the exact condition** for a table to be sorted the way it is searched: all its prefixes are
  less than 2³¹ apart;
* `half_subnets_disagree` — the two halves of `10.0.0.0/24` are not.
-/

namespace Pcom.Tema1.Comparator

open Pcom.Lib.Ipv4 Pcom.Tema1.LongestPrefix Pcom.Tema1.Route

variable {a b : RouteTableEntry} {table : List RouteTableEntry}

/-- The sign of the comparator, which sorts in descending order, is that of the unsigned comparison. -/
structure SignAgrees (a b : RouteTableEntry) : Prop where
  neg : comparator a b < 0 ↔ b.pfx < a.pfx
  pos : 0 < comparator a b ↔ a.pfx < b.pfx

/-- The comparator is a consistent order on the table, which agrees with the unsigned one, and `qsort` leaves the
table in descending order. -/
structure Agrees (table : List RouteTableEntry) : Prop where
  consistent : Consistent table
  sign : ∀ a ∈ table, ∀ b ∈ table, SignAgrees a b
  sorted : ∀ rtable, QSorted table rtable → rtable.Pairwise fun a b => b.pfx ≤ a.pfx

/-- The comparator as a number: the difference is wrapped into the range of an `int`. -/
theorem comparator_bmod (a b : RouteTableEntry) :
    comparator a b = ((b.pfx.toNat : ℤ) - a.pfx.toNat).bmod (2 ^ 32) := by
  rw [comparator, BitVec.toInt_sub, BitVec.toInt_eq_toNat_bmod, BitVec.toInt_eq_toNat_bmod, ← Int.sub_bmod]

/-- **When the sign agrees.** -/
theorem sign_iff (a b : RouteTableEntry) :
    SignAgrees a b ↔ b.pfx.toNat < a.pfx.toNat + 2 ^ 31 ∧ a.pfx.toNat ≤ b.pfx.toNat + 2 ^ 31 := by
  have ha := a.pfx.isLt
  have hb := b.pfx.isLt
  have hcases : comparator a b = (b.pfx.toNat : ℤ) - a.pfx.toNat ∨
      comparator a b = (b.pfx.toNat : ℤ) - a.pfx.toNat - 2 ^ 32 ∨
      comparator a b = (b.pfx.toNat : ℤ) - a.pfx.toNat + 2 ^ 32 := by
    rw [comparator_bmod, Int.bmod_def]
    omega
  have hrange : -2 ^ 31 ≤ comparator a b ∧ comparator a b < 2 ^ 31 := by
    rw [comparator]
    exact ⟨BitVec.le_toInt _, BitVec.toInt_lt⟩
  constructor
  · intro hsign
    have hneg := hsign.neg
    have hpos := hsign.pos
    rw [BitVec.lt_def] at hneg hpos
    omega
  · intro hclose
    have hdiff : comparator a b = (b.pfx.toNat : ℤ) - a.pfx.toNat := by omega
    refine ⟨?_, ?_⟩
    · rw [hdiff, BitVec.lt_def]
      omega
    · rw [hdiff, BitVec.lt_def]
      omega

/-- An order whose sign is that of the unsigned comparison is consistent. -/
theorem consistent_of_sign (h : ∀ a ∈ table, ∀ b ∈ table, SignAgrees a b) : Consistent table where
  antisymm := fun a ha b hb => (h a ha b hb).neg.trans (h b hb a ha).pos.symm
  trans := fun a ha b hb c hc hab hbc => by
    rw [← not_lt, (h a ha b hb).pos, BitVec.not_lt] at hab
    rw [← not_lt, (h b hb c hc).pos, BitVec.not_lt] at hbc
    rw [← not_lt, (h a ha c hc).pos, BitVec.not_lt]
    exact BitVec.le_trans hbc hab

/-- **When a table is sorted the way it is searched.** -/
theorem order_agrees_iff (table : List RouteTableEntry) :
    Agrees table ↔ ∀ a ∈ table, ∀ b ∈ table, a.pfx.toNat < b.pfx.toNat + 2 ^ 31 := by
  constructor
  · intro h a ha b hb
    exact ((sign_iff b a).mp (h.sign b hb a ha)).1
  · intro hclose
    have hsign : ∀ a ∈ table, ∀ b ∈ table, SignAgrees a b := fun a ha b hb =>
      (sign_iff a b).mpr ⟨hclose b hb a ha, Nat.le_of_lt (hclose a ha b hb)⟩
    refine ⟨consistent_of_sign hsign, hsign, fun rtable hsort => ?_⟩
    refine (hsort.sorted (consistent_of_sign hsign)).imp_of_mem fun {a b} ha hb hle => ?_
    have hab := hsign a (hsort.perm.mem_iff.mp ha) b (hsort.perm.mem_iff.mp hb)
    rw [← not_lt, hab.pos, BitVec.not_lt] at hle
    exact hle

/-- `10.0.0.0/25` and `10.0.0.128/25`. -/
def halfSubnets : List RouteTableEntry := [⟨0x0000000A, 1, netmask 25, 0⟩, ⟨0x8000000A, 2, netmask 25, 1⟩]

/-- **Two halves of a subnet**: each comes before the other. -/
theorem half_subnets_disagree : ¬ ∀ table, Agrees table := by
  intro h
  have hboth := (h halfSubnets).consistent.antisymm _ List.mem_cons_self _ (List.mem_cons_of_mem _ List.mem_cons_self)
  revert hboth
  decide

end Pcom.Tema1.Comparator
