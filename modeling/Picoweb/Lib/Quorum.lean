import Mathlib.Data.Finset.Card
import Mathlib.Algebra.BigOperators.Group.Finset.Basic
import Mathlib.Data.Nat.Bitwise
import Mathlib.Tactic

/-!
# Ballots in bit masks, and majorities

A tally of votes kept as a bit mask over the places of a list of voters, and the sets of voters that
make up more than half of an electorate.
-/

namespace Quorum

/-! ### Bit masks -/

/-- The number of bits set among the lowest `w`. -/
def popcount : ℕ → ℕ → ℕ
  | 0, _ => 0
  | w + 1, v => v % 2 + popcount w (v / 2)

/-- The mask with bit `i` set as well. -/
def setBit (v i : ℕ) : ℕ := v ||| 1 <<< i

lemma popcount_eq_card (w v : ℕ) : popcount w v = ((Finset.range w).filter fun i => v.testBit i = true).card := by
  induction w generalizing v with
  | zero => rfl
  | succ w ih =>
    rw [popcount, ih, Finset.card_filter, Finset.card_filter, Finset.sum_range_succ', add_comm]
    simp only [Nat.testBit_succ]
    rcases Nat.mod_two_eq_zero_or_one v with h | h <;> simp [h]

lemma testBit_setBit (v i j : ℕ) : (setBit v i).testBit j = (v.testBit j || decide (i = j)) := by
  rw [setBit, Nat.testBit_or, Nat.one_shiftLeft, Nat.testBit_two_pow]

lemma testBit_setBit_iff {v i j : ℕ} : (setBit v i).testBit j = true ↔ v.testBit j = true ∨ i = j := by
  simp [testBit_setBit]

/-- Where each set bit is the place of a voter in `A`, there are at most as many as voters. -/
lemma popcount_le_card {α : Type*} {w v : ℕ} {A : Finset α} (place : α → ℕ)
    (hA : ∀ i, v.testBit i = true → ∃ a ∈ A, place a = i) : popcount w v ≤ A.card := by
  have hsub : ((Finset.range w).filter fun i => v.testBit i = true) ⊆ A.image place := by
    intro i hi
    exact Finset.mem_image.2 (hA i (Finset.mem_filter.1 hi).2)
  rw [popcount_eq_card]
  exact (Finset.card_le_card hsub).trans Finset.card_image_le

/-! ### Majorities -/

variable {α : Type*} {S A B : Finset α}

/-- `A` makes up more than half of `S`. -/
def Majority (S A : Finset α) : Prop := A ⊆ S ∧ S.card < 2 * A.card

/-- Two majorities of one electorate share a voter. -/
theorem Majority.exists_mem_inter [DecidableEq α] (hA : Majority S A) (hB : Majority S B) : ∃ a, a ∈ A ∧ a ∈ B := by
  obtain ⟨a, ha⟩ := Finset.inter_nonempty_of_card_lt_card_add_card hA.1 hB.1 (by have := hA.2; have := hB.2; omega)
  exact ⟨a, Finset.mem_inter.1 ha⟩

lemma Majority.mono (hA : Majority S A) (hAB : A ⊆ B) (hB : B ⊆ S) : Majority S B := by
  have := Finset.card_le_card hAB
  exact ⟨hB, by have := hA.2; omega⟩

end Quorum
