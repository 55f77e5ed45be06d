import Mathlib.Data.List.GetD
import Mathlib.Data.Int.Interval
import Mathlib.Tactic.LinearCombination
import Mathlib.Tactic.Linarith
import Mathlib.Tactic.Ring

/-!
# Lists of signed digits

A list of integers stands for a number to some base, whether or not its entries are digits of that base. Digits
that are in range are those of the number.
-/

namespace Positional

open List

variable {b : ℤ}

/-- The number a list of digits stands for, the lowest digit first. -/
def weigh (b : ℤ) : List ℤ → ℤ
  | [] => 0
  | d :: ds => d + b * weigh b ds

@[simp] lemma weigh_nil : weigh b [] = 0 := rfl

@[simp] lemma weigh_cons (d : ℤ) (ds : List ℤ) : weigh b (d :: ds) = d + b * weigh b ds := rfl

variable {l : List ℤ}

lemma weigh_set {j : ℕ} (hj : j < l.length) (d : ℤ) : weigh b (l.set j d) = weigh b l + (d - l.getD j 0) * b ^ j := by
  induction l generalizing j with
  | nil => exact absurd hj (Nat.not_lt_zero j)
  | cons e l ih =>
    cases j with
    | zero =>
      rw [set_cons_zero, weigh_cons, weigh_cons, getD_cons_zero]
      ring
    | succ j =>
      rw [set_cons_succ, weigh_cons, weigh_cons, ih (Nat.lt_of_succ_lt_succ hj), getD_cons_succ]
      ring

lemma weigh_append (l m : List ℤ) : weigh b (l ++ m) = weigh b l + b ^ l.length * weigh b m := by
  induction l with
  | nil => simp
  | cons d l ih =>
    rw [cons_append, weigh_cons, weigh_cons, ih, length_cons]
    ring

lemma weigh_take_add_drop (l : List ℤ) {k : ℕ} (hk : k ≤ l.length) :
    weigh b (l.take k) + b ^ k * weigh b (l.drop k) = weigh b l := by
  conv_rhs => rw [← take_append_drop k l, weigh_append, length_take, Nat.min_eq_left hk]

lemma weigh_take_succ {k : ℕ} (hk : k < l.length) :
    weigh b (l.take (k + 1)) = weigh b (l.take k) + l.getD k 0 * b ^ k := by
  have hd : l.getD k 0 = l[k] := by
    rw [getD_eq_getElem?_getD, getElem?_eq_getElem hk]
    rfl
  rw [take_succ_eq_append_getElem hk, weigh_append, length_take, Nat.min_eq_left hk.le, hd]
  simp [mul_comm]

@[simp] lemma weigh_replicate_zero (n : ℕ) : weigh b (replicate n 0) = 0 := by
  induction n with
  | zero => rfl
  | succ n ih => rw [replicate_succ, weigh_cons, ih, mul_zero, add_zero]

lemma getD_set {j : ℕ} (hj : j < l.length) (d : ℤ) (k : ℕ) :
    (l.set j d).getD k 0 = if k = j then d else l.getD k 0 := by
  rw [getD_eq_getElem?_getD, getD_eq_getElem?_getD, getElem?_set]
  by_cases hk : k = j
  · rw [if_pos hk, if_pos hk.symm, if_pos (hk ▸ hj)]
    rfl
  · rw [if_neg hk, if_neg (Ne.symm hk)]

/-- Something is added at one place. -/
def addAt (l : List ℤ) (j : ℕ) (d : ℤ) : List ℤ := l.set j (l.getD j 0 + d)

@[simp] lemma length_addAt (l : List ℤ) (j : ℕ) (d : ℤ) : (addAt l j d).length = l.length := length_set ..

lemma weigh_addAt {j : ℕ} (hj : j < l.length) (d : ℤ) : weigh b (addAt l j d) = weigh b l + d * b ^ j := by
  rw [addAt, weigh_set hj, add_sub_cancel_left]

lemma getD_addAt {j : ℕ} (hj : j < l.length) (d : ℤ) (k : ℕ) :
    (addAt l j d).getD k 0 = l.getD k 0 + if k = j then d else 0 := by
  rw [addAt, getD_set hj]
  split
  · next h => rw [h]
  · rw [add_zero]

/-- No entry is beyond a bound, in either direction. -/
def Bounded (c : ℤ) (l : List ℤ) : Prop := ∀ k, -c ≤ l.getD k 0 ∧ l.getD k 0 ≤ c

lemma Bounded.addAt {c e d : ℤ} {j : ℕ} (h : Bounded c l) (hj : j < l.length) (hlow : -e ≤ d)
    (hhigh : d ≤ e) : Bounded (c + e) (addAt l j d) := by
  intro k
  have hk := h k
  rw [getD_addAt hj]
  split <;> constructor <;> linarith

/-! ### Digits in range -/

/-- All entries are digits of the base. -/
def InRange (b : ℤ) (l : List ℤ) : Prop := ∀ d ∈ l, 0 ≤ d ∧ d < b

lemma inRange_cons {d : ℤ} : InRange b (d :: l) ↔ (0 ≤ d ∧ d < b) ∧ InRange b l := forall_mem_cons

lemma inRange_iff_getD (hb : 0 < b) : InRange b l ↔ ∀ k, 0 ≤ l.getD k 0 ∧ l.getD k 0 < b := by
  constructor
  · intro h k
    rw [getD_eq_getElem?_getD]
    cases hk : l[k]? with
    | none => exact ⟨le_rfl, hb⟩
    | some d => exact h d (mem_of_getElem? hk)
  · intro h d hd
    obtain ⟨k, hk⟩ := getElem?_of_mem hd
    have := h k
    rw [getD_eq_getElem?_getD, hk] at this
    exact this

lemma InRange.take (h : InRange b l) (k : ℕ) : InRange b (l.take k) :=
  fun d hd => h d (mem_of_mem_take hd)

lemma InRange.drop (h : InRange b l) (k : ℕ) : InRange b (l.drop k) :=
  fun d hd => h d (mem_of_mem_drop hd)

lemma InRange.weigh_nonneg (hb : 0 ≤ b) (h : InRange b l) : 0 ≤ weigh b l := by
  induction l with
  | nil => exact le_rfl
  | cons d l ih =>
    rw [inRange_cons] at h
    exact add_nonneg h.1.1 (mul_nonneg hb (ih h.2))

lemma InRange.weigh_lt (hb : 0 ≤ b) (h : InRange b l) : weigh b l < b ^ l.length := by
  induction l with
  | nil =>
    rw [length_nil, pow_zero]
    exact Int.one_pos
  | cons d l ih =>
    rw [inRange_cons] at h
    have hrest : weigh b l + 1 ≤ b ^ l.length := ih h.2
    have hmul := mul_le_mul_of_nonneg_left hrest hb
    rw [weigh_cons, length_cons, pow_succ]
    linarith [h.1.2]

/-- A number below a power of the base has no digits from there on. -/
lemma InRange.weigh_drop_eq_zero (hb : 0 < b) (h : InRange b l) {k : ℕ} (hk : k ≤ l.length)
    (hlt : weigh b l < b ^ k) : weigh b (l.drop k) = 0 := by
  have hsplit := weigh_take_add_drop (b := b) l hk
  have hlow := (h.take k).weigh_nonneg hb.le
  have hhigh := (h.drop k).weigh_nonneg hb.le
  by_contra hne
  have hone : 1 ≤ weigh b (l.drop k) := by omega
  have hmul := mul_le_mul_of_nonneg_left hone (pow_pos hb k).le
  linarith

lemma InRange.eq_zero_of_weigh (hb : 0 < b) (h : InRange b l) (hzero : weigh b l = 0) : ∀ d ∈ l, d = 0 := by
  induction l with
  | nil => simp
  | cons d l ih =>
    rw [inRange_cons] at h
    have hnonneg := h.2.weigh_nonneg hb.le
    rw [weigh_cons] at hzero
    have hmul := mul_nonneg hb.le hnonneg
    have hd : d = 0 := by linarith [h.1.1]
    have hl : weigh b l = 0 := by
      have : b * weigh b l = 0 := by linarith
      exact (mul_eq_zero.1 this).resolve_left hb.ne'
    rw [forall_mem_cons]
    exact ⟨hd, ih h.2 hl⟩

lemma InRange.getD_eq_zero (hb : 0 < b) (h : InRange b l) {n k : ℕ} (hlt : weigh b l < b ^ n)
    (hk : n ≤ k) : l.getD k 0 = 0 := by
  by_cases hlen : k < l.length
  · have hzero := (h.drop n).eq_zero_of_weigh hb (h.weigh_drop_eq_zero hb (hk.trans hlen.le) hlt)
    rw [getD_eq_getElem?_getD]
    refine hzero _ (mem_of_getElem? (i := k - n) ?_)
    rw [getElem?_drop, Nat.add_sub_cancel' hk, getElem?_eq_getElem hlen]
    rfl
  · exact getD_eq_default _ _ (Nat.le_of_not_lt hlen)

lemma weigh_eq_zero (h : ∀ d ∈ l, d = 0) : weigh b l = 0 := by
  rw [eq_replicate_of_mem h, weigh_replicate_zero]

/-- The entry after the digits is a carry, which a number below that power of the base does not have. -/
lemma inRange_of_weigh {n : ℕ} (hb : 0 < b) (hn : n < l.length)
    (hdigits : ∀ k < n, 0 ≤ l.getD k 0 ∧ l.getD k 0 < b) (hrest : ∀ k, n < k → l.getD k 0 = 0)
    (hlow : 0 ≤ weigh b l) (hlt : weigh b l < b ^ n) : InRange b l := by
  have htake : InRange b (l.take n) := by
    refine (inRange_iff_getD hb).2 fun k => ?_
    rw [getD_eq_getElem?_getD, getElem?_take]
    split
    · next hk => exact hdigits k hk
    · exact ⟨le_rfl, hb⟩
  have hafter : weigh b (l.drop (n + 1)) = 0 := by
    refine weigh_eq_zero fun d hd => ?_
    obtain ⟨k, hk⟩ := getElem?_of_mem hd
    rw [getElem?_drop] at hk
    have := hrest (n + 1 + k) (by omega)
    rwa [getD_eq_getElem?_getD, hk] at this
  have hsplit := weigh_take_add_drop (b := b) l hn.le
  rw [drop_eq_getElem_cons hn, weigh_cons, hafter] at hsplit
  have hnonneg := htake.weigh_nonneg hb.le
  have hbelow := htake.weigh_lt hb.le
  rw [length_take, Nat.min_eq_left hn.le] at hbelow
  have hpow := pow_pos hb n
  have hcarry : l[n] = 0 := by
    by_contra hne
    rcases lt_or_gt_of_ne hne with hneg | hpos
    · have := mul_le_mul_of_nonneg_left (Int.le_sub_one_of_lt hneg) hpow.le
      linarith
    · have := mul_le_mul_of_nonneg_left (Int.add_one_le_of_lt hpos) hpow.le
      linarith
  refine (inRange_iff_getD hb).2 fun k => ?_
  rcases lt_trichotomy k n with hk | rfl | hk
  · exact hdigits k hk
  · rw [getD_eq_getElem?_getD, getElem?_eq_getElem hn, hcarry]
    exact ⟨le_rfl, hb⟩
  · rw [hrest k hk]
    exact ⟨le_rfl, hb⟩

end Positional
