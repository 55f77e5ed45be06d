import Picoweb.Lib.Bits

/-!
# Canonical prefix codes

A code is given by the length of each symbol's codeword, zero for a symbol without one. The canonical
code numbers the words of each length consecutively, in the order of the symbols, and starts each
length where the shorter words end. Where the lengths satisfy Kraft's inequality, every number fits
its word and no word is the beginning of another.
-/

namespace PrefixCode

open Bits List

/-- What a codeword of length `l` takes of a code space of size `2 ^ top`. -/
def share (top l : ℕ) : ℕ := if l = 0 then 0 else 2 ^ (top - l)

/-- The part of the code space that is taken. -/
def kraft (top : ℕ) (lens : List ℕ) : ℕ := (lens.map (share top)).sum

/-- The first code of each length. -/
def firstCode (lens : List ℕ) : ℕ → ℕ
  | 0 => 0
  | b + 1 => 2 * (firstCode lens b + if b = 0 then 0 else lens.count b)

/-- The code of the symbol `s`, whose length is `l`. -/
def code (lens : List ℕ) (l s : ℕ) : ℕ := firstCode lens l + (lens.take s).count l

/-- The codeword of `s`, most significant bit first. -/
def word (lens : List ℕ) (l s : ℕ) : List Bool := (lsb l (code lens l s)).reverse

/-! ### The code space -/

@[simp] lemma share_zero (top : ℕ) : share top 0 = 0 := rfl

variable {l top : ℕ}

lemma share_of_ne_zero (hl : l ≠ 0) : share top l = 2 ^ (top - l) := if_neg hl

lemma ite_add_share (top l n : ℕ) : (if l ≠ 0 then n + 1 <<< (top - l) else n) = n + share top l := by
  by_cases hl : l = 0
  · simp [hl]
  · rw [if_pos hl, share_of_ne_zero hl, Nat.shiftLeft_eq, one_mul]

@[simp] lemma kraft_nil (top : ℕ) : kraft top [] = 0 := rfl

@[simp] lemma kraft_cons (top l : ℕ) (lens : List ℕ) : kraft top (l :: lens) = share top l + kraft top lens := rfl

@[simp] lemma kraft_append (top : ℕ) (as bs : List ℕ) : kraft top (as ++ bs) = kraft top as + kraft top bs := by
  simp [kraft]

@[simp] lemma kraft_replicate_zero (top n : ℕ) : kraft top (replicate n 0) = 0 := by
  simp [kraft]

variable {lens : List ℕ}

lemma kraft_pos (hl : l ∈ lens) (hne : l ≠ 0) : 0 < kraft top lens := by
  have hshare : share top l ≤ kraft top lens := single_le_sum (by simp) _ (mem_map_of_mem hl)
  refine lt_of_lt_of_le ?_ hshare
  rw [share_of_ne_zero hne]
  positivity

/-- A larger space of codes scales every share. -/
lemma kraft_add (d : ℕ) (hle : ∀ l ∈ lens, l ≤ top) : kraft (top + d) lens = 2 ^ d * kraft top lens := by
  induction lens with
  | nil => simp
  | cons l lens ih =>
    simp only [forall_mem_cons] at hle
    have hshare : share (top + d) l = 2 ^ d * share top l := by
      by_cases hl : l = 0
      · simp [hl]
      · rw [share_of_ne_zero hl, share_of_ne_zero hl, ← pow_add]
        congr 1
        omega
    rw [kraft_cons, kraft_cons, ih hle.2, hshare, mul_add]

lemma kraft_filter_le (top : ℕ) (lens : List ℕ) (p : ℕ → Bool) : kraft top (lens.filter p) ≤ kraft top lens := by
  induction lens with
  | nil => simp
  | cons l lens ih =>
    rw [filter_cons]
    split_ifs <;> simp only [kraft_cons] <;> omega

lemma kraft_filter_succ (top b : ℕ) (lens : List ℕ) : kraft top (lens.filter (· < b + 1)) =
      kraft top (lens.filter (· < b)) + (if b = 0 then 0 else lens.count b) * 2 ^ (top - b) := by
  induction lens with
  | nil => simp
  | cons l lens ih =>
    rw [filter_cons, filter_cons, count_cons]
    simp only [decide_eq_true_eq, beq_iff_eq]
    rcases lt_trichotomy l b with h | rfl | h
    · rw [if_pos (by omega), if_pos h, kraft_cons, kraft_cons, ih, if_neg h.ne, add_zero, add_assoc]
    · rw [if_pos (by omega), if_neg (by omega), if_pos rfl, kraft_cons, ih, share]
      split_ifs <;> ring
    · rw [if_neg (by omega), if_neg (by omega), ih, if_neg h.ne', add_zero]

/-- The words of length `b` start where the shorter ones end. -/
lemma firstCode_mul {b : ℕ} (lens : List ℕ) (hb : b ≤ top) :
    firstCode lens b * 2 ^ (top - b) = kraft top (lens.filter (· < b)) := by
  induction b with
  | zero => simp [firstCode]
  | succ b ih =>
    have hpow : 2 ^ (top - b) = 2 * 2 ^ (top - (b + 1)) := by
      rw [← pow_succ']
      congr 1
      omega
    rw [kraft_filter_succ, ← ih (by omega), firstCode, hpow]
    ring

/-! ### Codes fit their words -/

section Kraft

variable {top : ℕ} {lens : List ℕ} (hkraft : kraft top lens ≤ 2 ^ top)

include hkraft

lemma firstCode_add_count_le (hl : l ≠ 0) (hle : l ≤ top) : firstCode lens l + lens.count l ≤ 2 ^ l := by
  refine Nat.le_of_mul_le_mul_right ?_ (Nat.two_pow_pos (top - l))
  calc (firstCode lens l + lens.count l) * 2 ^ (top - l) = kraft top (lens.filter (· < l + 1)) := by
        rw [kraft_filter_succ, ← firstCode_mul lens hle, if_neg hl, add_mul]
    _ ≤ 2 ^ top := (kraft_filter_le top lens _).trans hkraft
    _ = 2 ^ l * 2 ^ (top - l) := by rw [← pow_add, Nat.add_sub_cancel' hle]

lemma firstCode_le (hle : l ≤ top) : firstCode lens l ≤ 2 ^ l := by
  rcases Nat.eq_zero_or_pos l with rfl | hl
  · simp [firstCode]
  · exact (Nat.le_add_right _ _).trans (firstCode_add_count_le hkraft hl.ne' hle)

end Kraft

lemma count_take_lt {s : ℕ} (hs : lens[s]? = some l) : (lens.take s).count l < lens.count l := by
  obtain ⟨hlt, hget⟩ := List.getElem?_eq_some_iff.1 hs
  have hsplit : lens = lens.take s ++ l :: lens.drop (s + 1) := by
    rw [← hget, ← List.drop_eq_getElem_cons hlt, List.take_append_drop]
  conv_rhs => rw [hsplit]
  simp only [List.count_append, List.count_cons_self]
  omega

lemma count_take_lt_take {s s' : ℕ} (hs : lens[s]? = some l) (hlt : s < s') :
    (lens.take s).count l < (lens.take s').count l := by
  have h := count_take_lt (show (lens.take s')[s]? = some l by rwa [getElem?_take_of_lt hlt])
  rwa [take_take, min_eq_left hlt.le] at h

lemma code_lt {s : ℕ} (hkraft : kraft top lens ≤ 2 ^ top)
    (hs : lens[s]? = some l) (hl : l ≠ 0) (hle : l ≤ top) : code lens l s < 2 ^ l := by
  have hcount := count_take_lt hs
  have hbound := firstCode_add_count_le hkraft hl hle
  rw [code]
  omega

lemma mul_pow_le_firstCode (lens : List ℕ) {b : ℕ} (hb : b ≠ 0) (d : ℕ) :
    (firstCode lens b + lens.count b) * 2 ^ (d + 1) ≤ firstCode lens (b + d + 1) := by
  induction d with
  | zero => simp [firstCode, hb, mul_comm]
  | succ d ih =>
    calc (firstCode lens b + lens.count b) * 2 ^ (d + 1 + 1)
        = 2 * ((firstCode lens b + lens.count b) * 2 ^ (d + 1)) := by ring
      _ ≤ 2 * firstCode lens (b + d + 1) := Nat.mul_le_mul_left 2 ih
      _ ≤ firstCode lens (b + (d + 1) + 1) := Nat.mul_le_mul_left 2 (Nat.le_add_right _ _)

/-- A word of smaller length ends before every longer word starts. -/
lemma code_succ_mul_le {s l' : ℕ} (s' : ℕ) (hs : lens[s]? = some l) (hl : l ≠ 0)
    (hlt : l < l') : (code lens l s + 1) * 2 ^ (l' - l) ≤ code lens l' s' := by
  obtain ⟨d, rfl⟩ : ∃ d, l' = l + d + 1 := ⟨l' - l - 1, by omega⟩
  have hcount := count_take_lt hs
  calc (code lens l s + 1) * 2 ^ (l + d + 1 - l) ≤ (firstCode lens l + lens.count l) * 2 ^ (d + 1) := by
        rw [show l + d + 1 - l = d + 1 by omega]
        refine Nat.mul_le_mul_right _ ?_
        rw [code]
        omega
    _ ≤ firstCode lens (l + d + 1) := mul_pow_le_firstCode lens hl d
    _ ≤ code lens (l + d + 1) s' := Nat.le_add_right _ _

/-- A word that begins another one holds the high bits of the other's code. -/
lemma code_of_prefix {l' c c' : ℕ} (hc : c < 2 ^ l) (hc' : c' < 2 ^ l')
    (h : (lsb l c).reverse <+: (lsb l' c').reverse) : l ≤ l' ∧ c = c' / 2 ^ (l' - l) := by
  have hle : l ≤ l' := by simpa using h.length_le
  refine ⟨hle, ?_⟩
  rw [List.reverse_prefix] at h
  obtain ⟨low, hlow⟩ := h
  have hlen := congrArg length hlow
  simp only [length_append, length_lsb] at hlen
  have hsplit : lsb l' c' = lsb (l' - l) c' ++ lsb l (c' / 2 ^ (l' - l)) := by
    rw [← lsb_add, Nat.sub_add_cancel hle]
  have hhigh := (append_inj (hlow.trans hsplit) (by simp; omega)).2
  have hbound : c' / 2 ^ (l' - l) < 2 ^ l := by
    rw [Nat.div_lt_iff_lt_mul (by positivity), ← pow_add, Nat.add_sub_cancel' hle]
    exact hc'
  rw [← value_lsb_of_lt hc, hhigh, value_lsb_of_lt hbound]

theorem word_prefix_free (hkraft : kraft top lens ≤ 2 ^ top)
    (hle : ∀ l ∈ lens, l ≤ top) {s s' l' : ℕ} (hs : lens[s]? = some l) (hs' : lens[s']? = some l')
    (hl : l ≠ 0) (hl' : l' ≠ 0) (h : word lens l s <+: word lens l' s') : s = s' := by
  have hc := code_lt hkraft hs hl (hle l (mem_of_getElem? hs))
  have hc' := code_lt hkraft hs' hl' (hle l' (mem_of_getElem? hs'))
  obtain ⟨hll, hdiv⟩ := code_of_prefix hc hc' h
  rcases hll.lt_or_eq with hlt | rfl
  · -- the longer word starts after the whole range of the shorter one
    have hafter := code_succ_mul_le s' hs hl hlt
    have hwithin := Nat.lt_div_mul_add (a := code lens l' s') (Nat.two_pow_pos (l' - l))
    rw [← hdiv] at hwithin
    rw [add_mul] at hafter
    omega
  · rw [Nat.sub_self, code, code] at hdiv
    by_contra hne
    rcases Nat.lt_or_gt_of_ne hne with hlt | hlt
    · have := count_take_lt_take hs hlt
      omega
    · have := count_take_lt_take hs' hlt
      omega

end PrefixCode
