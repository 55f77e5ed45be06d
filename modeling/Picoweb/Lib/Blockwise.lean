import Picoweb.Lib.ByteFile
import Mathlib.Data.List.GetD

/-!
# Working block by block on data that comes in pieces

A stream cipher adds a keystream to data, a hash absorbs data block by block. Both are used on data
handed over in pieces of any length. Here is what one pass over all of the data does, and how it splits
where the data does.
-/

namespace Blockwise

open ByteFile List

/-! ### Keystreams -/

/-- Adds the keystream from a position on. -/
def xorFrom (ks : ℕ → UInt8) : ℕ → Bytes → Bytes
  | _, [] => []
  | pos, b :: bs => (b ^^^ ks pos) :: xorFrom ks (pos + 1) bs

variable {data : Bytes}

section XorFrom

variable (ks : ℕ → UInt8)

@[simp] lemma length_xorFrom (pos : ℕ) (data : Bytes) : (xorFrom ks pos data).length = data.length := by
  induction data generalizing pos with
  | nil => rfl
  | cons b bs ih => simp only [xorFrom, length_cons, ih]

lemma xorFrom_append (pos : ℕ) (a b : Bytes) :
    xorFrom ks pos (a ++ b) = xorFrom ks pos a ++ xorFrom ks (pos + a.length) b := by
  induction a generalizing pos with
  | nil => rfl
  | cons x a ih =>
    simp only [cons_append, xorFrom, ih, length_cons]
    rw [Nat.add_right_comm, Nat.add_assoc]

lemma xorFrom_take_drop {n : ℕ} (hn : n ≤ data.length) (pos : ℕ) :
    xorFrom ks pos (data.take n) ++ xorFrom ks (pos + n) (data.drop n) = xorFrom ks pos data := by
  have hsplit := xorFrom_append ks pos (data.take n) (data.drop n)
  rw [take_append_drop, length_take, Nat.min_eq_left hn] at hsplit
  exact hsplit.symm

lemma xorFrom_xorFrom (pos : ℕ) (data : Bytes) : xorFrom ks pos (xorFrom ks pos data) = data := by
  induction data generalizing pos with
  | nil => rfl
  | cons b bs ih => simp only [xorFrom, ih, UInt8.xor_assoc, UInt8.xor_self, UInt8.xor_zero]

/-- A run of keystream bytes, added directly. -/
lemma zipWith_eq_xorFrom {pos : ℕ} {run : Bytes} (hlen : data.length ≤ run.length)
    (hrun : ∀ i < data.length, run.getD i 0 = ks (pos + i)) :
    zipWith (· ^^^ ·) data run = xorFrom ks pos data := by
  induction data generalizing pos run with
  | nil => rfl
  | cons b bs ih =>
    cases run with
    | nil => simp at hlen
    | cons r run =>
      have hhead : r = ks pos := by simpa using hrun 0 (by simp)
      have htail : zipWith (· ^^^ ·) bs run = xorFrom ks (pos + 1) bs := by
        refine ih (by simpa using hlen) fun i hi => ?_
        have := hrun (i + 1) (by simpa using hi)
        rw [getD_cons_succ] at this
        rw [this]
        congr 1
        omega
      simp only [zipWith_cons_cons, xorFrom, hhead, htail]

end XorFrom

/-- The keystream that blocks of one size make up. -/
def stream (size : ℕ) (block : ℕ → Bytes) (i : ℕ) : UInt8 := (block (i / size)).getD (i % size) 0

section Stream

variable {size : ℕ} {block : ℕ → Bytes}

/-- Part of a block is part of the keystream. -/
lemma stream_of_lt {n k : ℕ} (hk : k < size) : stream size block (size * n + k) = (block n).getD k 0 := by
  have hpos : 0 < size := by omega
  rw [stream, Nat.mul_add_div hpos, Nat.div_eq_of_lt hk, Nat.add_zero, Nat.mul_add_mod, Nat.mod_eq_of_lt hk]

/-- Data no longer than what is left of a block. -/
lemma zipWith_drop_block (hlen : ∀ n, (block n).length = size) {n k : ℕ} (hdata : k + data.length ≤ size) :
    zipWith (· ^^^ ·) data ((block n).drop k) = xorFrom (stream size block) (size * n + k) data := by
  apply zipWith_eq_xorFrom
  · rw [length_drop, hlen]
    omega
  · intro i hi
    rw [Nat.add_assoc, stream_of_lt (by omega)]
    simp [getD_eq_getElem?_getD]

lemma zipWith_block (hlen : ∀ n, (block n).length = size) {n : ℕ} (hdata : data.length ≤ size) :
    zipWith (· ^^^ ·) data (block n) = xorFrom (stream size block) (size * n) data :=
  zipWith_drop_block (k := 0) hlen (by omega)

lemma length_flatMap_range (hlen : ∀ n, (block n).length = size) (m : ℕ) :
    ((range m).flatMap block).length = size * m := by
  induction m with
  | zero => rfl
  | succ m ih =>
    rw [range_succ, flatMap_append, length_append, ih, flatMap_singleton, hlen, Nat.mul_succ]

/-- Blocks one behind the other are the keystream. -/
lemma getD_flatMap_range (hlen : ∀ n, (block n).length = size) {m i : ℕ} (hi : i < size * m) :
    ((range m).flatMap block).getD i 0 = stream size block i := by
  have hall := length_flatMap_range hlen
  induction m with
  | zero => simp at hi
  | succ m ih =>
    rw [range_succ, flatMap_append, flatMap_singleton]
    by_cases hlt : i < size * m
    · rw [getD_append _ _ _ _ (by rw [hall]; exact hlt), ih hlt]
    · obtain ⟨k, rfl⟩ := Nat.exists_eq_add_of_le (Nat.not_lt.1 hlt)
      rw [getD_append_right _ _ _ _ (by rw [hall]; omega), hall, Nat.add_sub_cancel_left, stream_of_lt]
      rw [Nat.mul_succ] at hi
      omega

lemma stream_add_block (hsize : 0 < size) (n i : ℕ) :
    stream size block (size * n + i) = stream size (fun k => block (n + k)) i := by
  rw [stream, stream, Nat.mul_add_div hsize, Nat.mul_add_mod]

end Stream

/-! ### Absorbing blocks -/

section Feed

variable {H : Type*} (size : ℕ) (absorb : H → Bytes → H)

/-- Absorbs the full blocks of the data; what is left is shorter than a block. `fuel` bounds the
blocks. -/
def feedLoop : ℕ → H → Bytes → H × Bytes
  | 0, h, data => (h, data)
  | fuel + 1, h, data =>
    if data.length < size then (h, data) else feedLoop fuel (absorb h (data.take size)) (data.drop size)

def feed (h : H) (data : Bytes) : H × Bytes := feedLoop size absorb data.length h data

variable {size absorb}

variable {h : H}

lemma feedLoop_eq_of_le (hsize : 0 < size) {fuel : ℕ} (hfuel : data.length ≤ fuel) :
    feedLoop size absorb fuel h data = feed size absorb h data := by
  have hmore (n k : ℕ) (h : H) (data : Bytes) (hn : data.length ≤ n) :
      feedLoop size absorb (n + k) h data = feedLoop size absorb n h data := by
    induction n generalizing h data with
    | zero =>
      have hnil : data = [] := length_eq_zero_iff.1 (Nat.le_zero.1 hn)
      subst hnil
      cases k with
      | zero => rfl
      | succ k => simp [feedLoop, hsize]
    | succ n ih =>
      rw [Nat.add_right_comm, feedLoop, feedLoop]
      split
      · rfl
      · apply ih
        rw [length_drop]
        omega
  obtain ⟨k, rfl⟩ := Nat.exists_eq_add_of_le hfuel
  exact hmore _ k h data le_rfl

lemma feed_of_lt (hlen : data.length < size) : feed size absorb h data = (h, data) := by
  unfold feed
  cases data with
  | nil => rfl
  | cons b bs => rw [length_cons, feedLoop, if_pos hlen]

lemma feed_of_le (hsize : 0 < size) (hlen : size ≤ data.length) :
    feed size absorb h data = feed size absorb (absorb h (data.take size)) (data.drop size) := by
  rw [← feedLoop_eq_of_le hsize (le_refl data.length)]
  obtain ⟨n, hn⟩ := Nat.exists_eq_add_of_lt (Nat.lt_of_lt_of_le hsize hlen)
  rw [hn, feedLoop, if_neg (by omega), feedLoop_eq_of_le hsize]
  rw [length_drop]
  omega

lemma length_feed_lt (hsize : 0 < size) : (feed size absorb h data).2.length < size := by
  induction hn : data.length using Nat.strong_induction_on generalizing h data with
  | _ n ih =>
    by_cases hlt : data.length < size
    · rw [feed_of_lt hlt]
      exact hlt
    · have hle : size ≤ data.length := Nat.not_lt.1 hlt
      rw [feed_of_le hsize hle]
      refine ih (data.drop size).length ?_ rfl
      rw [length_drop]
      omega

/-- Two runs over the same data stay related if every block keeps them so. -/
lemma feed_rel {H' : Type*} {absorb' : H' → Bytes → H'} {P : H → H' → Prop} (hsize : 0 < size)
    (hstep : ∀ h h' m, m.length = size → P h h' → P (absorb h m) (absorb' h' m)) {h' : H'} (hrel : P h h') :
    P (feed size absorb h data).1 (feed size absorb' h' data).1 ∧
      (feed size absorb h data).2 = (feed size absorb' h' data).2 := by
  induction hn : data.length using Nat.strong_induction_on generalizing h h' data with
  | _ n ih =>
    by_cases hlt : data.length < size
    · rw [feed_of_lt hlt, feed_of_lt hlt]
      exact ⟨hrel, rfl⟩
    · have hle : size ≤ data.length := Nat.not_lt.1 hlt
      rw [feed_of_le hsize hle, feed_of_le hsize hle]
      refine ih (data.drop size).length ?_ (hstep _ _ _ ?_ hrel) rfl
      · rw [length_drop]
        omega
      · rw [length_take, Nat.min_eq_left hle]

/-- Whole blocks first, the rest after. -/
lemma feed_append_of_dvd (hsize : 0 < size) {a b : Bytes} {n : ℕ} (ha : a.length = size * n) :
    feed size absorb h (a ++ b) = feed size absorb (feed size absorb h a).1 b := by
  induction n generalizing h a with
  | zero =>
    have hnil : a = [] := length_eq_zero_iff.1 (by simpa using ha)
    subst hnil
    have hempty : feed size absorb h [] = (h, []) := feed_of_lt hsize
    rw [hempty, nil_append]
  | succ n ih =>
    have hle : size ≤ a.length := by
      rw [ha, Nat.mul_succ]
      omega
    rw [feed_of_le hsize (by rw [length_append]; omega), feed_of_le hsize hle,
      take_append_of_le_length hle, drop_append_of_le_length hle, ih]
    rw [length_drop, ha, Nat.mul_succ, Nat.add_sub_cancel]

/-- What is left over goes in front of what comes next. -/
lemma feed_append (hsize : 0 < size) {a b : Bytes} : feed size absorb h (a ++ b) =
      feed size absorb (feed size absorb h a).1 ((feed size absorb h a).2 ++ b) := by
  induction hn : a.length using Nat.strong_induction_on generalizing h a with
  | _ n ih =>
    by_cases hlt : a.length < size
    · have hshort : feed size absorb h a = (h, a) := feed_of_lt hlt
      rw [hshort]
    · have hle : size ≤ a.length := Nat.not_lt.1 hlt
      have hfirst : feed size absorb h a = feed size absorb (absorb h (a.take size)) (a.drop size) :=
        feed_of_le hsize hle
      rw [feed_of_le hsize (by rw [length_append]; omega), take_append_of_le_length hle,
        drop_append_of_le_length hle, hfirst]
      refine ih (a.drop size).length ?_ rfl
      rw [length_drop]
      omega

end Feed

end Blockwise
