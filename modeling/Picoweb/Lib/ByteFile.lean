import Mathlib.Data.List.Basic
import Mathlib.Tactic

/-!
# Files as byte lists

Little-endian fixed-width integers, and reads and writes at an offset of a file that is a list of
bytes. A read that runs past the end fails; a write past the end extends the file, and the gap it
leaves reads as zeros.
-/

namespace ByteFile

open List

abbrev Bytes := List UInt8

/-! ### Little-endian integers -/

/-- The `w` low bytes of `n`, least significant first. -/
def leBytes : ℕ → ℕ → Bytes
  | 0, _ => []
  | w + 1, n => UInt8.ofNat n :: leBytes w (n / 256)

/-- The number a little-endian byte string stands for. -/
def leNat : Bytes → ℕ
  | [] => 0
  | b :: bs => b.toNat + 256 * leNat bs

@[simp] lemma length_leBytes (w n : ℕ) : (leBytes w n).length = w := by
  induction w generalizing n with
  | zero => rfl
  | succ w ih => simp [leBytes, ih]

variable {n len off : ℕ}

@[simp] lemma drop_leBytes {w k : ℕ} (h : w ≤ k) : (leBytes w n).drop k = [] :=
  drop_eq_nil_of_le (by simpa using h)

@[simp] lemma take_leBytes {w k : ℕ} (h : w ≤ k) : (leBytes w n).take k = leBytes w n :=
  take_of_length_le (by simpa using h)

lemma leNat_leBytes (w n : ℕ) : leNat (leBytes w n) = n % 256 ^ w := by
  induction w generalizing n with
  | zero => simp [leBytes, leNat, Nat.mod_one]
  | succ w ih =>
    simp only [leBytes, leNat, ih, UInt8.toNat_ofNat']
    rw [pow_succ' 256 w, Nat.mod_mul]

@[simp] lemma leNat_leBytes_uInt32 (x : UInt32) : leNat (leBytes 4 x.toNat) = x.toNat := by
  rw [leNat_leBytes]
  exact Nat.mod_eq_of_lt x.toNat_lt

@[simp] lemma leNat_leBytes_uInt64 (x : UInt64) : leNat (leBytes 8 x.toNat) = x.toNat := by
  rw [leNat_leBytes]
  exact Nat.mod_eq_of_lt x.toNat_lt

@[simp] lemma leNat_leBytes_uInt16 (x : UInt16) : leNat (leBytes 2 x.toNat) = x.toNat := by
  rw [leNat_leBytes]
  exact Nat.mod_eq_of_lt x.toNat_lt

/-! ### Reads -/

/-- The `len` bytes at `off`, if the file has them all. -/
def readAt (f : Bytes) (len off : ℕ) : Option Bytes :=
  if len = 0 ∨ off + len ≤ f.length then some ((f.drop off).take len) else none

variable {f data : Bytes}

lemma readAt_eq_some (h : off + len ≤ f.length) : readAt f len off = some ((f.drop off).take len) := by
  simp [readAt, h]

lemma readAt_eq_none (hl : len ≠ 0) (h : f.length < off + len) : readAt f len off = none := by
  have : ¬ off + len ≤ f.length := by omega
  simp [readAt, hl, this]

lemma length_of_readAt {b : Bytes} (h : readAt f len off = some b) : b.length = len := by
  unfold readAt at h
  split_ifs at h with hc
  · cases h
    rcases hc with rfl | hc
    · simp
    · simp; omega

lemma readAt_take (h : off + len ≤ n) : readAt (f.take n) len off = readAt f len off := by
  have hlen : (off + len ≤ (f.take n).length) = (off + len ≤ f.length) := by
    simp [h]
  have hslice : ((f.take n).drop off).take len = (f.drop off).take len := by
    rw [drop_take, take_take, Nat.min_eq_left (by omega)]
  simp only [readAt, hlen, hslice]

lemma readAt_congr {g : Bytes} (hfg : f.take n = g.take n) (h : off + len ≤ n) :
    readAt f len off = readAt g len off := by
  rw [← readAt_take h, hfg, readAt_take h]

lemma readAt_of_drop {b rest : Bytes} (h : f.drop off = b ++ rest)
    (hoff : off ≤ f.length) : readAt f b.length off = some b := by
  have hl := congrArg List.length h
  simp only [length_drop, length_append] at hl
  rw [readAt_eq_some (by omega), h]
  simp

/-! ### Writes -/

/-- Overwrite the bytes at `off` with `data`, extending the file where it is too short. -/
def writeAt (f data : Bytes) (off : ℕ) : Bytes :=
  if data = [] then f
  else f.take off ++ List.replicate (off - f.length) 0 ++ data ++ f.drop (off + data.length)

/-- A write that starts inside the file (or right at its end) leaves no gap. -/
lemma writeAt_of_le (h : off ≤ f.length) : writeAt f data off = f.take off ++ data ++ f.drop (off + data.length) := by
  unfold writeAt
  split_ifs with hd
  · simp [hd]
  · simp [Nat.sub_eq_zero_of_le h]

lemma length_writeAt (h : off ≤ f.length) : (writeAt f data off).length = max f.length (off + data.length) := by
  rw [writeAt_of_le h]
  simp only [length_append, length_take, length_drop]
  omega

lemma take_writeAt (h : off ≤ f.length) (hn : n ≤ off) : (writeAt f data off).take n = f.take n := by
  have hl : n ≤ (f.take off).length := by simp [length_take]; omega
  rw [writeAt_of_le h, append_assoc, take_append_of_le_length hl, take_take, Nat.min_eq_left hn]

lemma drop_writeAt {f data : Bytes} {off : ℕ} (h : off ≤ f.length) :
    (writeAt f data off).drop off = data ++ f.drop (off + data.length) := by
  have hl : (f.take off).length = off := by simp [length_take, h]
  rw [writeAt_of_le h, append_assoc, drop_append_of_le_length hl.ge]
  simp [drop_eq_nil_of_le hl.le]

lemma drop_writeAt_after (h : off ≤ f.length)
    (hn : off + data.length ≤ n) : (writeAt f data off).drop n = f.drop n := by
  obtain ⟨d, rfl⟩ := Nat.exists_eq_add_of_le hn
  rw [Nat.add_assoc, ← drop_drop, drop_writeAt h]
  simp [Nat.add_assoc]

lemma take_writeAt_end (h : off ≤ f.length) : (writeAt f data off).take (off + data.length) = f.take off ++ data := by
  have hl : (f.take off).length = off := by simp [length_take, h]
  have hl' : (f.take off ++ data).length = off + data.length := by rw [length_append, hl]
  rw [writeAt_of_le h, take_append_of_le_length hl'.ge, take_of_length_le hl'.le]

lemma writeAt_writeAt {a b : Bytes} (h : off ≤ f.length) :
    writeAt (writeAt f a off) b (off + a.length) = writeAt f (a ++ b) off := by
  have h' : off + a.length ≤ (writeAt f a off).length := by
    rw [length_writeAt h]; omega
  have hd : (writeAt f a off).drop (off + a.length + b.length) = f.drop (off + (a ++ b).length) := by
    rw [drop_writeAt_after h (by omega), length_append, Nat.add_assoc]
  rw [writeAt_of_le h', take_writeAt_end h, hd, writeAt_of_le h]
  simp [append_assoc]

lemma readAt_writeAt_after (h : off + data.length ≤ f.length)
    (hn : off + data.length ≤ n) : readAt (writeAt f data off) len n = readAt f len n := by
  have hl : (writeAt f data off).length = f.length := by
    rw [length_writeAt (by omega), Nat.max_eq_left h]
  rw [readAt, readAt, hl, drop_writeAt_after (by omega) hn]

end ByteFile
