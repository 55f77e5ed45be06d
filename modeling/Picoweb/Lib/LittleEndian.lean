import Picoweb.Lib.ByteFile

/-!
# Parts of little-endian numbers

The bytes at a place of a byte string are digits of the number it stands for.
-/

namespace ByteFile

open List

lemma leNat_lt (bytes : Bytes) : leNat bytes < 256 ^ bytes.length := by
  induction bytes with
  | nil => exact Nat.one_pos
  | cons b bs ih =>
    have hb := b.toNat_lt
    rw [leNat, length_cons]
    omega

lemma leNat_append (a b : Bytes) : leNat (a ++ b) = leNat a + 256 ^ a.length * leNat b := by
  induction a with
  | nil => simp [leNat]
  | cons x a ih =>
    rw [cons_append, leNat, leNat, ih, length_cons]
    ring

lemma leNat_drop (bytes : Bytes) (k : ℕ) : leNat (bytes.drop k) = leNat bytes / 256 ^ k := by
  induction k generalizing bytes with
  | zero => simp
  | succ k ih =>
    cases bytes with
    | nil => simp [leNat]
    | cons b bs =>
      have hb := b.toNat_lt
      rw [drop_succ_cons, ih, leNat, pow_succ', ← Nat.div_div_eq_div_mul]
      congr 1
      omega

lemma leNat_take (bytes : Bytes) (k : ℕ) : leNat (bytes.take k) = leNat bytes % 256 ^ k := by
  induction k generalizing bytes with
  | zero => simp [leNat, Nat.mod_one]
  | succ k ih =>
    cases bytes with
    | nil => simp [leNat]
    | cons b bs =>
      have hb := b.toNat_lt
      rw [take_succ_cons, leNat, leNat, ih, pow_succ', Nat.mod_mul]
      congr 1
      · omega
      · congr 2
        omega

lemma toNat_getD (bytes : Bytes) (i : ℕ) : (bytes.getD i 0).toNat = leNat bytes / 2 ^ (8 * i) % 2 ^ 8 := by
  have hpow : (2 : ℕ) ^ (8 * i) = 256 ^ i := pow_mul 2 8 i
  rw [hpow, ← leNat_drop, getD_eq_getElem?_getD, ← head?_drop]
  cases bytes.drop i with
  | nil => rfl
  | cons b bs =>
    have hb := b.toNat_lt
    rw [leNat]
    change b.toNat = _
    omega

lemma testBit_leNat (bytes : Bytes) (t : ℕ) :
    (leNat bytes).testBit t = (bytes.getD (t / 8) 0).toNat.testBit (t % 8) := by
  have hlt : t % 8 < 8 := Nat.mod_lt _ (by decide)
  rw [toNat_getD, Nat.testBit_mod_two_pow, ← Nat.shiftRight_eq_div_pow, Nat.testBit_shiftRight, Nat.div_add_mod,
    decide_eq_true hlt, Bool.true_and]

lemma leNat_set {bytes : Bytes} {i : ℕ} (hi : i < bytes.length) (b : UInt8) :
    leNat (bytes.set i b) + (bytes.getD i 0).toNat * 256 ^ i = leNat bytes + b.toNat * 256 ^ i := by
  induction bytes generalizing i with
  | nil => exact absurd hi (Nat.not_lt_zero i)
  | cons c bytes ih =>
    cases i with
    | zero =>
      simp only [set_cons_zero, leNat, getD_cons_zero]
      omega
    | succ i =>
      have hi' : i < bytes.length := Nat.lt_of_succ_lt_succ hi
      rw [set_cons_succ, leNat, leNat, getD_cons_succ, pow_succ]
      linarith [ih hi']

@[simp] lemma leNat_replicate_zero (n : ℕ) : leNat (replicate n 0) = 0 := by
  induction n with
  | zero => rfl
  | succ n ih => rw [replicate_succ, leNat, ih]; rfl

lemma leBytes_leNat (bytes : Bytes) : leBytes bytes.length (leNat bytes) = bytes := by
  induction bytes with
  | nil => rfl
  | cons b bs ih =>
    have hb := b.toNat_lt
    have hhead : UInt8.ofNat (b.toNat + 256 * leNat bs) = b := by
      apply UInt8.toNat_inj.1
      rw [UInt8.toNat_ofNat']
      omega
    have htail : (b.toNat + 256 * leNat bs) / 256 = leNat bs := by omega
    rw [length_cons, leNat, leBytes, hhead, htail, ih]

lemma eq_leBytes {bytes : Bytes} {w n : ℕ} (hlen : bytes.length = w) (hn : leNat bytes = n) :
    bytes = leBytes w n := by
  rw [← hlen, ← hn, leBytes_leNat]

/-! ### Words that hold bits of a number -/

/-- The word holds `w` bits of the number, from bit `k` on. -/
def Window (a : UInt64) (n k w : ℕ) : Prop := a.toNat = n / 2 ^ k % 2 ^ w

namespace Window

variable {c d : UInt64} {n k w v : ℕ}

lemma lt (h : Window c n k w) : c.toNat < 2 ^ w := h ▸ Nat.mod_lt _ (Nat.two_pow_pos w)

lemma or_shift (hc : Window c n k w) (hd : Window d n (k + w) v) {sh : UInt64} (hsh : sh.toNat = w := by decide)
    (hw : w < 64 := by decide) (hwv : w + v ≤ 64 := by decide) : Window (c ||| (d <<< sh)) n k (w + v) := by
  have hlt : d.toNat * 2 ^ w < 2 ^ 64 := by
    calc d.toNat * 2 ^ w < 2 ^ v * 2 ^ w := Nat.mul_lt_mul_of_pos_right hd.lt (Nat.two_pow_pos w)
      _ = 2 ^ (w + v) := by rw [← pow_add, Nat.add_comm]
      _ ≤ 2 ^ 64 := Nat.pow_le_pow_right (by decide) hwv
  have hmod : sh.toNat % 64 = w := by omega
  rw [Window, UInt64.toNat_or, UInt64.toNat_shiftLeft, hmod, Nat.shiftLeft_eq, Nat.mod_eq_of_lt hlt, Nat.or_comm,
    Nat.mul_comm, ← Nat.two_pow_add_eq_or_of_lt hc.lt, hc, hd, pow_add, ← Nat.div_div_eq_div_mul, pow_add,
    Nat.mod_mul, Nat.add_comm]

lemma shiftRight (hc : Window c n k w) (sh : UInt64) (v : ℕ) (hsh : sh.toNat < 64 := by decide)
    (hv : sh.toNat + v = w := by decide) : Window (c >>> sh) n (k + sh.toNat) v := by
  rw [Window, UInt64.toNat_shiftRight, Nat.mod_eq_of_lt hsh, Nat.shiftRight_eq_div_pow, hc, ← hv, pow_add, pow_add,
    Nat.mod_mul_right_div_self, Nat.div_div_eq_div_mul]

lemma and_mask (hc : Window c n k w) (m : UInt64) (v : ℕ) (hm : m.toNat = 2 ^ v - 1 := by decide)
    (hv : v ≤ w := by decide) : Window (c &&& m) n k v := by
  rw [Window, UInt64.toNat_and, hm, Nat.and_two_pow_sub_one_eq_mod, hc, Nat.mod_mod_of_dvd _ (pow_dvd_pow 2 hv)]

lemma toUInt8 (hc : Window c n k w) (hw : 8 ≤ w := by decide) : c.toUInt8 = UInt8.ofNat (n / 2 ^ k) := by
  apply UInt8.toNat_inj.1
  rw [UInt64.toNat_toUInt8, hc]
  exact Nat.mod_mod_of_dvd _ (pow_dvd_pow 2 hw)

lemma byte (hc : Window c n k w) (sh : UInt64) (hw : sh.toNat + 8 ≤ min w 64 := by decide) :
    (c >>> sh).toUInt8 = UInt8.ofNat (n / 2 ^ (k + sh.toNat)) :=
  (hc.shiftRight sh (w - sh.toNat) (by omega) (by omega)).toUInt8 (by omega)

end Window

lemma leBytes_eq_map (w n : ℕ) : leBytes w n = (range w).map fun i => UInt8.ofNat (n / 2 ^ (8 * i)) := by
  induction w generalizing n with
  | zero => rfl
  | succ w ih =>
    rw [leBytes, ih, range_succ_eq_map, map_cons, map_map]
    congr 1
    · rw [pow_zero, Nat.div_one]
    · apply map_congr_left
      intro i _
      rw [Function.comp_apply, Nat.div_div_eq_div_mul, Nat.mul_succ, pow_add, Nat.mul_comm 256]
      rfl

end ByteFile
