import Mathlib.Tactic

/-!
# Bit strings, least significant bit first

Numbers and byte strings as bit strings in the order in which a packer emits them, and programs that
read such strings from a position counted in bits.
-/

namespace Bits

/-! ### Numbers -/

/-- The low `w` bits of a number, least significant first. -/
def lsb : ℕ → ℕ → List Bool
  | 0, _ => []
  | w + 1, v => (v % 2 == 1) :: lsb w (v / 2)

def value : List Bool → ℕ
  | [] => 0
  | b :: bs => b.toNat + 2 * value bs

@[simp] lemma length_lsb (w v : ℕ) : (lsb w v).length = w := by
  induction w generalizing v with
  | zero => rfl
  | succ w ih => simp [lsb, ih]

lemma value_lt (bs : List Bool) : value bs < 2 ^ bs.length := by
  induction bs with
  | nil => simp [value]
  | cons b bs ih =>
    have hb : b.toNat ≤ 1 := Bool.toNat_le b
    simp only [value, List.length_cons]
    omega

@[simp] lemma lsb_value (bs : List Bool) : lsb bs.length (value bs) = bs := by
  induction bs with
  | nil => rfl
  | cons b bs ih =>
    have hhalf : (b.toNat + 2 * value bs) / 2 = value bs := by
      cases b <;> simp; omega
    cases b <;> simp_all [lsb, value]

lemma value_lsb (w v : ℕ) : value (lsb w v) = v % 2 ^ w := by
  induction w generalizing v with
  | zero => simp [lsb, value, Nat.mod_one]
  | succ w ih =>
    have hbit : (v % 2 == 1).toNat = v % 2 := by rcases Nat.mod_two_eq_zero_or_one v with h | h <;> simp [h]
    simp only [lsb, value, ih, hbit, pow_succ, mul_comm (2 ^ w) 2, Nat.mod_mul]

lemma value_lsb_of_lt {w v : ℕ} (hv : v < 2 ^ w) : value (lsb w v) = v := by
  rw [value_lsb, Nat.mod_eq_of_lt hv]

lemma value_append (as bs : List Bool) : value (as ++ bs) = value as + 2 ^ as.length * value bs := by
  induction as with
  | nil => simp [value]
  | cons a as ih => simp only [List.cons_append, value, ih, List.length_cons]; ring

lemma lsb_add (a b v : ℕ) : lsb (a + b) v = lsb a v ++ lsb b (v / 2 ^ a) := by
  induction a generalizing v with
  | zero => simp [lsb]
  | succ a ih =>
    rw [show a + 1 + b = (a + b) + 1 by omega]
    simp only [lsb, ih, List.cons_append, Nat.div_div_eq_div_mul, pow_succ, mul_comm]

lemma getElem?_lsb {i w : ℕ} (v : ℕ) (hi : i < w) : (lsb w v)[i]? = some (v.testBit i) := by
  induction w generalizing i v with
  | zero => omega
  | succ w ih =>
    cases i with
    | zero => simp [lsb, beq_eq_decide]
    | succ i => rw [Nat.testBit_succ, lsb, List.getElem?_cons_succ, ih (v / 2) (by omega)]

/-- A number placed above another one follows it in the bit string. -/
lemma lsb_add_mul {a u : ℕ} (b v : ℕ) (hu : u < 2 ^ a) : lsb (a + b) (u + 2 ^ a * v) = lsb a u ++ lsb b v := by
  have hdiv : (u + 2 ^ a * v) / 2 ^ a = v := by
    rw [Nat.add_mul_div_left _ _ (by positivity), Nat.div_eq_of_lt hu, zero_add]
  have hlow : lsb a (u + 2 ^ a * v) = lsb a u := by
    have h := lsb_value (lsb a (u + 2 ^ a * v))
    rw [value_lsb, Nat.add_mul_mod_self_left, Nat.mod_eq_of_lt hu, length_lsb] at h
    exact h.symm
  rw [lsb_add, hdiv, hlow]

@[simp] lemma lsb_zero_right (w : ℕ) : lsb w 0 = List.replicate w false := by
  induction w with
  | zero => rfl
  | succ w ih => simp [lsb, ih, List.replicate_succ]

lemma or_shiftLeft {u w : ℕ} (v : ℕ) (hu : u < 2 ^ w) : u ||| v <<< w = u + 2 ^ w * v := by
  rw [Nat.or_comm, ← Nat.shiftLeft_add_eq_or_of_lt hu, Nat.shiftLeft_eq, mul_comm, add_comm]

/-! ### Byte strings -/

def ofBytes (bytes : List UInt8) : List Bool := bytes.flatMap fun b => lsb 8 b.toNat

@[simp] lemma ofBytes_nil : ofBytes [] = [] := rfl

@[simp] lemma ofBytes_cons (b : UInt8) (bytes : List UInt8) :
    ofBytes (b :: bytes) = lsb 8 b.toNat ++ ofBytes bytes := rfl

@[simp] lemma ofBytes_append (as bs : List UInt8) : ofBytes (as ++ bs) = ofBytes as ++ ofBytes bs := by
  simp [ofBytes]

@[simp] lemma length_ofBytes (bytes : List UInt8) : (ofBytes bytes).length = 8 * bytes.length := by
  induction bytes with
  | nil => rfl
  | cons b bytes ih => simp [ih]; ring

lemma ofBytes_injective {as bs : List UInt8} (h : ofBytes as = ofBytes bs) : as = bs := by
  induction as generalizing bs with
  | nil =>
    have hlen := congrArg List.length h
    simp only [List.length_nil, length_ofBytes] at hlen
    exact (List.length_eq_zero_iff.1 (by omega)).symm
  | cons a as ih =>
    cases bs with
    | nil =>
      have hlen := congrArg List.length h
      simp at hlen
    | cons b bs =>
      rw [ofBytes_cons] at h
      obtain ⟨hhead, htail⟩ := List.append_inj h (by simp)
      have hab : a.toNat = b.toNat := by
        have ha := value_lsb_of_lt a.toNat_lt
        rw [hhead, value_lsb_of_lt b.toNat_lt] at ha
        exact ha.symm
      rw [ih htail, UInt8.toNat.inj hab]

@[simp] lemma drop_ofBytes (k : ℕ) (bytes : List UInt8) : (ofBytes bytes).drop (8 * k) = ofBytes (bytes.drop k) := by
  induction k generalizing bytes with
  | zero => simp
  | succ k ih =>
    cases bytes with
    | nil => simp
    | cons b bytes =>
      rw [ofBytes_cons, List.drop_append, List.drop_eq_nil_of_le (by simp), List.drop_succ_cons,
        ← ih bytes, length_lsb, show 8 * (k + 1) - 8 = 8 * k by omega, List.nil_append]

lemma getElem?_ofBytes (bytes : List UInt8) (k : ℕ) {j : ℕ} (hj : j < 8) :
    (ofBytes bytes)[8 * k + j]? = bytes[k]?.map fun b => b.toNat.testBit j := by
  rw [← List.getElem?_drop, drop_ofBytes]
  cases hk : bytes.drop k with
  | nil =>
    have hlen : bytes.length ≤ k := List.drop_eq_nil_iff.1 hk
    simp [List.getElem?_eq_none hlen]
  | cons b rest =>
    have hb : bytes[k]? = some b := by rw [← List.head?_drop, hk, List.head?_cons]
    rw [ofBytes_cons, List.getElem?_append_left (by simpa using hj), getElem?_lsb _ hj, hb, Option.map_some]

end Bits
