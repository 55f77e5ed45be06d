import Mathlib.Algebra.Order.Ring.Nat
import Mathlib.Data.Nat.Bitwise
import Mathlib.Tactic.LinearCombination

/-!
# Computations on machine words that fit

A computation on words of fixed size wraps around where a result does not fit. Here it comes with
whether all of its results did fit, so that one proof gives both its exact result and that nothing
wrapped around.
-/

universe u

/-- A value, and whether every result on the way to it fitted its word. -/
structure Checked (α : Type u) where
  val : α
  fits : Bool
  deriving DecidableEq, Repr

namespace Checked

variable {α : Type u} {β : Type u}

instance : Monad Checked where
  pure a := ⟨a, true⟩
  bind x f := ⟨(f x.val).val, x.fits && (f x.val).fits⟩

@[simp] lemma fits_bind (x : Checked α) (f : α → Checked β) : (x >>= f).fits = (x.fits && (f x.val).fits) := rfl

/-- A result whose exact value is known, in a word of some size. -/
def within (size n : ℕ) (a : α) : Checked α := ⟨a, decide (n < size)⟩

/-- Everything fits, and the value is as stated. -/
def Yields (x : Checked α) (P : α → Prop) : Prop := x.fits = true ∧ P x.val

namespace Yields

variable {P : α → Prop} {Q : β → Prop}

protected lemma pure {a : α} (h : P a) : Yields (pure a) P := ⟨rfl, h⟩

protected lemma bind {x : Checked α} {f : α → Checked β} (hx : Yields x P) (hf : ∀ a, P a → Yields (f a) Q) :
    Yields (x >>= f) Q := by
  obtain ⟨hfits, hP⟩ := hx
  obtain ⟨hfits', hQ⟩ := hf x.val hP
  refine ⟨?_, hQ⟩
  rw [fits_bind, hfits, hfits']
  rfl

lemma mono {x : Checked α} {P' : α → Prop} (hx : Yields x P) (h : ∀ a, P a → P' a) : Yields x P' :=
  ⟨hx.1, h _ hx.2⟩

/-- A computation with a known value that fits. -/
lemma eq_mk {x : Checked α} {a : α} (hx : Yields x fun b => b = a) : x = ⟨a, true⟩ := by
  obtain ⟨hfits, hval⟩ := hx
  rw [← hval, ← hfits]

/-- The rule for a counted loop, with an invariant that speaks of the counter. -/
protected lemma range' {R : α → ℕ → Prop} {step : α → ℕ → Checked α} {a : α} {s n : ℕ} (ha : R a s)
    (hstep : ∀ a i, s ≤ i → i < s + n → R a i → Yields (step a i) (R · (i + 1))) :
    Yields ((List.range' s n).foldlM step a) (R · (s + n)) := by
  induction n generalizing a s with
  | zero => exact .pure ha
  | succ n ih =>
    have hshift : s + (n + 1) = s + 1 + n := by omega
    rw [hshift]
    refine .bind (hstep a s le_rfl (by omega) ha) fun a' ha' => ih ha' fun b i hi hlt => ?_
    exact hstep b i (by omega) (by omega)

protected lemma range {R : α → ℕ → Prop} {step : α → ℕ → Checked α} {a : α} {n : ℕ} (ha : R a 0)
    (hstep : ∀ a i, i < n → R a i → Yields (step a i) (R · (i + 1))) :
    Yields ((List.range n).foldlM step a) (R · n) := by
  have h := Yields.range' (s := 0) (n := n) ha fun b i _ hi => hstep b i (by omega)
  rwa [← List.range_eq_range', Nat.zero_add] at h

end Yields

lemma yields_within {size n : ℕ} {a : α} {toNat : α → ℕ} (ha : toNat a = n % size) (h : n < size) :
    Yields (within size n a) fun a => toNat a = n :=
  ⟨decide_eq_true h, ha.trans (Nat.mod_eq_of_lt h)⟩

/-! ### Words of 32 and 64 bits -/

def add32 (a b : UInt32) : Checked UInt32 := within (2 ^ 32) (a.toNat + b.toNat) (a + b)

def mul32 (a b : UInt32) : Checked UInt32 := within (2 ^ 32) (a.toNat * b.toNat) (a * b)

def add64 (a b : UInt64) : Checked UInt64 := within (2 ^ 64) (a.toNat + b.toNat) (a + b)

def mul64 (a b : UInt64) : Checked UInt64 := within (2 ^ 64) (a.toNat * b.toNat) (a * b)

/-- A difference fits unless it is negative. -/
def sub32 (a b : UInt32) : Checked UInt32 := ⟨a - b, decide (b.toNat ≤ a.toNat)⟩

def sub64 (a b : UInt64) : Checked UInt64 := ⟨a - b, decide (b.toNat ≤ a.toNat)⟩

lemma yields_add32 {a b : UInt32} (h : a.toNat + b.toNat < 2 ^ 32) :
    Yields (add32 a b) fun c => c.toNat = a.toNat + b.toNat := yields_within (UInt32.toNat_add a b) h

lemma yields_mul32 {a b : UInt32} (h : a.toNat * b.toNat < 2 ^ 32) :
    Yields (mul32 a b) fun c => c.toNat = a.toNat * b.toNat := yields_within (UInt32.toNat_mul a b) h

lemma yields_add64 {a b : UInt64} (h : a.toNat + b.toNat < 2 ^ 64) :
    Yields (add64 a b) fun c => c.toNat = a.toNat + b.toNat := yields_within (UInt64.toNat_add a b) h

lemma yields_mul64 {a b : UInt64} (h : a.toNat * b.toNat < 2 ^ 64) :
    Yields (mul64 a b) fun c => c.toNat = a.toNat * b.toNat := yields_within (UInt64.toNat_mul a b) h

lemma yields_sub64 {a b : UInt64} (h : b.toNat ≤ a.toNat) : Yields (sub64 a b) fun c => c.toNat = a.toNat - b.toNat :=
  ⟨decide_eq_true h, UInt64.toNat_sub_of_le _ _ (UInt64.le_iff_toNat_le.2 h)⟩

/-! ### Wide words, as numbers -/

def add128 (a b : ℕ) : Checked ℕ := within (2 ^ 128) (a + b) ((a + b) % 2 ^ 128)

def mul128 (a b : ℕ) : Checked ℕ := within (2 ^ 128) (a * b) (a * b % 2 ^ 128)

lemma yields_add128 {a b : ℕ} (h : a + b < 2 ^ 128) : Yields (add128 a b) fun c => c = a + b :=
  @yields_within _ _ _ _ id rfl h

lemma yields_mul128 {a b : ℕ} (h : a * b < 2 ^ 128) : Yields (mul128 a b) fun c => c = a * b :=
  @yields_within _ _ _ _ id rfl h

section Sums

variable {γ : Type} {Q : γ → Prop} {m n : ℕ}

lemma Yields.add32 {a b : UInt32} {f : UInt32 → Checked γ} (ha : a.toNat = m) (hb : b.toNat = n)
    (hf : ∀ c : UInt32, c.toNat = m + n → Yields (f c) Q) (h : m + n < 2 ^ 32 := by omega) :
    Yields (Checked.add32 a b >>= f) Q := by
  subst ha hb
  exact .bind (yields_add32 h) hf

lemma Yields.add64 {a b : UInt64} {f : UInt64 → Checked γ} (ha : a.toNat = m) (hb : b.toNat = n)
    (hf : ∀ c : UInt64, c.toNat = m + n → Yields (f c) Q) (h : m + n < 2 ^ 64 := by omega) :
    Yields (Checked.add64 a b >>= f) Q := by
  subst ha hb
  exact .bind (yields_add64 h) hf

lemma Yields.add128 {a b : ℕ} {f : ℕ → Checked γ} (hb : b = n)
    (hf : ∀ c, c = a + n → Yields (f c) Q) (h : a + n < 2 ^ 128 := by omega) : Yields (Checked.add128 a b >>= f) Q := by
  subst hb
  exact .bind (yields_add128 h) hf

end Sums

/-! ### Signed wide words, as numbers -/

/-- An integer of 128 bits. -/
def Fits128 (n : ℤ) : Prop := -2 ^ 127 ≤ n ∧ n < 2 ^ 127
deriving Decidable

def addInt128 (a b : ℤ) : Checked ℤ := ⟨a + b, decide (Fits128 (a + b))⟩

def subInt128 (a b : ℤ) : Checked ℤ := ⟨a - b, decide (Fits128 (a - b))⟩

lemma yields_addInt128 {a b : ℤ} (h : Fits128 (a + b)) : Yields (addInt128 a b) fun c => c = a + b :=
  ⟨decide_eq_true h, rfl⟩

lemma yields_subInt128 {a b : ℤ} (h : Fits128 (a - b)) : Yields (subInt128 a b) fun c => c = a - b :=
  ⟨decide_eq_true h, rfl⟩

section Products

variable {W : Type u} (mul add : W → W → Checked W)

/-- Five products, added up from the left. -/
def products (a₀ b₀ a₁ b₁ a₂ b₂ a₃ b₃ a₄ b₄ : W) : Checked W := do
  let p₀ ← mul a₀ b₀
  let p₁ ← mul a₁ b₁
  let s₁ ← add p₀ p₁
  let p₂ ← mul a₂ b₂
  let s₂ ← add s₁ p₂
  let p₃ ← mul a₃ b₃
  let s₃ ← add s₂ p₃
  let p₄ ← mul a₄ b₄
  add s₃ p₄

variable {mul add}

/-- The sum is exact when the bounds of its factors let it fit, since no partial sum is larger. -/
lemma yields_products {toNat : W → ℕ} {size m n : ℕ} {a₀ b₀ a₁ b₁ a₂ b₂ a₃ b₃ a₄ b₄ : W}
    (hmul : ∀ a b, toNat a * toNat b < size → Yields (mul a b) fun c => toNat c = toNat a * toNat b)
    (hadd : ∀ a b, toNat a + toNat b < size → Yields (add a b) fun c => toNat c = toNat a + toNat b)
    (hsize : 5 * (m * n) < size) (h₀ : toNat a₀ < m ∧ toNat b₀ < n) (h₁ : toNat a₁ < m ∧ toNat b₁ < n)
    (h₂ : toNat a₂ < m ∧ toNat b₂ < n) (h₃ : toNat a₃ < m ∧ toNat b₃ < n) (h₄ : toNat a₄ < m ∧ toNat b₄ < n) :
    Yields (products mul add a₀ b₀ a₁ b₁ a₂ b₂ a₃ b₃ a₄ b₄) fun c =>
      toNat c = toNat a₀ * toNat b₀ + toNat a₁ * toNat b₁ + toNat a₂ * toNat b₂ + toNat a₃ * toNat b₃ +
        toNat a₄ * toNat b₄ ∧ toNat c ≤ 5 * (m * n) := by
  have product {a b : W} (h : toNat a < m ∧ toNat b < n) : toNat a * toNat b ≤ m * n := Nat.mul_le_mul h.1.le h.2.le
  replace h₀ := product h₀
  replace h₁ := product h₁
  replace h₂ := product h₂
  replace h₃ := product h₃
  replace h₄ := product h₄
  refine .bind (hmul a₀ b₀ (by omega)) fun p₀ hp₀ => ?_
  refine .bind (hmul a₁ b₁ (by omega)) fun p₁ hp₁ => ?_
  refine .bind (hadd p₀ p₁ (by omega)) fun s₁ hs₁ => ?_
  refine .bind (hmul a₂ b₂ (by omega)) fun p₂ hp₂ => ?_
  refine .bind (hadd s₁ p₂ (by omega)) fun s₂ hs₂ => ?_
  refine .bind (hmul a₃ b₃ (by omega)) fun p₃ hp₃ => ?_
  refine .bind (hadd s₂ p₃ (by omega)) fun s₃ hs₃ => ?_
  refine .bind (hmul a₄ b₄ (by omega)) fun p₄ hp₄ => ?_
  refine (hadd s₃ p₄ (by omega)).mono fun c hc => ?_
  rw [hc, hs₃, hs₂, hs₁, hp₀, hp₁, hp₂, hp₃, hp₄]
  exact ⟨rfl, by omega⟩

end Products

end Checked
