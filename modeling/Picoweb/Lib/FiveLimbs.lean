import Mathlib.Data.ZMod.Basic
import Mathlib.Tactic.LinearCombination
import Mathlib.Tactic.Ring

/-!
# Numbers in five limbs, modulo a prime close to a power of two

A number is written to a base `x` in five digits that need not be below the base. Modulo `x ^ 5 - k` the digits of
a product that lie beyond the fifth come back times `k`, and so does a carry out of the last digit.
-/

namespace FiveLimbs

variable {R : Type*} [CommRing R] {x : R} {k : ℕ}

/-- Five digits to the base `x`. -/
def eval (x : R) (a₀ a₁ a₂ a₃ a₄ : ℕ) : R := a₀ + a₁ * x + a₂ * x ^ 2 + a₃ * x ^ 3 + a₄ * x ^ 4

lemma eval_add (a₀ a₁ a₂ a₃ a₄ b₀ b₁ b₂ b₃ b₄ : ℕ) :
    eval x (a₀ + b₀) (a₁ + b₁) (a₂ + b₂) (a₃ + b₃) (a₄ + b₄) = eval x a₀ a₁ a₂ a₃ a₄ + eval x b₀ b₁ b₂ b₃ b₄ := by
  simp only [eval]
  push_cast
  ring

lemma eval_mul (hx : x ^ 5 = k) (a₀ a₁ a₂ a₃ a₄ b₀ b₁ b₂ b₃ b₄ : ℕ) :
    eval x (a₀ * b₀ + a₁ * (k * b₄) + a₂ * (k * b₃) + a₃ * (k * b₂) + a₄ * (k * b₁))
      (a₀ * b₁ + a₁ * b₀ + a₂ * (k * b₄) + a₃ * (k * b₃) + a₄ * (k * b₂))
      (a₀ * b₂ + a₁ * b₁ + a₂ * b₀ + a₃ * (k * b₄) + a₄ * (k * b₃))
      (a₀ * b₃ + a₁ * b₂ + a₂ * b₁ + a₃ * b₀ + a₄ * (k * b₄))
      (a₀ * b₄ + a₁ * b₃ + a₂ * b₂ + a₃ * b₁ + a₄ * b₀) =
    eval x a₀ a₁ a₂ a₃ a₄ * eval x b₀ b₁ b₂ b₃ b₄ := by
  simp only [eval]
  push_cast
  linear_combination (-(a₁ * b₄ + a₂ * b₃ + a₃ * b₂ + a₄ * b₁ + (a₂ * b₄ + a₃ * b₃ + a₄ * b₂) * x +
    (a₃ * b₄ + a₄ * b₃) * x ^ 2 + a₄ * b₄ * x ^ 3 : R)) * hx

/-- One round of carries from the first digit to the last, whose carry comes back to the first. -/
lemma eval_carry (hx : x ^ 5 = k) {d₀ d₁ d₂ d₃ d₄ s₁ s₂ s₃ s₄ b : ℕ} (hb : (b : R) = x) (h₁ : s₁ = d₁ + d₀ / b)
    (h₂ : s₂ = d₂ + s₁ / b) (h₃ : s₃ = d₃ + s₂ / b) (h₄ : s₄ = d₄ + s₃ / b) :
    eval x (d₀ % b + k * (s₄ / b)) (s₁ % b) (s₂ % b) (s₃ % b) (s₄ % b) = eval x d₀ d₁ d₂ d₃ d₄ := by
  have carry {m n : ℕ} (h : m = n) : ((m % b : ℕ) : R) + x * (m / b : ℕ) = n := by
    have hcast := congrArg (Nat.cast (R := R)) (Nat.mod_add_div m b)
    push_cast at hcast
    rw [← hb, ← h, hcast]
  have e₁ := carry h₁
  have e₂ := carry h₂
  have e₃ := carry h₃
  have e₄ := carry h₄
  simp only [eval]
  push_cast at e₁ e₂ e₃ e₄ ⊢
  linear_combination carry (refl d₀) + x * e₁ + x ^ 2 * e₂ + x ^ 3 * e₃ + x ^ 4 * e₄ - (s₄ / b : ℕ) * hx

lemma eval_carry_first {d₀ d₁ m₀ c₀ b : ℕ} (d₂ d₃ d₄ : ℕ) (hb : (b : R) = x) (h₀ : m₀ + b * c₀ = d₀) :
    eval x m₀ (d₁ + c₀) d₂ d₃ d₄ = eval x d₀ d₁ d₂ d₃ d₄ := by
  subst h₀
  subst hb
  simp only [eval]
  push_cast
  ring

/-- The fifth power of the base is small modulo the prime. -/
lemma pow_five_eq {p w k : ℕ} (hp : p + k = 2 ^ (5 * w)) : ((2 : ZMod p) ^ w) ^ 5 = k := by
  have hcast : ((p + k : ℕ) : ZMod p) = (2 ^ (5 * w) : ℕ) := congrArg _ hp
  push_cast at hcast
  rw [ZMod.natCast_self, zero_add] at hcast
  rw [← pow_mul, mul_comm, hcast]

def value (w a₀ a₁ a₂ a₃ a₄ : ℕ) : ℕ := a₀ + a₁ * 2 ^ w + a₂ * 2 ^ (2 * w) + a₃ * 2 ^ (3 * w) + a₄ * 2 ^ (4 * w)

lemma cast_value (w a₀ a₁ a₂ a₃ a₄ : ℕ) : ((value w a₀ a₁ a₂ a₃ a₄ : ℕ) : R) = eval ((2 : R) ^ w) a₀ a₁ a₂ a₃ a₄ := by
  simp only [value, eval]
  push_cast
  ring

end FiveLimbs
