import Picoweb.Crypto.P256
import Picoweb.Lib.LittleEndian
import Picoweb.Lib.Positional

/-!
# The field arithmetic of P-256 is exact

Sums and differences of canonical numbers are canonical. A product of any two numbers is folded by nine passes to
less than `2 ^ 256`, so that one conditional subtraction of the prime makes it canonical.
-/

namespace P256

open Checked List

abbrev prime : ℕ := 2 ^ 256 - 2 ^ 224 + 2 ^ 192 + 2 ^ 96 - 1

@[irreducible] def U256.value (a : U256) : ℕ := a.v0.toNat + a.v1.toNat * 2 ^ 64 + a.v2.toNat * 2 ^ 128 + a.v3.toNat * 2 ^ 192

lemma U256.value_lt (a : U256) : a.value < 2 ^ 256 := by
  have h0 := a.v0.toNat_lt
  have h1 := a.v1.toNat_lt
  have h2 := a.v2.toNat_lt
  have h3 := a.v3.toNat_lt
  rw [value]
  omega

lemma value_p256P : p256P.value = prime := by
  rw [U256.value]
  rfl

lemma yields_addLimb {c : ℕ} (hc : c ≤ 1) (a b : UInt64) :
    Yields (addLimb c a b) fun r => r.1.toNat + r.2 * 2 ^ 64 = a.toNat + b.toNat + c ∧ r.2 ≤ 1 := by
  have ha := a.toNat_lt
  have hb := b.toNat_lt
  refine .bind (yields_add128 (by omega)) fun s hs => ?_
  refine .bind (yields_add128 (by omega)) fun c' hc' => ?_
  refine .pure ?_
  rw [UInt64.toNat_ofNat']
  omega

lemma yields_u256AddRaw (a b : U256) :
    Yields (u256AddRaw a b) fun r => r.1.value + r.2.toNat * 2 ^ 256 = a.value + b.value ∧ r.2.toNat ≤ 1 := by
  refine .bind (yields_addLimb (Nat.zero_le 1) a.v0 b.v0) fun r0 h0 => ?_
  refine .bind (yields_addLimb h0.2 a.v1 b.v1) fun r1 h1 => ?_
  refine .bind (yields_addLimb h1.2 a.v2 b.v2) fun r2 h2 => ?_
  refine .bind (yields_addLimb h2.2 a.v3 b.v3) fun r3 h3 => ?_
  refine .pure ?_
  have hcarry : (UInt64.ofNat r3.2).toNat = r3.2 := by
    rw [UInt64.toNat_ofNat']
    omega
  rw [U256.value, U256.value, U256.value]
  dsimp only
  omega

lemma eq_zero_or_one {c : UInt64} (h : c.toNat ≤ 1) : c = 0 ∨ c = 1 := by
  rcases Nat.le_one_iff_eq_zero_or_eq_one.1 h with h | h
  · exact .inl (UInt64.toNat_inj.1 h)
  · exact .inr (UInt64.toNat_inj.1 h)

/-- The borrow that the comparisons find is that of the difference. -/
lemma toNat_borrow {borrow : UInt64} (hborrow : borrow.toNat ≤ 1) (a b : UInt64) :
    ((if a < b then (1 : UInt64) else 0) ||| (if borrow ≠ 0 ∧ a = b then 1 else 0)).toNat =
      if a.toNat < b.toNat + borrow.toNat then 1 else 0 := by
  by_cases hlt : a < b
  · have hlt' : a.toNat < b.toNat + borrow.toNat := Nat.lt_add_right _ (UInt64.lt_iff_toNat_lt.1 hlt)
    have hne : ¬(borrow ≠ 0 ∧ a = b) := fun h => UInt64.lt_irrefl b (h.2 ▸ hlt)
    rw [if_pos hlt, if_neg hne, if_pos hlt']
    rfl
  · have hle : b.toNat ≤ a.toNat := UInt64.le_iff_toNat_le.1 (UInt64.not_lt.1 hlt)
    rw [if_neg hlt]
    by_cases heq : borrow ≠ 0 ∧ a = b
    · have hpos : 0 < borrow.toNat := Nat.pos_of_ne_zero fun h => heq.1 (UInt64.toNat_inj.1 h)
      rw [if_pos heq, if_pos (by rw [heq.2]; omega)]
      rfl
    · have hge : ¬ a.toNat < b.toNat + borrow.toNat := by
        intro h
        have hb : borrow.toNat = 1 := by omega
        have hab : a.toNat = b.toNat := by omega
        refine heq ⟨?_, UInt64.toNat_inj.1 hab⟩
        rintro rfl
        cases hb
      rw [if_neg heq, if_neg hge]
      rfl

lemma yields_subLimb {borrow : UInt64} (hborrow : borrow.toNat ≤ 1) (a b : UInt64) :
    Yields (subLimb subWrapping borrow a b) fun r =>
      r.1.toNat + b.toNat + borrow.toNat = a.toNat + r.2.toNat * 2 ^ 64 ∧ r.2.toNat ≤ 1 := by
  have ha := a.toNat_lt
  have hb := b.toNat_lt
  have hdiff : (a - b - borrow).toNat = (2 ^ 64 - borrow.toNat + (2 ^ 64 - b.toNat + a.toNat) % 2 ^ 64) % 2 ^ 64 := by
    rw [UInt64.toNat_sub, UInt64.toNat_sub]
  refine ⟨rfl, ?_⟩
  change (a - b - borrow).toNat + b.toNat + borrow.toNat =
    a.toNat + ((if a < b then (1 : UInt64) else 0) ||| (if borrow ≠ 0 ∧ a = b then 1 else 0)).toNat * 2 ^ 64 ∧
    ((if a < b then (1 : UInt64) else 0) ||| (if borrow ≠ 0 ∧ a = b then 1 else 0)).toNat ≤ 1
  rw [toNat_borrow hborrow]
  split <;> omega

lemma yields_u256SubRaw (a b : U256) : Yields (u256SubRaw subWrapping a b) fun r =>
      r.1.value + b.value = a.value + r.2.toNat * 2 ^ 256 ∧ r.2.toNat ≤ 1 := by
  have hzero := UInt64.toNat_zero
  refine .bind (yields_subLimb (hzero.trans_le (Nat.zero_le 1)) a.v0 b.v0) fun r0 h0 => ?_
  refine .bind (yields_subLimb h0.2 a.v1 b.v1) fun r1 h1 => ?_
  refine .bind (yields_subLimb h1.2 a.v2 b.v2) fun r2 h2 => ?_
  refine .bind (yields_subLimb h2.2 a.v3 b.v3) fun r3 h3 => ?_
  refine .pure ?_
  rw [U256.value, U256.value, U256.value]
  dsimp only
  omega

lemma cmovLimb_zero (r a : UInt64) : cmovLimb 0 r a = r := by
  simp [cmovLimb]

lemma cmovLimb_ones (r a : UInt64) : cmovLimb (0 - 1) r a = a := by
  simp [cmovLimb]

section Cmov

variable {r a : U256} {bit : UInt64} {P : U256 → Prop}

lemma yields_u256Cmov_zero (h : P r) (hbit : bit = 0 := by decide) : Yields (u256Cmov subWrapping r a bit) P := by
  subst hbit
  refine ⟨rfl, ?_⟩
  change P ⟨cmovLimb 0 r.v0 a.v0, cmovLimb 0 r.v1 a.v1, cmovLimb 0 r.v2 a.v2, cmovLimb 0 r.v3 a.v3⟩
  simpa only [cmovLimb_zero] using h

lemma yields_u256Cmov_one (h : P a) (hbit : bit = 1 := by decide) : Yields (u256Cmov subWrapping r a bit) P := by
  subst hbit
  refine ⟨rfl, ?_⟩
  change P ⟨cmovLimb (0 - 1) r.v0 a.v0, cmovLimb (0 - 1) r.v1 a.v1, cmovLimb (0 - 1) r.v2 a.v2,
    cmovLimb (0 - 1) r.v3 a.v3⟩
  simpa only [cmovLimb_ones] using h

end Cmov

variable {a b m : U256}

/-- A sum below twice the modulus is reduced by one subtraction at most. -/
lemma eq_mod_of_sub {n k r : ℕ} (hr : r < k) (h : r = n ∨ r + k = n) : r = n % k := by
  rcases h with h | h
  · rw [← h, Nat.mod_eq_of_lt hr]
  · rw [← h, Nat.add_mod_right, Nat.mod_eq_of_lt hr]

lemma yields_modAdd (ha : a.value < m.value) (hb : b.value < m.value) :
    Yields (modAdd subWrapping a b m) fun r => r.value = (a.value + b.value) % m.value := by
  refine .bind (yields_u256AddRaw a b) fun s hs => ?_
  refine .bind (yields_u256SubRaw s.1 m) fun t ht => ?_
  obtain ⟨s, carry⟩ := s
  obtain ⟨t, borrow⟩ := t
  obtain ⟨hs, hcarry⟩ := hs
  obtain ⟨ht, hborrow⟩ := ht
  have ht256 := t.value_lt
  have hm := m.value_lt
  rcases eq_zero_or_one hcarry with rfl | rfl <;> rcases eq_zero_or_one hborrow with rfl | rfl <;>
    simp only [UInt64.toNat_zero, UInt64.toNat_one, zero_mul, add_zero] at hs ht ⊢
  · exact yields_u256Cmov_zero (eq_mod_of_sub (by linarith) (.inr (ht.trans hs)))
  · -- the only case in which the sum is kept
    exact yields_u256Cmov_one (eq_mod_of_sub (by linarith) (.inl hs))
  · linarith
  · exact yields_u256Cmov_zero (eq_mod_of_sub (by linarith) (.inr (ht.trans hs)))

lemma yields_modSub (ha : a.value < m.value) (hb : b.value < m.value) :
    Yields (modSub subWrapping a b m) fun r => r.value = (a.value + m.value - b.value) % m.value := by
  refine .bind (yields_u256SubRaw a b) fun d hd => ?_
  refine .bind (yields_u256AddRaw d.1 m) fun s hs => ?_
  obtain ⟨d, borrow⟩ := d
  obtain ⟨s, carry⟩ := s
  obtain ⟨hd, hborrow⟩ := hd
  obtain ⟨hs, hcarry⟩ := hs
  have hd256 := d.value_lt
  have hs256 := s.value_lt
  rcases eq_zero_or_one hborrow with rfl | rfl <;>
    simp only [UInt64.toNat_zero, UInt64.toNat_one, zero_mul, one_mul, add_zero] at hd
  · have hsum : d.value + m.value = a.value + m.value - b.value := by
      rw [← hd, Nat.add_right_comm, Nat.add_sub_cancel]
    exact yields_u256Cmov_zero (eq_mod_of_sub (by linarith) (.inr hsum)) rfl
  · -- the modulus is added to what wrapped around, and wraps back
    refine yields_u256Cmov_one ?_ rfl
    rcases eq_zero_or_one hcarry with rfl | rfl <;>
      simp only [UInt64.toNat_zero, UInt64.toNat_one, zero_mul, one_mul, add_zero] at hs
    · linarith
    · have hsum : s.value = a.value + m.value - b.value := by
        apply Nat.eq_sub_of_add_eq
        linarith
      exact eq_mod_of_sub (by linarith) (.inl hsum)

/-! ### Products -/

def limbsValue : List UInt64 → ℕ
  | [] => 0
  | l :: ls => l.toNat + 2 ^ 64 * limbsValue ls

lemma limbsValue_replicate_zero (n : ℕ) : limbsValue (replicate n 0) = 0 := by
  induction n with
  | zero => rfl
  | succ n ih =>
    rw [replicate_succ, limbsValue, ih]
    rfl

/-- One limb of a row: what does not fit goes on to the next one. -/
lemma row_step {c p carry x n out r ps y : ℕ} (hc : c = x + p + carry)
    (hout : r + out * 2 ^ (64 * n) = ps + y + c / 2 ^ 64) :
    c % 2 ^ 64 + 2 ^ 64 * r + out * 2 ^ (64 * (n + 1)) = p + 2 ^ 64 * ps + (x + 2 ^ 64 * y) + carry := by
  have hpow : out * 2 ^ (64 * (n + 1)) = 2 ^ 64 * (out * 2 ^ (64 * n)) := by
    ring
  omega

/-- A row adds a multiple of `b`, up to what is carried out of the last limb. -/
lemma yields_mulRow (a : UInt64) {bs ps : List UInt64} {carry : ℕ} (hlen : bs.length ≤ ps.length)
    (hcarry : carry < 2 ^ 64) : Yields (mulRow a bs ps carry) fun r => r.length = ps.length ∧
      ∃ out, limbsValue r + out * 2 ^ (64 * ps.length) = limbsValue ps + a.toNat * limbsValue bs + carry := by
  induction ps generalizing bs carry with
  | nil =>
    have hnil : bs = [] := length_eq_zero_iff.1 (Nat.le_zero.1 hlen)
    subst hnil
    exact .pure ⟨rfl, carry, by simp [limbsValue]⟩
  | cons p ps ih =>
    have hp := p.toNat_lt
    have hrest {bs : List UInt64} {c x : ℕ} (hlen : bs.length ≤ ps.length) (hc : c = x + p.toNat + carry)
        (hlt : c < 2 ^ 128) : Yields (mulRow a bs ps (c >>> 64) >>= fun r => pure (UInt64.ofNat c :: r)) fun r =>
          r.length = ps.length + 1 ∧ ∃ out, limbsValue r + out * 2 ^ (64 * (ps.length + 1)) =
            limbsValue (p :: ps) + (x + 2 ^ 64 * (a.toNat * limbsValue bs)) + carry := by
      rw [Nat.shiftRight_eq_div_pow]
      refine .bind (ih hlen (by omega)) fun r hr => ?_
      obtain ⟨hlen', out, hout⟩ := hr
      refine .pure ⟨by rw [length_cons, hlen'], out, ?_⟩
      exact row_step hc hout
    cases bs with
    | nil =>
      refine .bind (yields_add128 (by omega)) fun c hc => ?_
      refine (@hrest [] c 0 (Nat.zero_le _) (by omega) (by omega)).mono fun r hr => ?_
      simpa [limbsValue] using hr
    | cons b bs =>
      have hmul : a.toNat * b.toNat ≤ (2 ^ 64 - 1) * (2 ^ 64 - 1) :=
        Nat.mul_le_mul (Nat.le_sub_one_of_lt a.toNat_lt) (Nat.le_sub_one_of_lt b.toNat_lt)
      refine .bind (yields_mul128 (by omega)) fun m hm => ?_
      refine .bind (yields_add128 (by omega)) fun s hs => ?_
      refine .bind (yields_add128 (by omega)) fun c hc => ?_
      have hdist : a.toNat * limbsValue (b :: bs) = a.toNat * b.toNat + 2 ^ 64 * (a.toNat * limbsValue bs) := by
        rw [limbsValue, Nat.mul_add, Nat.mul_left_comm]
      rw [hdist]
      exact hrest (Nat.le_of_succ_le_succ hlen) (by rw [hc, hs, hm]) (by omega)

lemma yields_mulRows {as bs prod : List UInt64} (hlen : as.length + bs.length ≤ prod.length)
    (hlt : limbsValue prod + limbsValue as * limbsValue bs < 2 ^ (64 * prod.length)) :
    Yields (mulRows as bs prod) fun r => r.length = prod.length ∧
      limbsValue r = limbsValue prod + limbsValue as * limbsValue bs := by
  induction as generalizing prod with
  | nil =>
    exact .pure ⟨rfl, by simp [limbsValue]⟩
  | cons a as ih =>
    refine .bind (yields_mulRow a (by rw [length_cons] at hlen; omega) (by norm_num)) fun r hr => ?_
    obtain ⟨hlen', out, hout⟩ := hr
    cases r with
    | nil =>
      rw [length_nil] at hlen'
      rw [length_cons] at hlen
      omega
    | cons p ps =>
      have hps : prod.length = ps.length + 1 := hlen'.symm
      have hpow : 2 ^ (64 * (ps.length + 1)) = 2 ^ 64 * 2 ^ (64 * ps.length) := by
        rw [Nat.mul_succ, pow_add, Nat.mul_comm]
      simp only [limbsValue, hps, hpow, Nat.add_zero] at hlt hout ⊢
      -- nothing is carried out of the last limb
      have htotal : limbsValue prod + (a.toNat + 2 ^ 64 * limbsValue as) * limbsValue bs =
          limbsValue prod + a.toNat * limbsValue bs + 2 ^ 64 * (limbsValue as * limbsValue bs) := by ring
      have hnone : out = 0 := by
        by_contra hne
        have := Nat.le_mul_of_pos_left (2 ^ 64 * 2 ^ (64 * ps.length)) (Nat.pos_of_ne_zero hne)
        omega
      rw [hnone] at hout
      have hrest : limbsValue ps + limbsValue as * limbsValue bs < 2 ^ (64 * ps.length) := by omega
      refine .bind (ih (by rw [length_cons] at hlen; omega) hrest) fun r hr => ?_
      refine .pure ⟨by rw [length_cons, hr.1], ?_⟩
      rw [htotal, ← hout]
      simp only [limbsValue, hr.2]
      ring

/-! ### Folding -/

open Positional

variable {acc acc₀ : List ℤ} {i : ℕ}

/-- The limbs from the ninth to before `i` have been folded. -/
structure Folding (acc₀ acc : List ℤ) (i : ℕ) : Prop where
  length : acc.length = 31
  kept : ∀ k, i ≤ k → acc.getD k 0 = acc₀.getD k 0
  bounded : Bounded ((5 * (i - 8) + 1) * 2 ^ 32) acc
  weigh : weigh (2 ^ 32) acc = weigh (2 ^ 32) acc₀ - prime * weigh (2 ^ 32) ((acc₀.drop 8).take (i - 8))

variable {j : ℕ} {c h : ℤ}

lemma yields_accAdd (hfits : Fits128 (acc.getD j 0 + h)) :
    Yields (accAdd acc j h) fun acc' => acc' = addAt acc j h := by
  refine .bind (yields_addInt128 hfits) fun s hs => ?_
  subst hs
  exact .pure rfl

/-- The five places that folding a limb changes. -/
def folded (acc : List ℤ) (i : ℕ) : List ℤ :=
  let h := acc.getD i 0
  addAt (addAt (addAt (addAt (addAt acc i (-h)) (i - 8) h) (i - 5) (-h)) (i - 2) (-h)) (i - 1) h

lemma getD_folded (hlen : acc.length = 31) (hi : i < 31) (k : ℕ) :
    (folded acc i).getD k 0 = acc.getD k 0 + (if k = i then -acc.getD i 0 else 0) +
      (if k = i - 8 then acc.getD i 0 else 0) + (if k = i - 5 then -acc.getD i 0 else 0) +
      (if k = i - 2 then -acc.getD i 0 else 0) + (if k = i - 1 then acc.getD i 0 else 0) := by
  have hplace (d : ℕ) : i - d < 31 := (Nat.sub_le i d).trans_lt hi
  rw [folded]
  simp only [getD_addAt, length_addAt, hlen, hi, hplace]

/-- Folding subtracts a multiple of the prime. -/
lemma weigh_folded (hlen : acc.length = 31) (h8 : 8 ≤ i) (hi : i < 31) :
    weigh (2 ^ 32) (folded acc i) = weigh (2 ^ 32) acc - prime * (acc.getD i 0 * (2 ^ 32) ^ (i - 8)) := by
  obtain ⟨j, rfl⟩ := Nat.exists_eq_add_of_le h8
  have hplace (d : ℕ) : 8 + j - d < 31 := (Nat.sub_le _ d).trans_lt hi
  have e8 : 8 + j - 8 = j := by omega
  have e5 : 8 + j - 5 = j + 3 := by omega
  have e2 : 8 + j - 2 = j + 6 := by omega
  have e1 : 8 + j - 1 = j + 7 := by omega
  rw [folded]
  simp only [weigh_addAt, length_addAt, hlen, hi, hplace]
  rw [e8, e5, e2, e1]
  ring

/-- A digit is added to a limb or subtracted from it. -/
lemma yields_accAdd_digit (hacc : Bounded c acc) (hc : c ≤ 2 ^ 40) (hj : j < acc.length) (hh : 0 ≤ h ∧ h < 2 ^ 32) :
    Yields (accAdd acc j h) fun acc' => acc' = addAt acc j h ∧ Bounded (c + 2 ^ 32) acc' := by
  have hlimb := hacc j
  refine (yields_accAdd (by constructor <;> linarith)).mono fun acc' hacc' => ⟨hacc', ?_⟩
  exact hacc' ▸ hacc.addAt hj (by linarith) hh.2.le

lemma yields_accSub (hacc : Bounded c acc) (hc : c ≤ 2 ^ 40) (hj : j < acc.length) (hh : 0 ≤ h ∧ h < 2 ^ 32) :
    Yields (accSub acc j h) fun acc' => acc' = addAt acc j (-h) ∧ Bounded (c + 2 ^ 32) acc' := by
  have hlimb := hacc j
  refine .bind (yields_subInt128 (by constructor <;> linarith)) fun s hs => ?_
  subst hs
  exact .pure ⟨rfl, hacc.addAt hj (by linarith) (by linarith)⟩

lemma yields_foldLimb (hlen : acc.length = 31) (hi : i < 31) (hbound : Bounded c acc) (hc : c ≤ 2 ^ 38)
    (hdigit : 0 ≤ acc.getD i 0 ∧ acc.getD i 0 < 2 ^ 32) :
    Yields (foldLimb acc i) fun acc' => acc' = folded acc i ∧ Bounded (c + 5 * 2 ^ 32) acc' := by
  have hplace (d : ℕ) : i - d < 31 := (Nat.sub_le i d).trans_lt hi
  have hset : acc.set i 0 = addAt acc i (-acc.getD i 0) := by
    rw [addAt, add_neg_cancel]
  rw [foldLimb, hset, folded]
  generalize acc.getD i 0 = h at hdigit
  have b₀ := hbound.addAt (j := i) (by omega) (by linarith : -2 ^ 32 ≤ -h) (by linarith)
  refine .bind (yields_accAdd_digit b₀ (by linarith) (by simp [hlen, hplace]) hdigit) ?_
  rintro acc₁ ⟨e₁, b₁⟩
  refine .bind (yields_accSub b₁ (by linarith) (by simp [e₁, hlen, hplace]) hdigit) ?_
  rintro acc₂ ⟨e₂, b₂⟩
  refine .bind (yields_accSub b₂ (by linarith) (by simp [e₂, e₁, hlen, hplace]) hdigit) ?_
  rintro acc₃ ⟨e₃, b₃⟩
  have hadd := yields_accAdd_digit b₃ (by linarith) (by simp [e₃, e₂, e₁, hlen, hplace] : i - 1 < _) hdigit
  refine hadd.mono ?_
  rintro acc₄ ⟨e₄, b₄⟩
  refine ⟨by rw [e₄, e₃, e₂, e₁], ?_⟩
  have hsum : c + 5 * 2 ^ 32 = c + 2 ^ 32 + 2 ^ 32 + 2 ^ 32 + 2 ^ 32 + 2 ^ 32 := by ring
  rw [hsum]
  exact b₄

lemma Folding.step (h : Folding acc₀ acc i) (hdigits : InRange (2 ^ 32) acc₀) (hlen : acc₀.length = 31) (h8 : 8 ≤ i)
    (hi : i < 16) : Yields (foldLimb acc i) (Folding acc₀ · (i + 1)) := by
  have hkept := h.kept i le_rfl
  have hdigit := (inRange_iff_getD (by norm_num)).1 hdigits i
  refine (yields_foldLimb h.length (by omega) h.bounded (by linarith) (hkept.symm ▸ hdigit)).mono fun acc' hacc' => ?_
  obtain ⟨rfl, hbounded⟩ := hacc'
  refine ⟨?_, ?_, ?_, ?_⟩
  · simp only [folded, length_addAt, h.length]
  · intro k hk
    have h0 : k ≠ i := by omega
    have h1 : k ≠ i - 8 := by omega
    have h2 : k ≠ i - 5 := by omega
    have h3 : k ≠ i - 2 := by omega
    have h4 : k ≠ i - 1 := by omega
    rw [getD_folded h.length (by omega), if_neg h0, if_neg h1, if_neg h2, if_neg h3, if_neg h4, h.kept k (by omega)]
    ring
  · have hc : ((5 * (i - 8) + 1) * 2 ^ 32 + 5 * 2 ^ 32 : ℤ) = (5 * ((i + 1 : ℕ) - 8) + 1) * 2 ^ 32 := by
      push_cast
      ring
    rw [← hc]
    exact hbounded
  · have hsucc : i + 1 - 8 = i - 8 + 1 := by omega
    have hget : (acc₀.drop 8).getD (i - 8) 0 = acc₀.getD i 0 := by
      rw [getD_eq_getElem?_getD, getElem?_drop, Nat.add_sub_cancel' h8, getD_eq_getElem?_getD]
    rw [weigh_folded h.length h8 (by omega), h.weigh, hsucc,
      weigh_take_succ (by rw [length_drop, hlen]; omega), hget, hkept]
    ring

lemma Folding.run (hdigits : InRange (2 ^ 32) acc₀) (hlen : acc₀.length = 31) {n : ℕ} (hn : 8 + n ≤ 16) :
    Yields ((range' 8 n).foldlM foldLimb acc₀) (Folding acc₀ · (8 + n)) := by
  refine .range' ⟨hlen, fun k _ => rfl, ?_, by simp⟩ fun acc i h8 hi h => h.step hdigits hlen h8 (by omega)
  intro k
  have hk := (inRange_iff_getD (by norm_num)).1 hdigits k
  push_cast
  constructor <;> linarith

/-- The limbs before `i` are digits again. -/
structure Carrying (acc₁ acc : List ℤ) (i : ℕ) : Prop where
  length : acc.length = 31
  digits : ∀ k < i, 0 ≤ acc.getD k 0 ∧ acc.getD k 0 < 2 ^ 32
  carry : -2 ^ 40 ≤ acc.getD i 0 ∧ acc.getD i 0 ≤ 2 ^ 40
  kept : ∀ k, i < k → acc.getD k 0 = acc₁.getD k 0
  weigh : weigh (2 ^ 32) acc = weigh (2 ^ 32) acc₁

variable {acc₁ : List ℤ}

lemma yields_normalizeLimb (hlen : acc.length = 31) (hi : i + 1 < 31)
    (hcarry : -2 ^ 40 ≤ acc.getD i 0 ∧ acc.getD i 0 ≤ 2 ^ 40)
    (hnext : -2 ^ 38 ≤ acc.getD (i + 1) 0 ∧ acc.getD (i + 1) 0 ≤ 2 ^ 38) : Yields (normalizeLimb acc i) fun acc' =>
      acc' = addAt (addAt acc i (-(2 ^ 32 * (acc.getD i 0 / 2 ^ 32)))) (i + 1) (acc.getD i 0 / 2 ^ 32) := by
  have hdiv := Int.emod_add_mul_ediv (acc.getD i 0) (2 ^ 32)
  have hset : acc.set i (acc.getD i 0 % 2 ^ 32) = addAt acc i (-(2 ^ 32 * (acc.getD i 0 / 2 ^ 32))) := by
    congr 1
    linarith
  have hnext' : (acc.set i (acc.getD i 0 % 2 ^ 32)).getD (i + 1) 0 = acc.getD (i + 1) 0 := by
    rw [getD_set (by omega), if_neg (Nat.succ_ne_self i)]
  have hlow := Int.emod_nonneg (acc.getD i 0) (show (2 ^ 32 : ℤ) ≠ 0 by norm_num)
  have hhigh := Int.emod_lt_of_pos (acc.getD i 0) (show (0 : ℤ) < 2 ^ 32 by norm_num)
  refine .bind (yields_subInt128 (by constructor <;> linarith)) fun rest hrest => ?_
  have hexact : rest / 2 ^ 32 = acc.getD i 0 / 2 ^ 32 := by
    omega
  rw [hexact, ← hset]
  refine yields_accAdd ?_
  constructor <;> omega

lemma Carrying.step (h : Carrying acc₁ acc i) (hbounded : Bounded (2 ^ 38) acc₁) (hi : i + 1 < 31) :
    Yields (normalizeLimb acc i) (Carrying acc₁ · (i + 1)) := by
  have hnext := hbounded (i + 1)
  rw [← h.kept (i + 1) (Nat.lt_succ_self i)] at hnext
  refine (yields_normalizeLimb h.length hi h.carry hnext).mono fun acc' hacc' => ?_
  subst hacc'
  have hi₀ : i < acc.length := by
    rw [h.length]
    omega
  have hi₁ (d : ℤ) : i + 1 < (addAt acc i d).length := by
    rw [length_addAt, h.length]
    exact hi
  have hget (k : ℕ) := getD_addAt (hi₁ (-(2 ^ 32 * (acc.getD i 0 / 2 ^ 32)))) (acc.getD i 0 / 2 ^ 32) k
  simp only [getD_addAt hi₀] at hget
  have hcarry := h.carry
  refine ⟨by rw [length_addAt, length_addAt, h.length], ?_, ?_, ?_, ?_⟩
  · intro k hk
    rw [hget, if_neg (by omega : k ≠ i + 1)]
    rcases Nat.lt_succ_iff_lt_or_eq.1 hk with hk | rfl
    · rw [if_neg (by omega : k ≠ i), add_zero, add_zero]
      exact h.digits k hk
    · omega
  · rw [hget]
    omega
  · intro k hk
    rw [hget, if_neg (by omega : k ≠ i + 1), if_neg (by omega : k ≠ i), add_zero, add_zero]
    exact h.kept k (by omega)
  · rw [weigh_addAt (hi₁ _), weigh_addAt hi₀, h.weigh]
    ring

lemma Carrying.run (hbounded : Bounded (2 ^ 38) acc₁) (hlen : acc₁.length = 31) {n : ℕ} (hn : n < 31) :
    Yields (normalize32 acc₁ n) (Carrying acc₁ · n) := by
  have hfirst := hbounded 0
  refine .range ⟨hlen, fun k hk => absurd hk (Nat.not_lt_zero k), by constructor <;> linarith, fun k _ => rfl, rfl⟩ ?_
  intro acc i hi h
  exact h.step hbounded (by omega)

/-! ### Passes -/

/-- The limbs are the digits of a number. -/
structure Digits (acc : List ℤ) (v : ℕ) : Prop where
  length : acc.length = 31
  inRange : InRange (2 ^ 32) acc
  weigh : weigh (2 ^ 32) acc = v

/-- What a pass makes of a number. -/
def reduceOnce (v : ℕ) : ℕ := v % 2 ^ 256 + v / 2 ^ 256 * (2 ^ 256 - prime)

lemma reduceOnce_add (v : ℕ) : reduceOnce v + prime * (v / 2 ^ 256) = v := by
  have hprime : 2 ^ 256 - prime + prime = 2 ^ 256 := by norm_num
  calc reduceOnce v + prime * (v / 2 ^ 256) = v % 2 ^ 256 + v / 2 ^ 256 * (2 ^ 256 - prime + prime) := by
        rw [reduceOnce]
        ring
    _ = v := by rw [hprime, Nat.mul_comm, Nat.mod_add_div]

lemma reduceOnce_mod (v : ℕ) : reduceOnce v % prime = v % prime := by
  conv_rhs => rw [← reduceOnce_add v, Nat.add_mul_mod_self_left]

lemma Digits.weigh_high {v n : ℕ} (h : Digits acc v) (h8 : 8 ≤ n) (hn : n ≤ 31) (hv : v < 2 ^ (32 * n)) :
    Positional.weigh (2 ^ 32) ((acc.drop 8).take (n - 8)) = (v / 2 ^ 256 : ℕ) := by
  have hb : (0 : ℤ) < 2 ^ 32 := by norm_num
  have hlt : Positional.weigh (2 ^ 32) acc < (2 ^ 32) ^ n := by
    rw [h.weigh, ← pow_mul]
    exact_mod_cast hv
  have hnone : Positional.weigh (2 ^ 32) ((acc.drop 8).drop (n - 8)) = 0 := by
    rw [drop_drop, Nat.add_sub_cancel' h8]
    exact h.inRange.weigh_drop_eq_zero hb (by rw [h.length]; exact hn) hlt
  have hhigh := weigh_take_add_drop (b := 2 ^ 32) (acc.drop 8) (k := n - 8) (by rw [length_drop, h.length]; omega)
  have hall := weigh_take_add_drop (b := 2 ^ 32) acc (k := 8) (by rw [h.length]; norm_num)
  have hlow := (h.inRange.take 8).weigh_nonneg hb.le
  have hbelow := (h.inRange.take 8).weigh_lt hb.le
  have hmin : min 8 31 = 8 := rfl
  rw [length_take, h.length, hmin] at hbelow
  rw [hnone] at hhigh
  rw [h.weigh] at hall
  omega

lemma Digits.fold {v n : ℕ} (h : Digits acc v) (hn : 8 + n ≤ 16) (hv : v < 2 ^ (32 * (8 + n))) :
    Yields ((range' 8 n).foldlM foldLimb acc >>= fun acc => normalize32 acc (8 + n)) (Digits · (reduceOnce v)) := by
  have hb : (0 : ℤ) < 2 ^ 32 := by norm_num
  refine .bind (Folding.run h.inRange h.length hn) fun acc₁ h₁ => ?_
  have hweigh : Positional.weigh (2 ^ 32) acc₁ = reduceOnce v := by
    rw [h₁.weigh, h.weigh, h.weigh_high (by omega) (by omega) hv, sub_eq_iff_eq_add]
    exact_mod_cast (reduceOnce_add v).symm
  have hbounded : Bounded (2 ^ 38) acc₁ := by
    intro k
    have hk := h₁.bounded k
    push_cast at hk
    constructor <;> linarith
  refine (Carrying.run hbounded h₁.length (by omega)).mono fun acc₂ h₂ => ?_
  have hzero (k : ℕ) (hk : 8 + n ≤ k) : acc₁.getD k 0 = 0 := by
    rw [h₁.kept k hk]
    refine h.inRange.getD_eq_zero hb ?_ hk
    rw [h.weigh, ← pow_mul]
    exact_mod_cast hv
  have hweigh₂ : Positional.weigh (2 ^ 32) acc₂ = reduceOnce v := h₂.weigh.trans hweigh
  refine ⟨h₂.length, inRange_of_weigh hb (by rw [h₂.length]; omega) h₂.digits ?_ ?_ ?_, hweigh₂⟩
  · intro k hk
    rw [h₂.kept k hk, hzero k hk.le]
  · rw [hweigh₂]
    exact Int.natCast_nonneg _
  · have hle : reduceOnce v ≤ v := Nat.le.intro (reduceOnce_add v)
    rw [hweigh₂, ← pow_mul]
    exact_mod_cast hle.trans_lt hv

lemma yields_foldPass {v k : ℕ} (h : Digits acc v) (hv : v < 2 ^ (32 * (lastLimb k + 1))) :
    Yields (foldPass acc k) (Digits · (reduceOnce v)) := by
  have hlast : lastLimb k + 1 = 8 + (lastLimb k - 7) := by
    rw [lastLimb]
    split <;> omega
  have hle : lastLimb k - 7 ≤ 8 := by
    rw [lastLimb]
    split <;> omega
  rw [hlast] at hv
  rw [foldPass, hlast]
  exact h.fold (by omega) hv

lemma two_pow_sub_prime : 2 ^ 256 - prime = 2 ^ 224 - 2 ^ 192 - 2 ^ 96 + 1 := by
  norm_num

/-- A bound for the number before a pass. Every pass but the last two takes a limb away. -/
def passBound (k : ℕ) : ℕ :=
  if k ≤ 7 then 2 ^ (256 + (256 - 32 * k)) else if k = 8 then 2 ^ 256 + 2 ^ 32 * (2 ^ 224 - 2 ^ 192) else 2 ^ 256

lemma reduceOnce_lt {v m : ℕ} (hm : 64 ≤ m) (hv : v < 2 ^ (256 + m)) : reduceOnce v < 2 ^ (224 + m) := by
  obtain ⟨n, rfl⟩ := Nat.exists_eq_add_of_le hm
  have hhigh : v / 2 ^ 256 < 2 ^ (64 + n) := by
    rw [Nat.div_lt_iff_lt_mul (by norm_num), ← pow_add, Nat.add_comm]
    exact hv
  have hpow : 2 ^ (64 + n) = 2 ^ 64 * 2 ^ n := pow_add 2 64 n
  rw [reduceOnce, pow_add 2 224, two_pow_sub_prime]
  omega

lemma reduceOnce_lt_passBound {v k : ℕ} (hk : k < 9) (hv : v < passBound k) : reduceOnce v < passBound (k + 1) := by
  by_cases hk7 : k < 7
  · have hm : 256 + (256 - 32 * (k + 1)) = 224 + (256 - 32 * k) := by omega
    rw [passBound, if_pos hk7.le] at hv
    rw [passBound, if_pos (Nat.succ_le_of_lt hk7), hm]
    exact reduceOnce_lt (by omega) hv
  · obtain rfl | rfl : k = 7 ∨ k = 8 := by omega
    · simp only [passBound] at hv
      simp only [passBound, reduceOnce]
      norm_num at hv ⊢
      omega
    · simp only [passBound] at hv
      simp only [passBound, reduceOnce]
      norm_num at hv ⊢
      omega

lemma passBound_le {k : ℕ} (hk : k < 9) : passBound k ≤ 2 ^ (32 * (lastLimb k + 1)) := by
  by_cases hk7 : k ≤ 7
  · rw [passBound, if_pos hk7, lastLimb, if_neg (by omega)]
    exact Nat.pow_le_pow_right (by norm_num) (by omega)
  · obtain rfl : k = 8 := by omega
    have hsize : 32 * (lastLimb 8 + 1) = 256 + 32 := rfl
    rw [passBound, if_neg hk7, if_pos rfl, hsize]
    omega

lemma yields_foldPasses {v : ℕ} (h : Digits acc v) (hv : v < passBound 0) :
    Yields ((range 9).foldlM foldPass acc) fun acc' =>
      ∃ w, Digits acc' w ∧ w % prime = v % prime ∧ w < passBound 9 := by
  refine .range (R := fun acc' k => ∃ w, Digits acc' w ∧ w % prime = v % prime ∧ w < passBound k) ⟨v, h, rfl, hv⟩ ?_
  rintro acc' k hk ⟨w, hdigits, hmod, hlt⟩
  refine (yields_foldPass hdigits (hlt.trans_le (passBound_le hk))).mono fun acc'' h' => ?_
  exact ⟨_, h', (reduceOnce_mod w).trans hmod, reduceOnce_lt_passBound hk hlt⟩

/-! ### The limbs before and after -/

lemma length_spread (prod : List UInt64) : (spread prod).length = 2 * prod.length := by
  induction prod with
  | nil => rfl
  | cons p ps ih =>
    rw [spread, flatMap_cons, length_append, ← spread]
    simp only [length_cons, length_nil]
    omega

lemma halves_eq (p : UInt64) : p.toUInt32.toNat + 2 ^ 32 * (p >>> 32).toUInt32.toNat = p.toNat := by
  have hp := p.toNat_lt
  have hshift : (32 : UInt64).toNat % 64 = 32 := rfl
  rw [UInt64.toNat_toUInt32, UInt64.toNat_toUInt32, UInt64.toNat_shiftRight, hshift]
  omega

lemma weigh_spread (prod : List UInt64) : weigh (2 ^ 32) (spread prod) = limbsValue prod := by
  induction prod with
  | nil => rfl
  | cons p ps ih =>
    have hhalves : (p.toUInt32.toNat + 2 ^ 32 * (p >>> 32).toUInt32.toNat : ℤ) = p.toNat := by
      exact_mod_cast halves_eq p
    rw [spread, flatMap_cons, weigh_append, ← spread, ih, limbsValue]
    simp only [weigh_cons, weigh_nil, length_cons, length_nil]
    push_cast
    linear_combination hhalves

lemma inRange_spread (prod : List UInt64) : InRange (2 ^ 32) (spread prod) := by
  intro d hd
  obtain ⟨p, -, hd⟩ := mem_flatMap.1 hd
  have hlow := p.toUInt32.toNat_lt
  have hhigh := (p >>> 32).toUInt32.toNat_lt
  simp only [mem_cons, not_mem_nil, or_false] at hd
  rcases hd with rfl | rfl <;> omega

lemma digits_spread {prod : List UInt64} (hlen : prod.length = 8) :
    Digits (spread prod ++ replicate 15 0) (limbsValue prod) := by
  refine ⟨?_, ?_, ?_⟩
  · rw [length_append, length_spread, hlen, length_replicate]
  · intro d hd
    rcases mem_append.1 hd with hd | hd
    · exact inRange_spread prod d hd
    · rw [eq_of_mem_replicate hd]
      norm_num
  · rw [weigh_append, weigh_spread, weigh_replicate_zero, mul_zero, add_zero]

lemma toNat_join {lo hi : ℤ} (hlo : 0 ≤ lo ∧ lo < 2 ^ 32) (hhi : 0 ≤ hi ∧ hi < 2 ^ 32) :
    ((join lo hi).toNat : ℤ) = lo + 2 ^ 32 * hi := by
  lift lo to ℕ using hlo.1
  lift hi to ℕ using hhi.1
  have hlo' : lo < 2 ^ 32 := by exact_mod_cast hlo.2
  have hshift : (32 : UInt64).toNat % 64 = 32 := rfl
  have hlow : (UInt64.ofNat lo).toNat = lo := by
    rw [UInt64.toNat_ofNat']
    omega
  have hhigh : (UInt64.ofNat hi <<< 32).toNat = 2 ^ 32 * hi := by
    rw [UInt64.toNat_shiftLeft, UInt64.toNat_ofNat', hshift]
    omega
  rw [join, Int.toNat_natCast, Int.toNat_natCast, UInt64.toNat_or, hlow, hhigh, Nat.or_comm,
    ← Nat.two_pow_add_eq_or_of_lt hlo']
  push_cast
  ring

lemma Digits.value_collect {v : ℕ} (h : Digits acc v) (hv : v < 2 ^ 256) : (collect acc).value = v := by
  have hb : (0 : ℤ) < 2 ^ 32 := by norm_num
  have hdigit := (inRange_iff_getD hb).1 h.inRange
  have hlt : Positional.weigh (2 ^ 32) acc < (2 ^ 32) ^ 8 := by
    rw [h.weigh]
    exact_mod_cast hv
  have hsplit := weigh_take_add_drop (b := 2 ^ 32) acc (k := 8) (by rw [h.length]; norm_num)
  rw [h.inRange.weigh_drop_eq_zero hb (by rw [h.length]; norm_num) hlt, h.weigh] at hsplit
  have hk (k : ℕ) (hk : k < 31) := weigh_take_succ (b := 2 ^ 32) (h.length ▸ hk)
  rw [hk 7 (by norm_num), hk 6 (by norm_num), hk 5 (by norm_num), hk 4 (by norm_num), hk 3 (by norm_num),
    hk 2 (by norm_num), hk 1 (by norm_num), hk 0 (by norm_num)] at hsplit
  have h0 := toNat_join (hdigit 0) (hdigit 1)
  have h1 := toNat_join (hdigit 2) (hdigit 3)
  have h2 := toNat_join (hdigit 4) (hdigit 5)
  have h3 := toNat_join (hdigit 6) (hdigit 7)
  zify
  rw [U256.value, collect, ← hsplit]
  push_cast
  rw [h0, h1, h2, h3, take_zero, weigh_nil]
  ring

lemma limbsValue_eq (a : U256) : limbsValue [a.v0, a.v1, a.v2, a.v3] = a.value := by
  rw [U256.value]
  simp only [limbsValue]
  ring

lemma yields_modMul (a b : U256) : Yields (modMul subWrapping a b) fun r => r.value = a.value * b.value % prime := by
  have hprod : a.value * b.value < 2 ^ 256 * 2 ^ 256 :=
    Nat.mul_lt_mul'' a.value_lt b.value_lt
  have hlimbs : limbsValue (replicate 8 0) + limbsValue [a.v0, a.v1, a.v2, a.v3] *
      limbsValue [b.v0, b.v1, b.v2, b.v3] = a.value * b.value := by
    rw [limbsValue_replicate_zero, limbsValue_eq, limbsValue_eq, Nat.zero_add]
  have hbound : passBound 0 = 2 ^ 256 * 2 ^ 256 := by
    rw [passBound, if_pos (Nat.zero_le 7), pow_add]
  have hsize : 64 * (replicate 8 (0 : UInt64)).length = 256 + 256 := rfl
  refine .bind (yields_mulRows le_rfl (by rwa [hlimbs, hsize, pow_add])) fun prod hp => ?_
  obtain ⟨hlen, hvalue⟩ := hp
  rw [hlimbs] at hvalue
  refine .bind (yields_foldPasses (digits_spread hlen) (by rwa [hvalue, hbound])) fun acc hacc => ?_
  obtain ⟨w, hdigits, hmod, hw⟩ := hacc
  have hr := hdigits.value_collect hw
  rw [← hvalue, ← hmod, ← hr]
  generalize collect acc = r at hr
  refine .bind (yields_u256SubRaw r p256P) fun s hs => ?_
  obtain ⟨s, borrow⟩ := s
  obtain ⟨hs, hborrow⟩ := hs
  have hr256 := r.value_lt
  have hs256 := s.value_lt
  have htwice : 2 ^ 256 < prime + prime := by norm_num
  rw [value_p256P] at hs
  rcases eq_zero_or_one hborrow with rfl | rfl <;>
    simp only [UInt64.toNat_zero, UInt64.toNat_one, zero_mul, one_mul, add_zero] at hs
  · exact yields_u256Cmov_one (eq_mod_of_sub (by linarith) (.inr hs))
  · exact yields_u256Cmov_zero (eq_mod_of_sub (by linarith) (.inl rfl))

/-- Sums, products and the signed accumulators fit; only differences may wrap around, and the results are the
canonical residues. -/
theorem field_arithmetic_exact (a b : U256) :
    (Yields (modMul subWrapping a b) fun r => r.value = a.value * b.value % prime) ∧
      (a.value < prime → b.value < prime →
        (Yields (modAdd subWrapping a b p256P) fun r => r.value = (a.value + b.value) % prime) ∧
          Yields (modSub subWrapping a b p256P) fun r => (r.value : ℤ) = (a.value - b.value) % prime) := by
  refine ⟨yields_modMul a b, fun ha hb => ?_⟩
  rw [← value_p256P] at ha hb ⊢
  refine ⟨yields_modAdd ha hb, (yields_modSub ha hb).mono fun r hr => ?_⟩
  have hle : b.value ≤ a.value + p256P.value := hb.le.trans (Nat.le_add_left _ _)
  have hdiff : ((a.value + p256P.value - b.value : ℕ) : ℤ) = a.value - b.value + p256P.value := by
    rw [Nat.cast_sub hle]
    push_cast
    ring
  rw [hr, Int.natCast_mod, hdiff, Int.add_emod_right]

/-- The largest canonical number and one. -/
theorem field_arithmetic_exact_last :
    Yields (modAdd subWrapping { p256P with v0 := 0xfffffffffffffffe } ⟨1, 0, 0, 0⟩ p256P) fun r => r.value = 0 := by
  have hlast : U256.value { p256P with v0 := 0xfffffffffffffffe } = prime - 1 := by
    rw [U256.value]
    rfl
  have hone : U256.value ⟨1, 0, 0, 0⟩ = 1 := by
    rw [U256.value]
    rfl
  have hsum := ((field_arithmetic_exact { p256P with v0 := 0xfffffffffffffffe } ⟨1, 0, 0, 0⟩).2
    (by rw [hlast]; norm_num) (by rw [hone]; norm_num)).1
  rw [hlast, hone] at hsum
  exact hsum.mono fun r hr => hr.trans (by norm_num)

/-- With differences that have to fit, a difference below zero does not. -/
theorem borrow_wraps : (modSub sub64 ⟨0, 0, 0, 0⟩ ⟨1, 0, 0, 0⟩ p256P).fits = false := by
  decide

end P256
