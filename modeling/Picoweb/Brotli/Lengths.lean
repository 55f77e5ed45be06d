import Picoweb.Lib.PrefixCode
import Picoweb.Lib.Run
import Mathlib.Data.List.DropRight

/-!
# Code lengths

`build_lengths_ex` merges the used symbols into a Huffman tree with two queues, takes the depth of
each leaf, clamped to `max_bits`, and then moves lengths up or down until the code space is exactly
filled. However badly the clamp left them, two rounds are enough.
-/

namespace Brotli

open PrefixCode List

/-! ### Filling the code space -/

def mask (lens : List ℕ) : List Bool := lens.map (· != 0)

/-- The inner loop of the lengthening pass, over the symbols of length `l`. -/
def lengthenAt (maxBits l : ℕ) : ℕ → List ℕ → List ℕ × ℕ
  | kraft, [] => ([], kraft)
  | kraft, x :: xs =>
    if 2 ^ maxBits < kraft ∧ x = l then
      let r := lengthenAt maxBits l (kraft - 2 ^ (maxBits - l) + 2 ^ (maxBits - l - 1)) xs
      ((x + 1) :: r.1, r.2)
    else
      let r := lengthenAt maxBits l kraft xs
      (x :: r.1, r.2)

/-- The inner loop of the shortening pass, which runs from the last symbol to the first. -/
def shortenAt (maxBits l : ℕ) : ℕ → List ℕ → List ℕ × ℕ
  | kraft, [] => ([], kraft)
  | kraft, x :: xs =>
    let r := shortenAt maxBits l kraft xs
    if r.2 < 2 ^ maxBits ∧ x = l then
      ((x - 1) :: r.1, r.2 - 2 ^ (maxBits - l) + 2 ^ (maxBits - l + 1))
    else (x :: r.1, r.2)

/-- Oversubscribed: lengthen the shortest codes first. -/
def lengthen (maxBits : ℕ) (lens : List ℕ) : List ℕ :=
  ((range' 1 (maxBits - 1)).foldl (fun r l => lengthenAt maxBits l r.2 r.1) (lens, kraft maxBits lens)).1

/-- Undersubscribed: shorten the longest codes first. -/
def shorten (maxBits : ℕ) (lens : List ℕ) : List ℕ :=
  ((range' 2 (maxBits - 1)).foldr (fun l r => shortenAt maxBits l r.2 r.1) (lens, kraft maxBits lens)).1

def adjust (maxBits : ℕ) : ℕ → List ℕ → List ℕ
  | 0, lens => lens
  | rounds + 1, lens =>
    if kraft maxBits lens = 2 ^ maxBits then lens
    else if 2 ^ maxBits < kraft maxBits lens then adjust maxBits rounds (lengthen maxBits lens)
    else adjust maxBits rounds (shorten maxBits lens)

/-! #### Lengthening -/

/-- What a sweep at length `l`, starting with `k` of the code space taken, does to the lengths. -/
structure Lengthened (maxBits l k : ℕ) (xs : List ℕ) (r : List ℕ × ℕ) : Prop where
  mask : mask r.1 = Brotli.mask xs
  kraft : PrefixCode.kraft maxBits r.1 + k = PrefixCode.kraft maxBits xs + r.2
  le : r.2 ≤ k
  mem : ∀ y ∈ r.1, y ∈ xs ∨ y = l + 1
  gone : r.2 ≤ 2 ^ maxBits ∨ l ∉ r.1

variable {maxBits : ℕ}

lemma lengthenAt_lengthened {l : ℕ} (hl : l ≠ 0) (hlt : l < maxBits) {k : ℕ} {xs : List ℕ}
    (hk : kraft maxBits xs ≤ k) : Lengthened maxBits l k xs (lengthenAt maxBits l k xs) := by
  induction xs generalizing k with
  | nil => exact ⟨rfl, by simp [lengthenAt], le_refl _, by simp [lengthenAt], .inr (by simp [lengthenAt])⟩
  | cons x xs ih =>
    have hhalf : 2 ^ (maxBits - l) = 2 * 2 ^ (maxBits - l - 1) := by
      rw [← pow_succ']
      congr 1
      omega
    rw [kraft_cons] at hk
    rw [lengthenAt]
    split_ifs with hc
    · obtain ⟨hover, rfl⟩ := hc
      rw [share_of_ne_zero hl] at hk
      obtain ⟨hmask, hkraft, hle, hmem, hgone⟩ :=
        ih (k := k - 2 ^ (maxBits - x) + 2 ^ (maxBits - x - 1)) (by omega)
      refine ⟨?_, ?_, by simp only; omega, ?_, ?_⟩
      · simpa [Brotli.mask, hl] using hmask
      · simp only [kraft_cons]
        rw [share_of_ne_zero hl, share_of_ne_zero (by omega), Nat.sub_add_eq]
        omega
      · exact forall_mem_cons.2 ⟨.inr rfl, fun y hy => (hmem y hy).imp_left (mem_cons_of_mem _)⟩
      · exact hgone.imp_right fun h => by simp [h]
    · obtain ⟨hmask, hkraft, hle, hmem, hgone⟩ := ih (k := k) (by omega)
      refine ⟨?_, ?_, hle, ?_, ?_⟩
      · simpa [Brotli.mask] using hmask
      · simp only [kraft_cons]
        omega
      · exact forall_mem_cons.2 ⟨.inl mem_cons_self, fun y hy => (hmem y hy).imp_left (mem_cons_of_mem _)⟩
      · by_cases hover : 2 ^ maxBits < k
        · exact hgone.imp_right fun h => by simp [h, Ne.symm (fun hx => hc ⟨hover, hx⟩)]
        · exact .inl (by simp only; omega)

variable {lens freq : List ℕ}

/-- A code whose words all have the full length takes one place for each word. -/
lemma kraft_full (h : ∀ y ∈ lens, y = 0 ∨ y = maxBits) : kraft maxBits lens ≤ (mask lens).count true := by
  induction lens with
  | nil => simp
  | cons x xs ih =>
    simp only [forall_mem_cons] at h
    have hxs := ih h.2
    rcases h.1 with rfl | rfl
    · simpa [mask] using hxs
    · by_cases hx : x = 0
      · simpa [mask, hx] using hxs
      · simp only [kraft_cons, share_of_ne_zero hx, Nat.sub_self, mask, map_cons,
          bne_iff_ne.2 hx, count_cons_self]
        rw [mask] at hxs
        omega

/-- The state of the lengthening pass after the sweeps below `m`. -/
structure LengthenInv (maxBits m : ℕ) (lens : List ℕ) (r : List ℕ × ℕ) : Prop where
  mask : mask r.1 = Brotli.mask lens
  kraft : PrefixCode.kraft maxBits r.1 = r.2
  le : ∀ y ∈ r.1, y ≤ maxBits
  done : r.2 ≤ 2 ^ maxBits ∨ ∀ y ∈ r.1, y = 0 ∨ m ≤ y

lemma foldl_lengthenAt (n : ℕ) : ∀ {m : ℕ} {r : List ℕ × ℕ}, 1 ≤ m → m + n = maxBits → LengthenInv maxBits m lens r →
      LengthenInv maxBits maxBits lens ((range' m n).foldl (fun r l => lengthenAt maxBits l r.2 r.1) r) := by
  induction n with
  | zero =>
    rintro m r - rfl h
    exact h
  | succ n ih =>
    intro m r hm hsum h
    rw [range'_succ, foldl_cons]
    have hsweep := lengthenAt_lengthened (by omega) (by omega) h.kraft.le (l := m)
    refine ih (by omega) (by omega) ⟨hsweep.mask.trans h.mask, ?_, ?_, ?_⟩
    · have := hsweep.kraft
      have := h.kraft
      omega
    · intro y hy
      rcases hsweep.mem y hy with h' | rfl
      · exact h.le y h'
      · omega
    · rcases h.done with hdone | hdone
      · exact .inl (hsweep.le.trans hdone)
      · refine hsweep.gone.imp_right fun hgone y hy => ?_
        have hne : y ≠ m := fun h => hgone (h ▸ hy)
        rcases hsweep.mem y hy with h' | rfl
        · have := hdone y h'
          omega
        · exact .inr le_rfl

lemma lengthen_spec (hbits : 1 ≤ maxBits) (hle : ∀ y ∈ lens, y ≤ maxBits)
    (hused : (mask lens).count true ≤ 2 ^ maxBits) :
    mask (lengthen maxBits lens) = mask lens ∧ (∀ y ∈ lengthen maxBits lens, y ≤ maxBits) ∧
      kraft maxBits (lengthen maxBits lens) ≤ 2 ^ maxBits := by
  have hstart : LengthenInv maxBits 1 lens (lens, kraft maxBits lens) :=
    ⟨rfl, rfl, hle, .inr fun y _ => by omega⟩
  obtain ⟨hmask, hkraft, hle', hdone⟩ := foldl_lengthenAt (maxBits - 1) le_rfl (by omega) hstart
  refine ⟨hmask, hle', ?_⟩
  rw [lengthen, hkraft]
  refine hdone.elim id fun hfull => ?_
  rw [← hkraft]
  refine (kraft_full fun y hy => ?_).trans (hmask ▸ hused)
  exact (hfull y hy).imp_right fun h => le_antisymm (hle' y hy) h

/-! #### Shortening -/

structure Shortened (maxBits l k : ℕ) (xs : List ℕ) (r : List ℕ × ℕ) : Prop where
  mask : mask r.1 = Brotli.mask xs
  kraft : PrefixCode.kraft maxBits r.1 + k = PrefixCode.kraft maxBits xs + r.2
  le : k ≤ r.2
  mem : ∀ y ∈ r.1, y ∈ xs ∨ y = l - 1
  gone : 2 ^ maxBits ≤ r.2 ∨ l ∉ r.1
  dvd : 2 ^ (maxBits - l) ∣ k → k ≤ 2 ^ maxBits → 2 ^ (maxBits - l) ∣ r.2 ∧ r.2 ≤ 2 ^ maxBits

lemma shortenAt_shortened {l : ℕ} (hl : 1 < l) (hle : l ≤ maxBits) {k : ℕ} {xs : List ℕ}
    (hk : kraft maxBits xs ≤ k) : Shortened maxBits l k xs (shortenAt maxBits l k xs) := by
  induction xs with
  | nil =>
    exact ⟨rfl, by simp [shortenAt], le_rfl, by simp [shortenAt], .inr (by simp [shortenAt]),
      fun hdvd hle => ⟨hdvd, hle⟩⟩
  | cons x xs ih =>
    rw [kraft_cons] at hk
    obtain ⟨hmask, hkraft, hle', hmem, hgone, hdvd⟩ := ih (by omega)
    simp only [shortenAt]
    generalize shortenAt maxBits l k xs = r at *
    split_ifs with hc
    · obtain ⟨hunder, rfl⟩ := hc
      rw [share_of_ne_zero (by omega)] at hk
      refine ⟨?_, ?_, by simp only; omega, ?_, ?_, ?_⟩
      · have hused : (x - 1 != 0) = (x != 0) := by
          rw [bne_iff_ne.2 (by omega), bne_iff_ne.2 (by omega)]
        simpa [Brotli.mask, hused] using hmask
      · simp only [kraft_cons]
        rw [share_of_ne_zero (by omega), share_of_ne_zero (by omega),
          show maxBits - (x - 1) = maxBits - x + 1 by omega]
        omega
      · exact forall_mem_cons.2 ⟨.inr rfl, fun y hy => (hmem y hy).imp_left (mem_cons_of_mem _)⟩
      · refine .inr ?_
        rw [mem_cons, not_or]
        exact ⟨by omega, hgone.resolve_left (by omega)⟩
      · -- everything at this level is a multiple of one share, so one more share still fits
        intro hk' hkle
        obtain ⟨⟨a, ha⟩, hr⟩ := hdvd hk' hkle
        obtain ⟨b, hb⟩ : 2 ^ (maxBits - x) ∣ 2 ^ maxBits := pow_dvd_pow 2 (Nat.sub_le _ _)
        have hab : a < b := by
          rw [ha, hb] at hunder
          exact lt_of_mul_lt_mul_left hunder (Nat.zero_le _)
        have hsum : r.2 - 2 ^ (maxBits - x) + 2 ^ (maxBits - x + 1) = 2 ^ (maxBits - x) * (a + 1) := by
          rw [mul_add]
          omega
        refine ⟨⟨a + 1, hsum⟩, ?_⟩
        rw [hb]
        exact hsum.le.trans (Nat.mul_le_mul_left _ hab)
    · refine ⟨?_, ?_, hle', ?_, ?_, hdvd⟩
      · simpa [Brotli.mask] using hmask
      · simp only [kraft_cons]
        omega
      · exact forall_mem_cons.2 ⟨.inl mem_cons_self, fun y hy => (hmem y hy).imp_left (mem_cons_of_mem _)⟩
      · by_cases hunder : r.2 < 2 ^ maxBits
        · refine .inr ?_
          rw [mem_cons, not_or]
          exact ⟨Ne.symm fun hx => hc ⟨hunder, hx⟩, hgone.resolve_left (by omega)⟩
        · exact .inl (by simp only; omega)

lemma dvd_kraft {l : ℕ} (hle : l ≤ maxBits) (h : ∀ y ∈ lens, y ≤ l) : 2 ^ (maxBits - l) ∣ kraft maxBits lens := by
  have hsum := kraft_add (maxBits - l) h
  rw [Nat.add_sub_cancel' hle] at hsum
  exact ⟨_, hsum⟩

/-- Two codewords of length one fill the space. -/
lemma le_kraft_of_le_one (h : ∀ y ∈ lens, y ≤ 1) :
    (mask lens).count true * 2 ^ (maxBits - 1) ≤ kraft maxBits lens := by
  induction lens with
  | nil => simp [mask]
  | cons x xs ih =>
    simp only [forall_mem_cons] at h
    have hxs := ih h.2
    rw [mask] at hxs
    obtain rfl | rfl : x = 0 ∨ x = 1 := by omega
    · simpa [mask] using hxs
    · simp only [mask, map_cons, kraft_cons, share_of_ne_zero one_ne_zero]
      rw [show ((1 : ℕ) != 0) = true from rfl, count_cons_self, add_mul]
      omega

/-- The state of the shortening pass when the sweeps above `m` are done. -/
structure ShortenInv (maxBits m : ℕ) (lens : List ℕ) (r : List ℕ × ℕ) : Prop where
  mask : mask r.1 = Brotli.mask lens
  kraft : PrefixCode.kraft maxBits r.1 = r.2
  le : r.2 ≤ 2 ^ maxBits
  bound : ∀ y ∈ r.1, y ≤ maxBits
  done : r.2 = 2 ^ maxBits ∨ ∀ y ∈ r.1, y ≤ m

lemma foldr_shortenAt {r : List ℕ × ℕ} (n : ℕ) :
    ∀ {m : ℕ}, 1 ≤ m → m + n = maxBits → ShortenInv maxBits maxBits lens r → ShortenInv maxBits m lens
        ((range' (m + 1) n).foldr (fun l r => shortenAt maxBits l r.2 r.1) r) := by
  induction n with
  | zero =>
    rintro m - rfl h
    exact h
  | succ n ih =>
    intro m hm hsum h
    rw [range'_succ, foldr_cons]
    have hprev := ih (m := m + 1) (by omega) (by omega) h
    generalize (range' (m + 1 + 1) n).foldr (fun l r => shortenAt maxBits l r.2 r.1) r = r' at *
    have hsweep := shortenAt_shortened (by omega) (by omega) hprev.kraft.le (l := m + 1)
    have hkraft := hsweep.kraft
    have hprevk := hprev.kraft
    have hdvd : 2 ^ (maxBits - (m + 1)) ∣ r'.2 := by
      rcases hprev.done with hfull | hbelow
      · exact hfull ▸ pow_dvd_pow 2 (Nat.sub_le _ _)
      · exact hprev.kraft ▸ dvd_kraft (by omega) hbelow
    have hle := (hsweep.dvd hdvd hprev.le).2
    refine ⟨hsweep.mask.trans hprev.mask, by omega, hle, ?_, ?_⟩
    · intro y hy
      rcases hsweep.mem y hy with h' | rfl
      · exact hprev.bound y h'
      · omega
    · rcases hprev.done with hfull | hbelow
      · -- the space is full already, and the sweep leaves it so
        exact .inl (le_antisymm hle (hfull ▸ hsweep.le))
      · refine hsweep.gone.imp (fun h => le_antisymm hle h) fun hgone y hy => ?_
        have hne : y ≠ m + 1 := fun h => hgone (h ▸ hy)
        rcases hsweep.mem y hy with h' | rfl
        · have := hbelow y h'
          omega
        · omega

lemma shorten_spec (hbits : 1 ≤ maxBits) (hle : ∀ y ∈ lens, y ≤ maxBits)
    (hunder : kraft maxBits lens ≤ 2 ^ maxBits) (hused : 2 ≤ (mask lens).count true) :
    mask (shorten maxBits lens) = mask lens ∧ (∀ y ∈ shorten maxBits lens, y ≤ maxBits) ∧
      kraft maxBits (shorten maxBits lens) = 2 ^ maxBits := by
  have hstart : ShortenInv maxBits maxBits lens (lens, kraft maxBits lens) :=
    ⟨rfl, rfl, hunder, hle, .inr hle⟩
  obtain ⟨hmask, hkraft, hle', hbound, hdone⟩ := foldr_shortenAt (maxBits - 1) le_rfl (by omega) hstart
  refine ⟨hmask, hbound, ?_⟩
  rw [shorten, hkraft]
  refine hdone.elim id fun hone => le_antisymm hle' ?_
  rw [← hkraft]
  refine le_trans ?_ (le_kraft_of_le_one hone)
  rw [hmask, show maxBits = maxBits - 1 + 1 by omega, pow_succ']
  exact Nat.mul_le_mul_right _ hused

/-- `lens'` gives a length to the same symbols as `lens` and fills the code space. -/
structure Filled (maxBits : ℕ) (lens lens' : List ℕ) : Prop where
  mask : mask lens' = Brotli.mask lens
  le : ∀ y ∈ lens', y ≤ maxBits
  kraft : PrefixCode.kraft maxBits lens' = 2 ^ maxBits

lemma adjust_of_full (rounds : ℕ) (h : kraft maxBits lens = 2 ^ maxBits) : adjust maxBits rounds lens = lens := by
  cases rounds with
  | zero => rfl
  | succ n => rw [adjust, if_pos h]

lemma adjust_filled_of_le (rounds : ℕ) (hbits : 1 ≤ maxBits)
    (hle : ∀ y ∈ lens, y ≤ maxBits) (hmin : 2 ≤ (mask lens).count true) (hunder : kraft maxBits lens ≤ 2 ^ maxBits) :
    Filled maxBits lens (adjust maxBits (rounds + 1) lens) := by
  by_cases hfull : kraft maxBits lens = 2 ^ maxBits
  · rw [adjust_of_full _ hfull]
    exact ⟨rfl, hle, hfull⟩
  · obtain ⟨hmask, hle', hfull'⟩ := shorten_spec hbits hle hunder hmin
    rw [adjust, if_neg hfull, if_neg (by omega), adjust_of_full _ hfull']
    exact ⟨hmask, hle', hfull'⟩

/-- Two rounds fill the code space exactly: one may be needed to get below, the next fills up. -/
theorem adjust_filled (rounds : ℕ) (hbits : 1 ≤ maxBits)
    (hle : ∀ y ∈ lens, y ≤ maxBits) (hmin : 2 ≤ (mask lens).count true)
    (hmax : (mask lens).count true ≤ 2 ^ maxBits) : Filled maxBits lens (adjust maxBits (rounds + 2) lens) := by
  by_cases hover : 2 ^ maxBits < kraft maxBits lens
  · obtain ⟨hmask, hle', hunder⟩ := lengthen_spec hbits hle hmax
    rw [adjust, if_neg (by omega), if_pos hover]
    obtain ⟨hmask', hle'', hfull⟩ := adjust_filled_of_le rounds hbits hle' (hmask ▸ hmin) hunder
    exact ⟨hmask'.trans hmask, hle'', hfull⟩
  · exact adjust_filled_of_le (rounds + 1) hbits hle hmin (by omega)

/-! ### The tree -/

/-- The arrays of the two-queue merge: frequency and parent of each node, and the two queues. -/
structure Forest where
  nf : List ℕ
  par : List (Option ℕ)
  q1 : ℕ
  q2buf : List ℕ
  q2h : ℕ

namespace Forest

/-- Takes the lighter of the two queue heads. -/
def pick (nused : ℕ) (t : Forest) : ℕ × Forest :=
  let leaf := (t.q1, { t with q1 := t.q1 + 1 })
  let node := (t.q2buf.getD t.q2h 0, { t with q2h := t.q2h + 1 })
  if t.q1 < nused ∧ t.q2h < t.q2buf.length then
    if t.nf.getD t.q1 0 ≤ t.nf.getD (t.q2buf.getD t.q2h 0) 0 then leaf else node
  else if t.q1 < nused then leaf
  else node

/-- One round of the merge; the frequencies are `uint32_t`. -/
def merge (nused : ℕ) (t : Forest) : Forest :=
  let a := t.pick nused
  let b := a.2.pick nused
  let t := b.2
  let nn := t.nf.length
  { t with
    nf := t.nf ++ [(t.nf.getD a.1 0 + t.nf.getD b.1 0) % 2 ^ 32]
    par := ((t.par ++ [none]).set a.1 (some nn)).set b.1 (some nn)
    q2buf := t.q2buf ++ [nn] }

def leaves (nf : List ℕ) : Forest :=
  { nf, par := replicate nf.length none, q1 := 0, q2buf := [], q2h := 0 }

def build (nf : List ℕ) : Forest := (merge nf.length)^[nf.length - 1] (leaves nf)

/-- How far a node is below the root; a parent always has a larger index. -/
def depth (t : Forest) : ℕ → ℕ → ℕ
  | 0, _ => 0
  | fuel + 1, cur =>
    match t.par.getD cur none with
    | none => 0
    | some p => t.depth fuel p + 1

/-- The state after `m` rounds: every leaf taken from the first queue has a parent. -/
structure Merged (n m : ℕ) (t : Forest) : Prop where
  q1_le : t.q1 ≤ n
  taken : t.q1 + t.q2h = 2 * m
  q2t : t.q2buf.length = m
  q2h_le : t.q2h ≤ m - 1
  par_length : t.par.length = n + m
  par : ∀ i < t.q1, t.par.getD i none ≠ none

/-- What one pick changes, as long as a node is left in one of the queues. -/
structure Picked (n : ℕ) (t : Forest) (r : ℕ × Forest) : Prop where
  q1_le : r.2.q1 ≤ n
  taken : r.2.q1 + r.2.q2h = t.q1 + t.q2h + 1
  q2h_le : r.2.q2h ≤ t.q2buf.length
  par : r.2.par = t.par
  q2buf : r.2.q2buf = t.q2buf
  leaf : ∀ i < r.2.q1, i < t.q1 ∨ i = r.1

lemma pick_picked {n : ℕ} {t : Forest} (hq1 : t.q1 ≤ n) (hq2 : t.q2h ≤ t.q2buf.length)
    (hleft : t.q1 + t.q2h < n + t.q2buf.length) : Picked n t (t.pick n) := by
  have hleaf : t.q1 < n → Picked n t (t.q1, { t with q1 := t.q1 + 1 }) := fun h =>
    ⟨h, by simp only; omega, hq2, rfl, rfl, by simp only; omega⟩
  have hnode : t.q2h < t.q2buf.length → Picked n t (t.q2buf.getD t.q2h 0, { t with q2h := t.q2h + 1 }) := fun h =>
    ⟨hq1, by simp only; omega, h, rfl, rfl, fun i hi => .inl hi⟩
  simp only [pick]
  split_ifs with h h' h'
  · exact hleaf h.1
  · exact hnode h.2
  · exact hleaf h'
  · exact hnode (by omega)

lemma leaves_merged (nf : List ℕ) : Merged nf.length 0 (leaves nf) :=
  ⟨Nat.zero_le _, rfl, rfl, le_rfl, by simp [leaves], by simp [leaves]⟩

/-- Setting an entry to a parent takes no parent away. -/
lemma getD_set_ne_none {par : List (Option ℕ)} {i a p : ℕ} (h : par.getD i none ≠ none) :
    (par.set a (some p)).getD i none ≠ none := by
  rw [getD_eq_getElem?_getD, getElem?_set]
  by_cases hi : a = i
  · subst hi
    by_cases hlt : a < par.length
    · simp [hlt]
    · simp [getElem?_eq_none (not_lt.1 hlt)] at h
  · rwa [if_neg hi]

lemma getD_set_self {par : List (Option ℕ)} {a p : ℕ} (h : a < par.length) :
    (par.set a (some p)).getD a none ≠ none := by
  simp [getElem?_set_self h]

lemma Merged.merge {n m : ℕ} {t : Forest} (h : Merged n m t) (hm : m + 1 < n) : Merged n (m + 1) (t.merge n) := by
  have htaken := h.taken
  have hq2t := h.q2t
  have hq2h := h.q2h_le
  have ha := pick_picked h.q1_le (by omega) (by omega)
  have hsum := ha.taken
  have hb := pick_picked ha.q1_le (ha.q2buf ▸ ha.q2h_le) (by rw [ha.q2buf]; omega)
  have hsum' := hb.taken
  have hlen := hb.q2h_le
  rw [ha.q2buf] at hlen
  have hpar : ((t.pick n).2.pick n).2.par = t.par := hb.par.trans ha.par
  refine ⟨hb.q1_le, ?_, ?_, ?_, ?_, ?_⟩
  · simp only [Forest.merge]
    omega
  · simp [Forest.merge, hb.q2buf, ha.q2buf, hq2t]
  · simp only [Forest.merge]
    omega
  · simp only [Forest.merge, length_set, length_append, length_singleton, hpar, h.par_length]
    omega
  · intro i hi
    have hin : i < n := lt_of_lt_of_le hi hb.q1_le
    have hparlen := h.par_length
    simp only [Forest.merge, hpar]
    -- a leaf taken earlier keeps its parent, the leaves of this round get the new node
    rcases hb.leaf i hi with hi' | rfl
    · refine getD_set_ne_none ?_
      rcases ha.leaf i hi' with hi'' | rfl
      · refine getD_set_ne_none ?_
        rw [getD_eq_getElem?_getD, getElem?_append_left (by omega)]
        exact h.par i hi''
      · exact getD_set_self (by simp only [length_append]; omega)
    · exact getD_set_self (by simp only [length_set, length_append]; omega)

/-- Every leaf of the finished tree is below another node. -/
lemma depth_pos {nf : List ℕ} (hn : 2 ≤ nf.length) {i : ℕ} (hi : i < nf.length) (fuel : ℕ) :
    0 < (build nf).depth (fuel + 1) i := by
  have hrun : ∀ m, m + 1 ≤ nf.length → Merged nf.length m ((merge nf.length)^[m] (leaves nf)) := by
    intro m hm
    induction m with
    | zero => exact leaves_merged nf
    | succ m ih =>
      rw [Function.iterate_succ_apply']
      exact (ih (by omega)).merge (by omega)
  have h := hrun (nf.length - 1) (by omega)
  have htaken := h.taken
  have hq2h := h.q2h_le
  have hpar := h.par i (by omega)
  rw [build, depth]
  cases hp : ((merge nf.length)^[nf.length - 1] (leaves nf)).par.getD i none with
  | none => exact absurd hp hpar
  | some p => simp

end Forest

/-! ### Building the lengths -/

def countUsed (freq : List ℕ) : ℕ := freq.countP (· ≠ 0)

def usedSymbols (freq : List ℕ) : List ℕ :=
  freq.zipIdx.filterMap fun e => if e.1 ≠ 0 then some e.2 else none

/-- One step of the insertion sort: heavier symbols at the end make room for `key`. -/
def insertKey (freq sorted : List ℕ) (key : ℕ) : List ℕ :=
  let heavier := fun s => decide (freq.getD key 0 < freq.getD s 0)
  sorted.rdropWhile heavier ++ key :: sorted.rtakeWhile heavier

def sortByFreq (freq symbols : List ℕ) : List ℕ := symbols.foldl (insertKey freq) []

def setEntries {α : Type} (xs : List α) (entries : List (ℕ × α)) : List α :=
  entries.foldl (fun xs e => xs.set e.1 e.2) xs

/-- The depth of each leaf, clamped. The tree has fewer than `2 * nused` nodes. -/
def leafDepths (maxBits : ℕ) (nf : List ℕ) : List ℕ :=
  (range nf.length).map fun i => min ((Forest.build nf).depth (2 * nf.length) i) maxBits

/-- `build_lengths_ex`. The callers do not use the maximum that it returns. -/
def buildLengthsEx (freq : List ℕ) (maxBits : ℕ) : List ℕ :=
  let zeros := replicate freq.length 0
  let used := usedSymbols freq
  if used.length = 0 then zeros
  else if used.length = 1 then zeros.set (used.getD 0 0) 1
  else if 1024 < used.length then zeros
  else
    let sorted := sortByFreq freq used
    let depths := leafDepths maxBits (sorted.map fun s => freq.getD s 0)
    adjust maxBits 50 (setEntries zeros (sorted.zip depths))

lemma mem_usedSymbols {s : ℕ} : s ∈ usedSymbols freq ↔ ∃ f, freq[s]? = some f ∧ f ≠ 0 := by
  simp only [usedSymbols, mem_filterMap, Prod.exists, mem_zipIdx_iff_getElem?]
  constructor
  · rintro ⟨f, i, hf, hi⟩
    split_ifs at hi with h
    obtain rfl := Option.some.inj hi
    exact ⟨f, hf, h⟩
  · rintro ⟨f, hf, h⟩
    exact ⟨f, s, hf, by simp [h]⟩

lemma lt_of_mem_usedSymbols {s : ℕ} (h : s ∈ usedSymbols freq) : s < freq.length := by
  obtain ⟨f, hf, -⟩ := mem_usedSymbols.1 h
  exact (List.getElem?_eq_some_iff.1 hf).1

lemma pairwise_usedSymbols (freq : List ℕ) : (usedSymbols freq).Pairwise (· < ·) := by
  have hidx : freq.zipIdx.Pairwise fun a b => a.2 < b.2 := by
    rw [← pairwise_map (f := Prod.snd) (R := (· < ·)), zipIdx_map_snd]
    exact pairwise_lt_range' _
  refine pairwise_filterMap.2 (hidx.imp fun {a b} hab s hs s' hs' => ?_)
  split_ifs at hs hs'
  obtain rfl := Option.some.inj hs
  obtain rfl := Option.some.inj hs'
  exact hab

lemma usedSymbols_congr (h : mask lens = mask freq) : usedSymbols lens = usedSymbols freq := by
  have hmask : ∀ xs : List ℕ, usedSymbols xs =
      (mask xs).zipIdx.filterMap fun e => if e.1 then some e.2 else none := by
    intro xs
    rw [mask, zipIdx_map, filterMap_map]
    refine filterMap_congr fun e _ => ?_
    by_cases he : e.1 = 0 <;> simp [he]
  rw [hmask, hmask, h]

lemma count_mask (lens : List ℕ) : (mask lens).count true = countUsed lens := by
  rw [mask, count, countP_map]
  refine countP_congr fun l _ => ?_
  simp

lemma length_usedSymbols (freq : List ℕ) : (usedSymbols freq).length = countUsed freq := by
  have hmap : freq.zipIdx.map Prod.fst = freq := by simp
  conv_rhs => rw [countUsed, ← hmap, countP_map]
  rw [usedSymbols, length_filterMap_eq_countP]
  refine countP_congr fun e _ => ?_
  by_cases h : e.1 = 0 <;> simp [h]

lemma perm_insertKey (freq sorted : List ℕ) (key : ℕ) : (insertKey freq sorted key).Perm (key :: sorted) := by
  refine perm_middle.trans (List.Perm.cons _ ?_)
  rw [rdropWhile_append_rtakeWhile]

lemma perm_sortByFreq (freq symbols : List ℕ) : (sortByFreq freq symbols).Perm symbols := by
  simpa [sortByFreq] using Run.perm_foldl_insert (perm_insertKey freq) symbols []

section SetEntries

variable {α : Type} {xs : List α} {entries : List (ℕ × α)}

@[simp] lemma setEntries_nil (xs : List α) : setEntries xs [] = xs := rfl

@[simp] lemma setEntries_cons (xs : List α) (e : ℕ × α) (entries : List (ℕ × α)) :
    setEntries xs (e :: entries) = setEntries (xs.set e.1 e.2) entries := rfl

@[simp] lemma length_setEntries (xs : List α) (entries : List (ℕ × α)) :
    (setEntries xs entries).length = xs.length := by
  induction entries generalizing xs with
  | nil => rfl
  | cons e entries ih => rw [setEntries_cons, ih, length_set]

lemma mem_setEntries {y : α} (h : y ∈ setEntries xs entries) : y ∈ xs ∨ ∃ e ∈ entries, e.2 = y := by
  induction entries generalizing xs with
  | nil => exact .inl h
  | cons e entries ih =>
    rcases ih h with h' | ⟨e', he', rfl⟩
    · rcases mem_or_eq_of_mem_set h' with h'' | rfl
      · exact .inl h''
      · exact .inr ⟨e, mem_cons_self, rfl⟩
    · exact .inr ⟨e', mem_cons_of_mem _ he', rfl⟩

lemma getElem?_setEntries_of_notMem {s : ℕ} (h : s ∉ entries.map Prod.fst) :
    (setEntries xs entries)[s]? = xs[s]? := by
  induction entries generalizing xs with
  | nil => rfl
  | cons e entries ih =>
    rw [map_cons, mem_cons, not_or] at h
    rw [setEntries_cons, ih h.2, getElem?_set_ne (Ne.symm h.1)]

lemma getElem?_setEntries_of_mem {e : ℕ × α} (hnodup : (entries.map Prod.fst).Nodup) (he : e ∈ entries)
    (hlt : e.1 < xs.length) : (setEntries xs entries)[e.1]? = some e.2 := by
  induction entries generalizing xs with
  | nil => cases he
  | cons e' entries ih =>
    rw [map_cons, nodup_cons] at hnodup
    rw [setEntries_cons]
    rcases mem_cons.1 he with rfl | he
    · rw [getElem?_setEntries_of_notMem hnodup.1, getElem?_set_self hlt]
    · exact ih hnodup.2 he (by simpa using hlt)

end SetEntries

lemma getElem?_mask_setEntries {entries : List (ℕ × ℕ)} (hne : ∀ e ∈ entries, e.2 ≠ 0) (lens : List ℕ) (s : ℕ) :
    (mask (setEntries lens entries))[s]? = (mask lens)[s]?.map (· || decide (s ∈ entries.map Prod.fst)) := by
  induction entries generalizing lens with
  | nil => simp [setEntries]
  | cons e entries ih =>
    simp only [forall_mem_cons] at hne
    rw [setEntries_cons, ih hne.2]
    simp only [mask, map_cons, mem_cons]
    by_cases hs : e.1 = s
    · subst hs
      by_cases hlt : e.1 < lens.length
      · simp [hlt, hne.1]
      · simp [hlt]
    · simp [hs, Ne.symm hs]

/-- What `build_lengths_ex` promises: exactly the used symbols have a length, and if there are at
least two of them the code space is full. -/
structure IsLengths (freq : List ℕ) (maxBits : ℕ) (lens : List ℕ) : Prop where
  mask : mask lens = Brotli.mask freq
  le : ∀ l ∈ lens, l ≤ maxBits
  kraft : 2 ≤ countUsed freq → PrefixCode.kraft maxBits lens = 2 ^ maxBits

lemma mask_setEntries_used (entries : List (ℕ × ℕ)) (hne : ∀ e ∈ entries, e.2 ≠ 0)
    (hkeys : (entries.map Prod.fst).Perm (usedSymbols freq)) :
    mask (setEntries (replicate freq.length 0) entries) = mask freq := by
  refine ext_getElem? fun s => ?_
  rw [getElem?_mask_setEntries hne]
  simp only [mask, hkeys.mem_iff, mem_usedSymbols]
  by_cases hs : s < freq.length
  · by_cases hf : freq[s] = 0 <;> simp [hs, hf]
  · simp [hs]

lemma leafDepths_bounds (nf : List ℕ) (hbits : 1 ≤ maxBits) (hn : 2 ≤ nf.length) :
    ∀ d ∈ leafDepths maxBits nf, d ≠ 0 ∧ d ≤ maxBits := by
  intro d hd
  obtain ⟨i, hi, rfl⟩ := mem_map.1 hd
  have hpos := Forest.depth_pos hn (mem_range.1 hi) (2 * nf.length - 1)
  rw [Nat.sub_add_cancel (by omega)] at hpos
  omega

theorem buildLengthsEx_spec (hbits : 1 ≤ maxBits)
    (hmax : countUsed freq ≤ 2 ^ maxBits) (hfew : countUsed freq ≤ 1024) :
    IsLengths freq maxBits (buildLengthsEx freq maxBits) := by
  have hlen := length_usedSymbols freq
  simp only [buildLengthsEx]
  split_ifs with h0 h1 h2
  · refine ⟨?_, by simp, fun h => by omega⟩
    have hnil := length_eq_zero_iff.1 h0
    exact mask_setEntries_used [] (by simp) (by simp [hnil])
  · obtain ⟨s, hs⟩ := length_eq_one_iff.1 h1
    refine ⟨?_, ?_, fun h => by omega⟩
    · rw [hs]
      exact mask_setEntries_used [(s, 1)] (by simp) (by simp [hs])
    · intro l hl
      rcases mem_or_eq_of_mem_set hl with h | rfl
      · simp [eq_of_mem_replicate h]
      · exact hbits
  · omega
  · have hperm := perm_sortByFreq freq (usedSymbols freq)
    have hn := hperm.length_eq
    generalize sortByFreq freq (usedSymbols freq) = sorted at hperm hn
    have hbounds := leafDepths_bounds (sorted.map fun s => freq.getD s 0) hbits (by simp; omega)
    have hdepths : (leafDepths maxBits (sorted.map fun s => freq.getD s 0)).length = sorted.length := by
      simp [leafDepths]
    generalize leafDepths maxBits (sorted.map fun s => freq.getD s 0) = depths at hbounds hdepths
    have hkeys : (sorted.zip depths).map Prod.fst = sorted := map_fst_zip hdepths.ge
    have hmask := mask_setEntries_used _ (fun e he => (hbounds _ (of_mem_zip he).2).1) (hkeys ▸ hperm)
    have hcount := count_mask freq
    rw [← hmask] at hcount
    have hle : ∀ y ∈ setEntries (replicate freq.length 0) (sorted.zip depths), y ≤ maxBits := by
      intro y hy
      rcases mem_setEntries hy with h | ⟨e, he, rfl⟩
      · simp [eq_of_mem_replicate h]
      · exact (hbounds _ (of_mem_zip he).2).2
    obtain ⟨hmask', hle', hkraft⟩ := adjust_filled 48 hbits hle (by omega) (by omega)
    exact ⟨hmask'.trans hmask, hle', fun _ => hkraft⟩

end Brotli
