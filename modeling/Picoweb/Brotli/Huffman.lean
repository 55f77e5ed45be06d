import Picoweb.Brotli.Bitstream
import Picoweb.Brotli.Lengths

/-!
# Writing and reading symbols

Encoder and decoder derive the same canonical codes from the lengths. The encoder writes a code most
significant bit first; the decoder stores it reversed and compares it with the bits read so far after
each bit.
-/

namespace Brotli

open Bits PrefixCode Option

/-! ### Codes -/

/-- `hcode_t` -/
structure HCode where
  code : ℕ
  len : ℕ
  deriving DecidableEq, Repr

/-- `bl_count`: symbols without a length are not counted. -/
def blCount (lens : List ℕ) (b : ℕ) : ℕ := if b = 0 then 0 else lens.count b

/-- The table `next` of `assign_codes` and `hdec_build`, in `uint16_t` arithmetic. -/
def nextCode (lens : List ℕ) : ℕ → ℕ
  | 0 => 0
  | b + 1 => ((nextCode lens b + blCount lens b) <<< 1) % 2 ^ 16

/-- The second loop of `assign_codes`. -/
def assignFrom (next : ℕ → ℕ) : List ℕ → List HCode
  | [] => []
  | l :: lens =>
    if l = 0 then ⟨0, 0⟩ :: assignFrom next lens
    else ⟨next l, l⟩ :: assignFrom (Function.update next l ((next l + 1) % 2 ^ 16)) lens

def assignCodes (lens : List ℕ) : List HCode := assignFrom (nextCode lens) lens

/-- The code that `bw_huff` puts: the bits of the code in reverse. -/
def bwHuff (c : HCode) : Put :=
  ((List.range c.len).foldl (fun rev i => rev ||| (c.code >>> i &&& 1) <<< (c.len - 1 - i)) 0, c.len)

/-- The loop of `bit_reverse`. -/
def bitReverseFrom : ℕ → ℕ → ℕ → ℕ
  | 0, _, r => r
  | n + 1, v, r => bitReverseFrom n (v >>> 1) ((r <<< 1 ||| v &&& 1) % 2 ^ 16)

def bitReverse (v n : ℕ) : ℕ := bitReverseFrom n v 0

/-- `hdec_t`: the reversed code and the length of each symbol. -/
structure Hdec where
  table : List HCode
  singleSymbol : Option ℕ
  deriving DecidableEq, Repr

def HCode.reversed (c : HCode) : HCode := ⟨bitReverse c.code c.len, c.len⟩

def hdecBuild (lens : List ℕ) : Option Hdec :=
  if lens.any (15 < ·) then none
  else some { table := (assignCodes lens).map HCode.reversed, singleSymbol := none }

/-- The loop of `hdec_symbol`: one more bit, then a search through the symbols. -/
def hdecLoop (table : List HCode) : ℕ → ℕ → ℕ → Reader ℕ
  | 0, _, _ => failure
  | fuel + 1, len, code => do
    let bit ← brRead 1
    let code := code ||| bit <<< (len - 1)
    match table.findIdx? fun e => e.len == len && e.code == code with
    | some s => pure s
    | none => hdecLoop table fuel (len + 1) code

def hdecSymbol (h : Hdec) : Reader ℕ :=
  match h.singleSymbol with
  | some s => pure s
  | none => hdecLoop h.table 15 1 0

lemma getElem?_assignFrom (next : ℕ → ℕ) (hnext : ∀ l, next l < 2 ^ 16) (lens : List ℕ) (s : ℕ) :
    (assignFrom next lens)[s]? = lens[s]?.map fun l =>
      if l = 0 then ⟨0, 0⟩ else ⟨(next l + (lens.take s).count l) % 2 ^ 16, l⟩ := by
  induction lens generalizing next s with
  | nil => simp [assignFrom]
  | cons x lens ih =>
    rw [assignFrom]
    split_ifs with hx
    · cases s with
      | zero => simp [hx]
      | succ s =>
        rw [List.getElem?_cons_succ, ih next hnext]
        refine map_congr fun l _ => ?_
        by_cases hl : l = 0
        · simp [hl]
        · simp [hx, Ne.symm hl]
    · cases s with
      | zero => simpa [hx] using (Nat.mod_eq_of_lt (hnext x)).symm
      | succ s =>
        rw [List.getElem?_cons_succ, ih]
        · refine map_congr fun l _ => ?_
          by_cases hl : l = x
          · subst hl
            simp only [Function.update_self, List.take_succ_cons, List.count_cons_self]
            congr 2
            omega
          · simp [Function.update_of_ne hl, Ne.symm hl]
        · intro l
          by_cases hl : l = x
          · simpa [hl] using Nat.mod_lt _ (by norm_num)
          · simpa [Function.update_of_ne hl] using hnext l

lemma nextCode_lt (lens : List ℕ) (b : ℕ) : nextCode lens b < 2 ^ 16 := by
  cases b with
  | zero => simp [nextCode]
  | succ b => exact Nat.mod_lt _ (by norm_num)

section Canonical

variable {lens : List ℕ} (hkraft : kraft 15 lens ≤ 2 ^ 15) (hle : ∀ l ∈ lens, l ≤ 15)

include hkraft

lemma nextCode_eq {b : ℕ} (hb : b ≤ 15) : nextCode lens b = firstCode lens b := by
  induction b with
  | zero => rfl
  | succ b ih =>
    have hbound := firstCode_le hkraft hb
    have hpow : 2 ^ (b + 1) ≤ 2 ^ 15 := Nat.pow_le_pow_right (by norm_num) hb
    have hfirst : firstCode lens (b + 1) = (firstCode lens b + blCount lens b) <<< 1 := by
      rw [firstCode, blCount, Nat.shiftLeft_eq, mul_comm]
    rw [nextCode, ih (by omega), ← hfirst, Nat.mod_eq_of_lt (by omega)]

include hle

lemma getElem?_assignCodes {s l : ℕ} (hs : lens[s]? = some l) (hl : l ≠ 0) :
    (assignCodes lens)[s]? = some ⟨code lens l s, l⟩ := by
  have hl15 := hle l (List.mem_of_getElem? hs)
  have hlt := code_lt hkraft hs hl hl15
  have hpow : 2 ^ l ≤ 2 ^ 15 := Nat.pow_le_pow_right (by norm_num) hl15
  rw [assignCodes, getElem?_assignFrom _ (nextCode_lt lens), hs, map_some, if_neg hl,
    nextCode_eq hkraft hl15, ← code, Nat.mod_eq_of_lt (by omega)]

end Canonical

/-! ### Complete codes -/

section CompleteCode

variable {freq : List ℕ} {maxBits : ℕ}

lemma len_assignCodes {lens : List ℕ} {s : ℕ} {c : HCode} (hc : (assignCodes lens)[s]? = some c) :
    lens[s]? = some c.len := by
  rw [assignCodes, getElem?_assignFrom _ (nextCode_lt lens)] at hc
  obtain ⟨l, hl, rfl⟩ := map_eq_some_iff.1 hc
  rw [hl]
  split_ifs with h0
  · rw [h0]
  · rfl

end CompleteCode

/-! ### Reversed codes -/

lemma lsb_succ (n v : ℕ) : lsb (n + 1) v = lsb n v ++ [v.testBit n] := by
  rw [lsb_add, lsb, lsb, Nat.testBit_eq_decide_div_mod_eq, beq_eq_decide]

lemma and_one_eq (v i : ℕ) : v >>> i &&& 1 = (v.testBit i).toNat := by
  rw [Nat.testBit]
  rcases Nat.mod_two_eq_zero_or_one (v >>> i) with h | h <;> simp [h]

/-- `bw_huff` fills the word from its top. -/
lemma foldl_rev {len : ℕ} (code : ℕ) {k : ℕ} (hk : k ≤ len) :
    (List.range k).foldl (fun rev i => rev ||| (code >>> i &&& 1) <<< (len - 1 - i)) 0 =
      value (lsb k code).reverse <<< (len - k) := by
  induction k with
  | zero => simp [lsb, value]
  | succ k ih =>
    have hbit : (code.testBit k).toNat <<< (len - 1 - k) < 2 ^ (len - k) := by
      have hle := Bool.toNat_le (code.testBit k)
      rw [show len - k = len - 1 - k + 1 by omega, Nat.shiftLeft_eq, mul_comm]
      exact lt_of_le_of_lt (Nat.mul_le_mul_left _ hle) (by have := Nat.two_pow_pos (len - 1 - k); omega)
    rw [List.range_succ, List.foldl_append, ih (by omega), List.foldl_cons, List.foldl_nil, and_one_eq,
      lsb_succ, List.reverse_append, List.reverse_singleton, List.singleton_append, value,
      ← Nat.shiftLeft_add_eq_or_of_lt hbit]
    simp only [Nat.shiftLeft_eq]
    rw [show len - k = len - (k + 1) + 1 by omega, show len - 1 - k = len - (k + 1) by omega]
    ring

lemma bwHuff_eq (c : HCode) : bwHuff c = (value (lsb c.len c.code).reverse, c.len) := by
  rw [bwHuff, foldl_rev c.code le_rfl, Nat.sub_self, Nat.shiftLeft_zero]

lemma bits_bwHuff (c : HCode) : lsb (bwHuff c).2 (bwHuff c).1 = (lsb c.len c.code).reverse := by
  have h := lsb_value (lsb c.len c.code).reverse
  rw [List.length_reverse, length_lsb] at h
  rw [bwHuff_eq, h]

lemma bwHuff_lt (c : HCode) : (bwHuff c).1 < 2 ^ (bwHuff c).2 := by
  simpa [bwHuff_eq] using value_lt (lsb c.len c.code).reverse

lemma bitReverseFrom_eq (n v : ℕ) {k r : ℕ} (hr : r < 2 ^ k) (hk : k + n ≤ 16) :
    bitReverseFrom n v r = 2 ^ n * r + value (lsb n v).reverse := by
  induction n generalizing v k r with
  | zero => simp [bitReverseFrom, lsb, value]
  | succ n ih =>
    have hbit : v &&& 1 = (v % 2 == 1).toNat := by
      rcases Nat.mod_two_eq_zero_or_one v with h | h <;> simp [h]
    have hle := Bool.toNat_le (v % 2 == 1)
    have hpow : 2 ^ (k + 1) ≤ 2 ^ 16 := Nat.pow_le_pow_right (by norm_num) (by omega)
    have hnext : r <<< 1 ||| v &&& 1 = 2 * r + (v % 2 == 1).toNat := by
      rw [hbit, ← Nat.shiftLeft_add_eq_or_of_lt (by omega), Nat.shiftLeft_eq, mul_comm]
    have hlt : 2 * r + (v % 2 == 1).toNat < 2 ^ (k + 1) := by
      omega
    rw [bitReverseFrom, hnext, Nat.mod_eq_of_lt (by omega), ih _ hlt (by omega), lsb,
      List.reverse_cons, value_append, Nat.shiftRight_one, List.length_reverse, length_lsb]
    simp only [value]
    ring

lemma bitReverse_eq (v : ℕ) {n : ℕ} (hn : n ≤ 16) : bitReverse v n = value (lsb n v).reverse := by
  rw [bitReverse, bitReverseFrom_eq n v (k := 0) (by simp) (by omega)]
  omega

/-! ### Reading a symbol -/

/-- The bits that a table entry stands for. -/
def HCode.word (e : HCode) : List Bool := lsb e.len e.code

/-- The search goes bit by bit: no entry matches before the whole word is read, and then only the
entry of `s` does. -/
lemma reads_hdecLoop {table : List HCode} {s : ℕ} {word : List Bool} (hs : table[s]? = some ⟨value word, word.length⟩)
    (huniq : ∀ s' e, table[s']? = some e → e.len ≠ 0 → e.word <+: word → s' = s) :
    ∀ (rest past : List Bool) (fuel : ℕ), word = past ++ rest → rest ≠ [] → rest.length ≤ fuel →
      Reads (hdecLoop table fuel (past.length + 1) (value past)) rest s := by
  intro rest
  induction rest with
  | nil => exact fun _ _ _ h => absurd rfl h
  | cons b rest ih =>
    intro past fuel hword _ hfuel
    obtain ⟨fuel, rfl⟩ : ∃ n, fuel = n + 1 := ⟨fuel - 1, by simp at hfuel; omega⟩
    have hcode : value past ||| b.toNat <<< past.length = value (past ++ [b]) := by
      rw [or_shiftLeft _ (value_lt past), value_append]
      simp [value]
    have hbit : Reads (brRead 1) [b] b.toNat := by
      have := reads_brRead (n := 1) (v := b.toNat) (by cases b <;> simp)
      cases b <;> simpa [lsb] using this
    -- an entry that matches now is the entry of `s`
    have hmatch : ∀ s' e, table[s']? = some e →
        (e.len == past.length + 1 && e.code == value (past ++ [b])) = true → s' = s := by
      intro s' e he hm
      simp only [Bool.and_eq_true, beq_iff_eq] at hm
      refine huniq s' e he (by omega) ?_
      have hw : e.word = past ++ [b] := by
        have h := lsb_value (past ++ [b])
        rwa [List.length_append, List.length_singleton, ← hm.1, ← hm.2] at h
      rw [hw, hword]
      exact ⟨rest, by simp⟩
    refine hbit.bind ?_
    simp only [Nat.add_sub_cancel, hcode]
    cases rest with
    | nil =>
      have hfound : table.findIdx? (fun e => e.len == past.length + 1 && e.code == value (past ++ [b])) = some s := by
        obtain ⟨hlt, hget⟩ := List.getElem?_eq_some_iff.1 hs
        refine List.findIdx?_eq_some_iff_getElem.2 ⟨hlt, by simp [hget, hword], fun j hj hm => ?_⟩
        have := hmatch j _ (List.getElem?_eq_getElem (by omega)) hm
        omega
      rw [hfound]
      exact Reads.pure s
    | cons b' rest =>
      have hnone : table.findIdx? (fun e => e.len == past.length + 1 && e.code == value (past ++ [b])) = none := by
        refine List.findIdx?_eq_none_iff.2 fun e he => ?_
        by_contra hm
        obtain ⟨s', hs'⟩ := List.mem_iff_getElem?.1 he
        have hm' := Bool.eq_true_of_not_eq_false hm
        obtain rfl := hmatch s' e hs' hm'
        obtain rfl := some.inj (hs.symm.trans hs')
        simp [hword] at hm'
      rw [hnone]
      have hnext := ih (past ++ [b]) fuel (by simp [hword]) (by simp) (by simp at hfuel ⊢; omega)
      simpa using hnext

lemma hdecBuild_eq {lens : List ℕ} (hle : ∀ l ∈ lens, l ≤ 15) :
    hdecBuild lens = some ⟨(assignCodes lens).map HCode.reversed, none⟩ := by
  have hany : lens.any (15 < ·) = false := by
    simpa using hle
  rw [hdecBuild, hany, if_neg Bool.false_ne_true]

/-- The decoder's table reads the canonical word of every symbol that has one. -/
theorem reads_hdecSymbol {lens : List ℕ} (hkraft : kraft 15 lens ≤ 2 ^ 15) (hle : ∀ l ∈ lens, l ≤ 15)
    {h : Hdec} (hbuild : hdecBuild lens = some h) {s l : ℕ} (hs : lens[s]? = some l) (hl : l ≠ 0) :
    Reads (hdecSymbol h) (word lens l s) s := by
  obtain rfl := some.inj ((hdecBuild_eq hle).symm.trans hbuild)
  have hentry : ∀ s' l', lens[s']? = some l' → l' ≠ 0 → ((assignCodes lens).map HCode.reversed)[s']? =
        some (HCode.mk (value (word lens l' s')) (word lens l' s').length) := by
    intro s' l' hs' hl'
    have hl15 := hle l' (List.mem_of_getElem? hs')
    rw [List.getElem?_map, getElem?_assignCodes hkraft hle hs' hl', map_some,
      HCode.reversed, bitReverse_eq _ (hl15.trans (by norm_num)), word, List.length_reverse, length_lsb]
  have hl15 := hle l (List.mem_of_getElem? hs)
  have hne : word lens l s ≠ [] := fun hnil => hl (by simpa [word] using congrArg List.length hnil)
  refine reads_hdecLoop (hentry s l hs hl) ?_ _ [] 15 rfl hne (by simpa [word] using hl15)
  intro s' e he hlen hpre
  obtain ⟨c, hc, rfl⟩ : ∃ c, (assignCodes lens)[s']? = some c ∧ c.reversed = e := by
    rwa [List.getElem?_map, map_eq_some_iff] at he
  have hs' := len_assignCodes hc
  rw [hentry s' _ hs' hlen] at he
  have hword := some.inj he
  rw [← hword, HCode.word, lsb_value] at hpre
  exact word_prefix_free hkraft hle hs' hs hlen hl hpre

end Brotli
