import Picoweb.Lib.ByteFile
import Mathlib.Data.List.DropRight

/-!
# Text in byte strings

Cutting a byte string at the first occurrence of a byte or of a pattern, its lines and its segments,
blanks around a token, decimal numbers, and equality that ignores the case of ASCII letters.
-/

namespace ByteText

open ByteFile List

/-- The bytes of an ASCII literal. -/
def ascii (s : String) : Bytes := s.toList.map fun c => UInt8.ofNat c.toNat

abbrev cr : UInt8 := 13
abbrev lf : UInt8 := 10
abbrev sp : UInt8 := 32
abbrev tab : UInt8 := 9

/-! ### Cutting -/

section Cut

variable {α : Type*} [DecidableEq α] {c : α}

/-- The parts before and after the first `c`, if there is one. -/
def cut (c : α) : List α → Option (List α × List α)
  | [] => none
  | b :: bs => if b = c then some ([], bs) else (cut c bs).map fun p => (b :: p.1, p.2)

lemma cut_append {u : List α} (hu : c ∉ u) (v : List α) : cut c (u ++ c :: v) = some (u, v) := by
  induction u with
  | nil => simp [cut]
  | cons b u ih =>
    rw [mem_cons, not_or] at hu
    simp [cut, Ne.symm hu.1, ih hu.2]

lemma eq_of_cut {l u v : List α} (h : cut c l = some (u, v)) : l = u ++ c :: v ∧ c ∉ u := by
  induction l generalizing u with
  | nil => simp [cut] at h
  | cons b l ih =>
    rw [cut] at h
    split_ifs at h with hb
    · obtain ⟨rfl, rfl⟩ : [] = u ∧ l = v := by simpa using h
      simp [hb]
    · obtain ⟨⟨u', v'⟩, hc, he⟩ := Option.map_eq_some_iff.1 h
      obtain ⟨rfl, rfl⟩ : b :: u' = u ∧ v' = v := by simpa using he
      obtain ⟨rfl, hu⟩ := ih hc
      exact ⟨rfl, by simp [Ne.symm hb, hu]⟩

lemma cut_eq_none {l : List α} : cut c l = none ↔ c ∉ l := by
  induction l with
  | nil => simp [cut]
  | cons b l ih =>
    rw [cut]
    split_ifs with hb
    · simp [hb]
    · simp [ih, Ne.symm hb]

end Cut

/-- `memmem`: where `pat` first stands in the string. -/
def memmem (pat : Bytes) : Bytes → Option ℕ
  | [] => if pat = [] then some 0 else none
  | b :: bs => if pat <+: b :: bs then some 0 else (memmem pat bs).map (· + 1)

lemma prefix_drop_of_memmem {pat l : Bytes} {n : ℕ} (h : memmem pat l = some n) : pat <+: l.drop n := by
  induction l generalizing n with
  | nil =>
    rw [memmem] at h
    split_ifs at h with hp
    simp [hp]
  | cons b l ih =>
    rw [memmem] at h
    split_ifs at h with hp
    · obtain rfl : 0 = n := by simpa using h
      exact hp
    · obtain ⟨m, hm, rfl⟩ := Option.map_eq_some_iff.1 h
      simpa using ih hm

/-! ### Segments -/

section Segment

variable {α : Type*} {c : α} {s l : List α}

/-- `s` stands in `l` between two separators `c`, or between one and an end of `l`. -/
def Segment (c : α) (l s : List α) : Prop :=
  c ∉ s ∧ ∃ u v, l = u ++ s ++ v ∧ (u = [] ∨ ∃ u', u = u' ++ [c]) ∧ (v = [] ∨ ∃ v', v = c :: v')

end Segment

/-- The lines of a text, cut at each CR LF; `line` is the line begun so far. -/
def crlfLines : Bytes → Bytes → List Bytes
  | line, [] => if line = [] then [] else [line]
  | line, [b] => [line ++ [b]]
  | line, b :: b' :: rest =>
    if b = cr ∧ b' = lf then line :: crlfLines [] rest else crlfLines (line ++ [b]) (b' :: rest)

lemma crlfLines_append {u : Bytes} (hu : cr ∉ u) (line v : Bytes) :
    crlfLines line (u ++ cr :: lf :: v) = (line ++ u) :: crlfLines [] v := by
  induction u generalizing line with
  | nil => simp [crlfLines]
  | cons b u ih =>
    rw [mem_cons, not_or] at hu
    obtain ⟨b', r, hr⟩ : ∃ b' r, u ++ cr :: lf :: v = b' :: r := by
      cases u <;> simp
    have hb : ¬ (b = cr ∧ b' = lf) := fun h => hu.1 h.1.symm
    rw [cons_append, hr, crlfLines, if_neg hb, ← hr, ih hu.2]
    simp

/-! ### Tokens -/

lemma forall_byte {P : UInt8 → Prop} (h : ∀ n < 256, P (UInt8.ofNat n)) (b : UInt8) : P b := by
  simpa using h b.toNat b.toNat_lt

def isBlank (b : UInt8) : Bool := b = sp || b = tab

/-- The string without the blanks at its two ends. -/
def trimBlanks (s : Bytes) : Bytes := (s.dropWhile isBlank).rdropWhile isBlank

lemma trimBlanks_of_forall {s : Bytes} (h : ∀ b ∈ s, isBlank b = false) : trimBlanks s = s := by
  have hd : s.dropWhile isBlank = s := by
    cases s with
    | nil => rfl
    | cons b s => simp [h b mem_cons_self]
  rw [trimBlanks, hd, rdropWhile_eq_self_iff]
  intro hs
  simp [h _ (getLast_mem hs)]

def isDigit (b : UInt8) : Bool := 48 ≤ b && b ≤ 57

/-- The number a digit string stands for, most significant digit first. -/
def decimal (s : Bytes) : ℕ := s.foldl (fun n b => n * 10 + (b.toNat - 48)) 0

-- the bytes of the string are looked at, not all the bytes there are
local instance (priority := high) {p : UInt8 → Prop} [DecidablePred p] (s : Bytes) : Decidable (∀ b ∈ s, p b) :=
  decidableBAll ..

def decimalValue (s : Bytes) : Option ℕ :=
  if s ≠ [] ∧ ∀ b ∈ s, isDigit b = true then some (decimal s) else none

/-- The number of a string of digits behind the digits of `v`, unless it gets larger than `max`. -/
def parseDigits (max : ℕ) : ℕ → Bytes → Option ℕ
  | v, [] => some v
  | v, c :: s =>
    if !isDigit c then none
    else
      let v := v * 10 + (c.toNat - 48)
      if v > max then none else parseDigits max v s

def parseDec (s : Bytes) (max : ℕ) : Option ℕ := if s = [] then none else parseDigits max 0 s

lemma parseDigits_le {max v n : ℕ} {s : Bytes} (hv : v ≤ max) (h : parseDigits max v s = some n) : n ≤ max := by
  induction s generalizing v with
  | nil => exact (Option.some.inj h) ▸ hv
  | cons c s ih =>
    simp only [parseDigits] at h
    split at h
    · cases h
    · split at h
      · cases h
      · rename_i hmax
        exact ih (not_lt.mp hmax) h

lemma parseDec_le {max n : ℕ} {s : Bytes} (h : parseDec s max = some n) : n ≤ max := by
  rw [parseDec] at h
  split_ifs at h
  exact parseDigits_le (Nat.zero_le _) h

/-! ### Case -/

/-- ASCII letters in lower case, every other byte as it is. -/
def lower (b : UInt8) : UInt8 := if 65 ≤ b && b ≤ 90 then b + 32 else b

lemma lower_of_isBlank {b : UInt8} (h : isBlank b = true) : lower b = b := by
  simp only [isBlank, Bool.or_eq_true, decide_eq_true_eq] at h
  rcases h with rfl | rfl <;> decide

def EqIgnoreCase (a b : Bytes) : Prop := a.map lower = b.map lower
deriving Decidable

end ByteText
