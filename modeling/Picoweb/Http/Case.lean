import Picoweb.Http.Parse
import Picoweb.Lib.Blockwise

/-!
# Comparing without case

`metal_ieq` compares names of six lengths word by word with bit 5 of every byte set. That confuses bytes
other than letters, too. `metal_lower_simd` lowers sixteen bytes at once, and letters only.
-/

namespace Http

open ByteFile ByteText Blockwise List

/-! ### Word by word -/

/-- The lengths with a fast path, and where their words start and how many bytes they have. -/
def fastWords : List (ℕ × List (ℕ × ℕ)) :=
  [(4, [(0, 4)]), (10, [(0, 8), (8, 2)]), (13, [(0, 8), (8, 4), (12, 1)]), (14, [(0, 8), (8, 4), (12, 2)]),
    (15, [(0, 8), (7, 8)]), (17, [(0, 8), (8, 8), (16, 1)])]

def foldedWord (s : Bytes) (w : ℕ × ℕ) : Bytes := ((s.drop w.1).take w.2).map (· ||| 0x20)

/-- `metal_ieq` with the words that it loads. -/
def metalIeqWords (a b : Bytes) : Bool :=
  if a.length ≠ b.length then false
  else
    match fastWords.find? (·.1 = a.length) with
    | some e => e.2.all fun w => foldedWord a w = foldedWord b w
    | none => a.map lower = b.map lower

/-- Words that cover two names of one length are equal where the names are. -/
lemma words_eq_iff {a b : Bytes} {words : List (ℕ × ℕ)} (hlen : a.length = b.length)
    (hcover : ∀ i < a.length, ∃ w ∈ words, w.1 ≤ i ∧ i < w.1 + w.2) :
    (∀ w ∈ words, foldedWord a w = foldedWord b w) ↔ a.map (· ||| 0x20) = b.map (· ||| 0x20) := by
  constructor
  · intro h
    refine ext_getElem? fun i => ?_
    by_cases hi : i < a.length
    · obtain ⟨w, hw, hle, hlt⟩ := hcover i hi
      simpa [foldedWord, show i - w.1 < w.2 by omega, Nat.add_sub_cancel' hle] using
        congrArg (·[i - w.1]?) (h w hw)
    · simp [hi, hlen ▸ hi]
  · intro h w _
    simp only [foldedWord, map_take, map_drop, h]

lemma metalIeq_eq_true_iff {a b : Bytes} : metalIeq a b = true ↔
    if a.length ∈ [4, 10, 13, 14, 15, 17] then a.map (· ||| 0x20) = b.map (· ||| 0x20) else EqIgnoreCase a b := by
  have hlength {f : UInt8 → UInt8} (h : a.map f = b.map f) : a.length = b.length := by
    simpa using congrArg List.length h
  rw [metalIeq, EqIgnoreCase]
  split_ifs with hlen hfast hfast
  · simpa using fun h => hlen (hlength h)
  · simpa using fun h => hlen (hlength h)
  · exact decide_eq_true_iff
  · exact decide_eq_true_iff

/-- The words of the fast paths cover the name. -/
lemma metalIeqWords_eq (a b : Bytes) : metalIeqWords a b = metalIeq a b := by
  have hcover : ∀ e ∈ fastWords, ∀ i < e.1, ∃ w ∈ e.2, w.1 ≤ i ∧ i < w.1 + w.2 := by decide
  rw [metalIeqWords, metalIeq]
  split_ifs with hlen hfast
  · rfl
  · obtain ⟨e, he, heq⟩ : ∃ e ∈ fastWords, e.1 = a.length := mem_map.1 hfast
    cases hfind : fastWords.find? (·.1 = a.length) with
    | none => simpa [heq] using find?_eq_none.1 hfind e he
    | some e' =>
      have hlength : e'.1 = a.length := by simpa using find?_some hfind
      have hall := hlength ▸ hcover e' (mem_of_find?_eq_some hfind)
      rw [Bool.eq_iff_iff, all_eq_true, decide_eq_true_eq, ← words_eq_iff (not_not.1 hlen) hall]
      simp only [decide_eq_true_eq]
  · have hnone : fastWords.find? (·.1 = a.length) = none := by
      refine find?_eq_none.2 fun e he heq => hfast ?_
      exact of_decide_eq_true heq ▸ mem_map_of_mem he
    rw [hnone]

/-! ### Which names are confused -/

def isLetter (b : UInt8) : Bool := 97 ≤ b ||| 0x20 && b ||| 0x20 ≤ 122

lemma lower_eq_ite : ∀ b, lower b = if isLetter b then b ||| 0x20 else b :=
  forall_byte (by decide +kernel)

/-- Two names of a fast length that differ in bit 5 only, and that at a byte which is not a letter. -/
def Confused (a b : Bytes) : Prop :=
  a.length ∈ fastWords.map Prod.fst ∧ a.map (· ||| 0x20) = b.map (· ||| 0x20) ∧
    ∃ p ∈ a.zip b, p.1 ≠ p.2 ∧ isLetter p.1 = false

lemma lower_eq_iff {x y : UInt8} (h : x ||| 0x20 = y ||| 0x20) : lower x = lower y ↔ x = y ∨ isLetter x = true := by
  have hletter : isLetter x = isLetter y := by rw [isLetter, isLetter, h]
  rw [lower_eq_ite, lower_eq_ite, ← hletter]
  split_ifs with hx
  · simp [h, hx]
  · simp [hx]

lemma map_lower_eq_iff {a b : Bytes} (h : a.map (· ||| 0x20) = b.map (· ||| 0x20)) :
    a.map lower = b.map lower ↔ ∀ p ∈ a.zip b, p.1 = p.2 ∨ isLetter p.1 = true := by
  induction a generalizing b with
  | nil => simp [map_eq_nil_iff.1 h.symm]
  | cons x a ih =>
    cases b with
    | nil => simp at h
    | cons y b =>
      obtain ⟨hxy, hrest⟩ := List.cons.inj h
      rw [zip_cons_cons, forall_mem_cons, ← ih hrest, map_cons, map_cons, List.cons.injEq, lower_eq_iff hxy]

lemma map_or_of_map_lower {a b : Bytes} (h : a.map lower = b.map lower) :
    a.map (· ||| 0x20) = b.map (· ||| 0x20) := by
  have hlower : (· ||| 0x20) ∘ lower = fun b : UInt8 => b ||| 0x20 := by
    funext b
    rw [Function.comp_apply, lower_eq_ite]
    split
    · rw [UInt8.or_assoc, UInt8.or_self]
    · rfl
  rw [← hlower, ← map_map, h, map_map]

/-! ### Sixteen bytes at once -/

/-- A lane of the SSE2 loop, whose comparisons are signed. -/
def sseLane (v : UInt8) : UInt8 :=
  let gtA : UInt8 := if 64 < v.toInt8 then 0xff else 0
  let gtZ : UInt8 := if 90 < v.toInt8 then 0xff else 0
  v + ((gtA &&& (gtZ ^^^ 0xff)) &&& 0x20)

def neonLane (v : UInt8) : UInt8 :=
  let gtA : UInt8 := if 64 < v then 0xff else 0
  let ltZ : UInt8 := if v < 91 then 0xff else 0
  v + ((gtA &&& ltZ) &&& 0x20)

def metalLowerSimd (lane : UInt8 → UInt8) (s : Bytes) : Bytes :=
  let fed := feed 16 (fun out block => out ++ block.map lane) [] s
  fed.1 ++ fed.2.map fun c => if 65 ≤ c && c ≤ 90 then c ||| 0x20 else c

lemma lanes_eq : ∀ b, sseLane b = lower b ∧ neonLane b = lower b ∧
    (if 65 ≤ b && b ≤ 90 then b ||| 0x20 else b) = lower b :=
  forall_byte (by decide +kernel)

lemma feed_map (f : UInt8 → UInt8) (out s : Bytes) :
    (feed 16 (fun out block => out ++ block.map f) out s).1 ++
      (feed 16 (fun out block => out ++ block.map f) out s).2.map f = out ++ s.map f := by
  induction hn : s.length using Nat.strong_induction_on generalizing out s with
  | _ n ih =>
    by_cases hlt : s.length < 16
    · rw [feed_of_lt hlt]
    · rw [feed_of_le (by decide) (by omega), ih _ (by rw [length_drop]; omega) _ _ rfl, append_assoc, ← map_append,
        take_append_drop]

lemma metalLowerSimd_lower (s : Bytes) : metalLowerSimd lower s = s.map lower := by
  rw [metalLowerSimd, funext fun b => (lanes_eq b).2.2]
  exact feed_map lower [] s

/-- Names are compared without case unless they are confused, and `metal_lower_simd` lowers letters only. -/
theorem case_folding_exact_iff (a b s : Bytes) :
    ((metalIeqWords a b = true ↔ EqIgnoreCase a b) ↔ ¬ Confused a b) ∧
      metalLowerSimd sseLane s = s.map lower ∧ metalLowerSimd neonLane s = s.map lower := by
  refine ⟨?_, ?_⟩
  · rw [metalIeqWords_eq, metalIeq_eq_true_iff, EqIgnoreCase, Confused]
    by_cases hfast : a.length ∈ [4, 10, 13, 14, 15, 17]
    · by_cases hor : a.map (· ||| 0x20) = b.map (· ||| 0x20)
      · simp [hfast, hor, map_lower_eq_iff hor, fastWords, or_iff_not_imp_left]
      · simp [hor, mt map_or_of_map_lower hor]
    · simp [hfast, fastWords]
  · rw [funext fun b => (lanes_eq b).1, funext fun b => (lanes_eq b).2.1]
    exact ⟨metalLowerSimd_lower s, metalLowerSimd_lower s⟩

theorem case_folding_confuses_at_signs :
    metalIeqWords [64, 64, 64, 64] [96, 96, 96, 96] = true ∧ ¬ EqIgnoreCase [64, 64, 64, 64] [96, 96, 96, 96] := by
  decide +kernel

end Http
