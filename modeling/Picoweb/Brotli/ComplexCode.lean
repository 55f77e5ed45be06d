import Picoweb.Brotli.SimpleCode

/-!
# Complex prefix codes

With more than four symbols in use the lengths themselves are transmitted: as a sequence of
code-length symbols with runs of zeros packed, under a second prefix code of at most five bits whose
own lengths come first, in a fixed order and under a fixed code. The decoder knows where each part
ends because the code space is then full.
-/

namespace Brotli

open Bits PrefixCode List

/-! ### Encoder -/

def kCLOrder : List ℕ := [1, 2, 3, 4, 0, 5, 17, 6, 16, 7, 8, 9, 10, 11, 12, 13, 14, 15]

/-- `kCLCL_val` and `kCLCL_len`: the fixed code for the lengths 0 to 5. -/
def kCLCL : List HCode := [⟨0, 2⟩, ⟨7, 4⟩, ⟨3, 3⟩, ⟨2, 2⟩, ⟨1, 2⟩, ⟨15, 4⟩]

/-- The lengths up to the last nonzero one. -/
def trimZeros (lens : List ℕ) : List ℕ :=
  let kept := lens.rdropWhile (· = 0)
  if kept = [] then lens.take 1 else kept

/-- A run of zeros as code-length symbols with their extra values; two runs of symbol 17 are never
adjacent. -/
def rleZeros : ℕ → Bool → ℕ → List (ℕ × ℕ)
  | 0, _, _ => []
  | fuel + 1, prevWas17, run =>
    if run = 0 then []
    else if 3 ≤ run ∧ prevWas17 = false then
      (17, min run 10 - 3) :: rleZeros fuel true (run - min run 10)
    else (0, 0) :: rleZeros fuel false (run - 1)

/-- The code-length symbols of a list of lengths. -/
def rle : ℕ → List ℕ → List (ℕ × ℕ)
  | 0, _ => []
  | _ + 1, [] => []
  | fuel + 1, l :: lens =>
    if l = 0 then
      let run := ((l :: lens).takeWhile (· = 0)).length
      rleZeros run false run ++ rle fuel ((l :: lens).drop run)
    else (l, 0) :: rle fuel lens

def countSymbols (nsym : ℕ) (syms : List ℕ) : List ℕ :=
  syms.foldl (fun freq s => freq.modify s (· + 1)) (replicate nsym 0)

/-- A symbol that does not occur where only one does. -/
def dummySymbol (freq : List ℕ) : ℕ :=
  if freq.getD 0 0 = 0 then 0 else if freq.getD 1 0 = 0 then 1 else 2

/-- The frequencies of the code-length symbols, with a second symbol added if there is only one. -/
def clFreq (items : List (ℕ × ℕ)) : List ℕ :=
  let freq := countSymbols 18 (items.map Prod.fst)
  if countUsed freq = 1 then freq.set (dummySymbol freq) 1 else freq

/-- The length that is transmitted at place `i`. -/
def clAt (clLens : List ℕ) (i : ℕ) : ℕ := clLens.getD (kCLOrder.getD i 0) 0

/-- `num_cl`: how many lengths are transmitted, at least four. -/
def numCl (clLens : List ℕ) : ℕ → ℕ
  | 0 => 0
  | n + 1 => if 4 < n + 1 ∧ clAt clLens n = 0 then numCl clLens n else n + 1

/-- `hskip`: how many zeros at the start are left out. -/
def hskip (clLens : List ℕ) (num : ℕ) : ℕ :=
  if 3 < num ∧ clAt clLens 0 = 0 ∧ clAt clLens 1 = 0 then (if clAt clLens 2 = 0 then 3 else 2) else 0

/-- The entry of the fixed code for one length. -/
def clclPut (v : ℕ) : Put := ((kCLCL.getD v ⟨0, 0⟩).code, (kCLCL.getD v ⟨0, 0⟩).len)

/-- The lengths of the second code, as they are transmitted. -/
def clHeader (clLens : List ℕ) : List Put :=
  let num := numCl clLens 18
  let skip := hskip clLens num
  (range' skip (num - skip)).map fun i => clclPut (clAt clLens i)

def itemPuts (codes : List HCode) (item : ℕ × ℕ) : List Put :=
  bwHuff (codes.getD item.1 ⟨0, 0⟩) :: if item.1 = 17 then [(item.2, 3)] else []

def writeComplexCode (lens : List ℕ) : List Put :=
  let kept := trimZeros lens
  let items := rle kept.length kept
  let clLens := buildLengthsEx (clFreq items) 5
  (hskip clLens (numCl clLens 18), 2) :: clHeader clLens ++ items.flatMap (itemPuts (assignCodes clLens))

/-! ### Decoder -/

/-- `read_clcl_symbol`: the search of `hdec_symbol` over the fixed code. -/
def readClclSymbol : Reader ℕ := hdecLoop kCLCL 4 1 0

/-- The loop that reads the lengths of the second code. -/
def readClLens : ℕ → ℕ → List ℕ → ℕ → Reader (List ℕ)
  | 0, _, clLens, _ => pure clLens
  | fuel + 1, i, clLens, space => do
    let v ← readClclSymbol
    let clLens := clLens.set (kCLOrder.getD i 0) v
    let space := if v ≠ 0 then space + 1 <<< (5 - v) else space
    if 4 ≤ i + 1 ∧ space = 32 then pure clLens
    else if 32 < space then failure
    else readClLens fuel (i + 1) clLens space

/-- The loop that reads the lengths; `lens` holds those read so far. Every step adds at least one. -/
def readLens (clh : Hdec) (nsym : ℕ) : ℕ → List ℕ → ℕ → Reader (List ℕ × ℕ)
  | 0, _, _ => failure
  | fuel + 1, lens, codeSpace =>
    if lens.length < nsym ∧ codeSpace < 1 <<< 15 then do
      let sym ← hdecSymbol clh
      if sym = 17 then do
        let extra ← brRead 3
        let run := 3 + extra
        if nsym < lens.length + run then failure
        else readLens clh nsym fuel (lens ++ replicate run 0) codeSpace
      else if sym ≤ 15 then
        let codeSpace := if sym ≠ 0 then codeSpace + 1 <<< (15 - sym) else codeSpace
        if sym ≠ 0 ∧ 1 <<< 15 < codeSpace then failure
        else readLens clh nsym fuel (lens ++ [sym]) codeSpace
      else failure
    else pure (lens, codeSpace)

/-- The branch of `read_prefix_code` for complex codes. -/
def readComplexCode (nsym hskip : ℕ) : Reader Hdec := do
  let clLens ← readClLens (18 - hskip) hskip (replicate 18 0) 0
  let clh ← hdecBuild clLens
  let r ← readLens clh nsym (nsym + 1) [] 0
  if r.2 ≠ 1 <<< 15 then failure
  else hdecBuild (r.1 ++ replicate (nsym - r.1.length) 0)

/-! ### Packing the lengths -/

/-- The lengths that an item stands for. -/
def expandItem (item : ℕ × ℕ) : List ℕ :=
  if item.1 = 17 then replicate (3 + item.2) 0 else [item.1]

def ItemOk (item : ℕ × ℕ) : Prop := item.1 = 17 ∧ item.2 < 8 ∨ item.1 ≤ 15

lemma expandItem_ne_nil (item : ℕ × ℕ) : expandItem item ≠ [] := by
  rw [expandItem]
  split_ifs <;> simp

lemma length_le_expand (items : List (ℕ × ℕ)) : items.length ≤ (items.flatMap expandItem).length := by
  induction items with
  | nil => simp
  | cons item items ih =>
    have := length_pos_iff.2 (expandItem_ne_nil item)
    rw [flatMap_cons, length_append, length_cons]
    omega

lemma rleZeros_spec (fuel : ℕ) (prevWas17 : Bool) {run : ℕ} (hfuel : run ≤ fuel) :
    (rleZeros fuel prevWas17 run).flatMap expandItem = replicate run 0 ∧
      ∀ item ∈ rleZeros fuel prevWas17 run, ItemOk item := by
  induction fuel generalizing prevWas17 run with
  | zero =>
    obtain rfl : run = 0 := by omega
    simp [rleZeros]
  | succ fuel ih =>
    rw [rleZeros]
    split_ifs with h0 h17
    · simp [h0]
    · obtain ⟨hexp, hok⟩ := ih true (show run - min run 10 ≤ fuel by omega)
      refine ⟨?_, forall_mem_cons.2 ⟨.inl ⟨rfl, by simp only; omega⟩, hok⟩⟩
      rw [flatMap_cons, hexp, expandItem, if_pos rfl, ← replicate_add]
      congr 1
      omega
    · obtain ⟨hexp, hok⟩ := ih false (show run - 1 ≤ fuel by omega)
      refine ⟨?_, forall_mem_cons.2 ⟨.inr (by simp), hok⟩⟩
      rw [flatMap_cons, hexp, expandItem, if_neg (by simp), singleton_append,
        ← replicate_succ, Nat.sub_add_cancel (by omega)]

variable {lens freq : List ℕ}

lemma rle_spec (fuel : ℕ) (hfuel : lens.length ≤ fuel) (hle : ∀ l ∈ lens, l ≤ 15) :
    (rle fuel lens).flatMap expandItem = lens ∧ ∀ item ∈ rle fuel lens, ItemOk item := by
  induction fuel generalizing lens with
  | zero =>
    obtain rfl := length_eq_zero_iff.1 (Nat.le_zero.1 hfuel)
    simp [rle]
  | succ fuel ih =>
    cases lens with
    | nil => simp [rle]
    | cons l lens =>
      rw [rle]
      split_ifs with hl
      · -- the run of zeros at the front, then what follows it
        subst hl
        have hrun : 0 < ((0 :: lens).takeWhile (· = 0)).length := by simp
        have hzeros : (0 :: lens).takeWhile (· = 0) = replicate ((0 :: lens).takeWhile (· = 0)).length 0 :=
          eq_replicate_of_mem fun x hx => by simpa using mem_takeWhile_imp hx
        have hsplit := takeWhile_append_dropWhile (p := (· = 0)) (l := 0 :: lens)
        have hdrop := @drop_left _ ((0 :: lens).takeWhile (· = 0)) ((0 :: lens).dropWhile (· = 0))
        rw [hsplit] at hdrop
        obtain ⟨hexp, hok⟩ := rleZeros_spec ((0 :: lens).takeWhile (· = 0)).length false le_rfl
        have hshort : ((0 :: lens).drop ((0 :: lens).takeWhile (· = 0)).length).length ≤ fuel := by
          rw [length_drop]
          omega
        obtain ⟨hexp', hok'⟩ := ih hshort fun l hl => hle l (mem_of_mem_drop hl)
        refine ⟨?_, fun item hitem => ?_⟩
        · rw [flatMap_append, hexp, hexp', hdrop, ← hzeros, takeWhile_append_dropWhile]
        · exact (mem_append.1 hitem).elim (hok item) (hok' item)
      · simp only [forall_mem_cons] at hle
        simp only [length_cons] at hfuel
        obtain ⟨hexp, hok⟩ := ih (by omega) hle.2
        refine ⟨?_, forall_mem_cons.2 ⟨.inr hle.1, hok⟩⟩
        rw [flatMap_cons, hexp, expandItem, if_neg (by simp only; omega), singleton_append]

/-- A packed list ends in a nonzero length, as every rest of it does. -/
def EndsNonzero (lens : List ℕ) : Prop := ∀ l ∈ lens.getLast?, l ≠ 0

lemma EndsNonzero.of_append {as bs : List ℕ} (h : EndsNonzero (as ++ bs)) : EndsNonzero bs := by
  intro l hl
  refine h l ?_
  rw [getLast?_append, Option.mem_def.1 hl]
  rfl

lemma EndsNonzero.kraft_pos {top : ℕ} (h : EndsNonzero lens) (hne : lens ≠ []) : 0 < kraft top lens :=
  PrefixCode.kraft_pos (getLast_mem hne) (h _ (getLast?_eq_some_getLast hne))

/-- The lengths that the decoder adds at the end are the zeros that the encoder left out. -/
lemma trimZeros_spec {l : ℕ} (hl : l ∈ lens) (hne : l ≠ 0) : EndsNonzero (trimZeros lens) ∧ trimZeros lens ≠ [] ∧
      trimZeros lens ++ replicate (lens.length - (trimZeros lens).length) 0 = lens := by
  have hkept : lens.rdropWhile (· = 0) ≠ [] := by
    rw [Ne, rdropWhile_eq_nil_iff]
    exact fun h => hne (by simpa using h l hl)
  have hsplit := rdropWhile_append_rtakeWhile (p := (· = 0)) (l := lens)
  have hzeros : lens.rtakeWhile (· = 0) = replicate (lens.rtakeWhile (· = 0)).length 0 :=
    eq_replicate_of_mem fun x hx => by simpa using mem_rtakeWhile_imp hx
  simp only [trimZeros, if_neg hkept]
  refine ⟨fun x hx => ?_, hkept, ?_⟩
  · have hlast := rdropWhile_last_not (· = 0) lens hkept
    rw [getLast?_eq_some_getLast hkept, Option.mem_some_iff] at hx
    simpa [← hx] using hlast
  · have hlen := congrArg length hsplit
    rw [length_append] at hlen
    rw [← hlen, Nat.add_sub_cancel_left, ← hzeros, hsplit]

lemma reads_readLens {clh : Hdec} {nsym : ℕ} {codes : List HCode} {items : List (ℕ × ℕ)}
    (hread : ∀ item ∈ items, Reads (hdecSymbol clh) (Put.bits [bwHuff (codes.getD item.1 ⟨0, 0⟩)]) item.1)
    (hok : ∀ item ∈ items, ItemOk item) (hend : EndsNonzero (items.flatMap expandItem)) :
    ∀ {fuel space : ℕ} {acc : List ℕ}, items.length < fuel → acc.length + (items.flatMap expandItem).length ≤ nsym →
      space + kraft 15 (items.flatMap expandItem) = 2 ^ 15 →
      Reads (readLens clh nsym fuel acc space) (Put.bits (items.flatMap (itemPuts codes)))
        (acc ++ items.flatMap expandItem, 2 ^ 15) := by
  induction items with
  | nil =>
    intro fuel space acc hfuel _ hspace
    obtain ⟨fuel, rfl⟩ : ∃ n, fuel = n + 1 := ⟨fuel - 1, by simp at hfuel; omega⟩
    obtain rfl : space = 2 ^ 15 := by simpa using hspace
    rw [readLens, if_neg (by simp [Nat.shiftLeft_eq])]
    rw [flatMap_nil, flatMap_nil, append_nil]
    exact Reads.pure (acc, 2 ^ 15)
  | cons item items ih =>
    intro fuel space acc hfuel hlen hspace
    simp only [forall_mem_cons] at hread hok
    obtain ⟨fuel, rfl⟩ : ∃ n, fuel = n + 1 := ⟨fuel - 1, by simp at hfuel; omega⟩
    rw [length_cons] at hfuel
    have hpos := length_pos_iff.2 (expandItem_ne_nil item)
    have hfree : 0 < kraft 15 ((item :: items).flatMap expandItem) :=
      hend.kraft_pos (by simp [expandItem_ne_nil])
    rw [flatMap_cons] at hend hlen hspace hfree ⊢
    rw [length_append] at hlen
    rw [readLens, if_pos ⟨by omega, by simp only [Nat.shiftLeft_eq]; omega⟩, flatMap_cons]
    have hsym := hread.1
    rw [Put.bits_cons, Put.bits_nil, append_nil] at hsym
    refine hsym.bind ?_
    by_cases h17 : item.1 = 17
    · have hextra : item.2 < 8 := (hok.1.resolve_right (by omega)).2
      have hexp : expandItem item = replicate (3 + item.2) 0 := by rw [expandItem, if_pos h17]
      rw [hexp, length_replicate] at hlen
      rw [hexp, kraft_append, kraft_replicate_zero] at hspace
      rw [if_pos h17, if_pos h17, hexp]
      refine (reads_brRead hextra).bind ?_
      rw [if_neg (by omega), ← append_assoc]
      refine ih hread.2 hok.2 hend.of_append (by omega) ?_ (by omega)
      simp only [length_append, length_replicate]
      omega
    · have hle : item.1 ≤ 15 := hok.1.resolve_left fun h => h17 h.1
      have hexp : expandItem item = [item.1] := by rw [expandItem, if_neg h17]
      rw [hexp, kraft_append, kraft_cons, kraft_nil, add_zero] at hspace
      rw [if_neg h17, if_neg h17, if_pos hle, hexp]
      simp only [ite_add_share]
      rw [if_neg (by simp only [Nat.shiftLeft_eq]; omega), ← append_assoc]
      refine ih hread.2 hok.2 hend.of_append (by omega) ?_ (by omega)
      simp only [length_append, length_singleton]
      omega

/-! ### The second code -/

section CountSymbols

variable (nsym : ℕ) (syms : List ℕ)

lemma foldl_modify_spec (freq : List ℕ) (s : ℕ) :
    (syms.foldl (fun freq s => freq.modify s (· + 1)) freq)[s]? = freq[s]?.map (· + syms.count s) := by
  induction syms generalizing freq with
  | nil => simp
  | cons x syms ih =>
    rw [foldl_cons, ih, getElem?_modify, Option.map_eq_map, Option.map_map]
    refine Option.map_congr fun f _ => ?_
    by_cases hx : x = s
    · simp only [hx, Function.comp_apply, if_true, count_cons_self]
      omega
    · simp [hx]

@[simp] lemma length_countSymbols : (countSymbols nsym syms).length = nsym :=
  foldlRecOn (motive := fun freq : List ℕ => freq.length = nsym) syms _ length_replicate fun freq hlen s _ => by
    rw [length_modify, hlen]

lemma getElem?_countSymbols {s : ℕ} (hs : s < nsym) : (countSymbols nsym syms)[s]? = some (syms.count s) := by
  simp [countSymbols, foldl_modify_spec, hs]

lemma mem_usedSymbols_countSymbols {s : ℕ} (hs : s < nsym) (hmem : s ∈ syms) :
    s ∈ usedSymbols (countSymbols nsym syms) :=
  mem_usedSymbols.2 ⟨_, getElem?_countSymbols nsym syms hs, (count_pos_iff.2 hmem).ne'⟩

end CountSymbols

lemma dummySymbol_unused (hlen : 2 ≤ freq.length) (hone : countUsed freq = 1) : freq[dummySymbol freq]? = some 0 := by
  match freq, hlen with
  | f0 :: f1 :: rest, _ =>
    rw [dummySymbol]
    split_ifs with h0 h1
    · simpa using h0
    · simpa using h1
    · have hf0 : f0 ≠ 0 := h0
      have hf1 : f1 ≠ 0 := h1
      simp [countUsed, hf0, hf1] at hone

lemma countUsed_set {k : ℕ} (hk : freq[k]? = some 0) : countUsed (freq.set k 1) = countUsed freq + 1 := by
  obtain ⟨hlt, hget⟩ := List.getElem?_eq_some_iff.1 hk
  rw [countUsed, countP_set hlt, hget]
  simp [countUsed]

lemma usedSymbols_subset_set {k s : ℕ} (hs : s ∈ usedSymbols freq) : s ∈ usedSymbols (freq.set k 1) := by
  obtain ⟨f, hf, hne⟩ := mem_usedSymbols.1 hs
  by_cases hk : k = s
  · subst hk
    exact mem_usedSymbols.2 ⟨1, List.getElem?_set_self (List.getElem?_eq_some_iff.1 hf).1, one_ne_zero⟩
  · exact mem_usedSymbols.2 ⟨f, by rwa [List.getElem?_set_ne hk], hne⟩

/-- The frequencies of the second code name every item and at least two symbols. -/
lemma clFreq_spec {items : List (ℕ × ℕ)} (hne : items ≠ []) (hlt : ∀ item ∈ items, item.1 < 18) :
    (clFreq items).length = 18 ∧ 2 ≤ countUsed (clFreq items) ∧
      ∀ item ∈ items, item.1 ∈ usedSymbols (clFreq items) := by
  have hused : ∀ item ∈ items, item.1 ∈ usedSymbols (countSymbols 18 (items.map Prod.fst)) :=
    fun item hitem => mem_usedSymbols_countSymbols _ _ (hlt item hitem) (mem_map_of_mem hitem)
  have hlen := length_countSymbols 18 (items.map Prod.fst)
  have hpos : 0 < countUsed (countSymbols 18 (items.map Prod.fst)) := by
    obtain ⟨item, hitem⟩ := exists_mem_of_ne_nil _ hne
    rw [← length_usedSymbols]
    exact length_pos_of_mem (hused item hitem)
  rw [clFreq]
  generalize countSymbols 18 (items.map Prod.fst) = freq at *
  by_cases hone : countUsed freq = 1
  · simp only [if_pos hone]
    have hdummy := countUsed_set (dummySymbol_unused (by omega) hone)
    exact ⟨by simpa using hlen, by omega, fun item hitem => usedSymbols_subset_set (hused item hitem)⟩
  · simp only [if_neg hone]
    exact ⟨hlen, by omega, hused⟩

/-! ### The lengths of the second code -/

lemma kCLCL_prefix_free : ∀ v < 6, ∀ v' < 6,
    (kCLCL.getD v' ⟨0, 0⟩).word <+: (kCLCL.getD v ⟨0, 0⟩).word → v' = v := by decide

lemma reads_readClclSymbol {v : ℕ} (hv : v ≤ 5) : Reads readClclSymbol (Put.bits [clclPut v]) v := by
  have hget : ∀ v' < 6, kCLCL[v']? = some (kCLCL.getD v' ⟨0, 0⟩) := by decide
  have hentry : ∀ v' < 6, kCLCL[v']? = some ⟨value (kCLCL.getD v' ⟨0, 0⟩).word,
      (kCLCL.getD v' ⟨0, 0⟩).word.length⟩ := by decide
  have hshape : ∀ v' < 6, (kCLCL.getD v' ⟨0, 0⟩).word ≠ [] ∧ (kCLCL.getD v' ⟨0, 0⟩).word.length ≤ 4 := by
    decide
  have hread := reads_hdecLoop (hentry v (by omega)) ?_ _ [] 4 rfl (hshape v (by omega)).1 (hshape v (by omega)).2
  · have hbits : Put.bits [clclPut v] = (kCLCL.getD v ⟨0, 0⟩).word := by
      rw [Put.bits_cons, Put.bits_nil, append_nil, clclPut, HCode.word]
    rw [hbits]
    exact hread
  · intro v' e he _ hpre
    have hlt : v' < 6 := (List.getElem?_eq_some_iff.1 he).1
    obtain rfl := Option.some.inj ((hget v' hlt).symm.trans he)
    exact kCLCL_prefix_free v (by omega) v' hlt hpre

lemma numCl_spec (clLens : List ℕ) {n : ℕ} (hn : 4 ≤ n) :
    4 ≤ numCl clLens n ∧ numCl clLens n ≤ n ∧ (∀ i < n, numCl clLens n ≤ i → clAt clLens i = 0) ∧
      (numCl clLens n = 4 ∨ clAt clLens (numCl clLens n - 1) ≠ 0) := by
  induction n with
  | zero => omega
  | succ n ih =>
    rw [numCl]
    split_ifs with h
    · obtain ⟨hmin, hmax, hzero, hlast⟩ := ih (by omega)
      refine ⟨hmin, by omega, fun i hi hle => ?_, hlast⟩
      rcases Nat.lt_succ_iff_lt_or_eq.1 hi with hi' | rfl
      · exact hzero i hi' hle
      · exact h.2
    · refine ⟨hn, le_rfl, fun i hi hle => by omega, ?_⟩
      rw [Nat.add_sub_cancel]
      omega

lemma hskip_spec (clLens : List ℕ) (num : ℕ) :
    hskip clLens num ≤ 3 ∧ hskip clLens num ≠ 1 ∧ ∀ i < hskip clLens num, clAt clLens i = 0 := by
  rw [hskip]
  split_ifs with h h2
  · refine ⟨le_rfl, by omega, fun i hi => ?_⟩
    obtain rfl | rfl | rfl : i = 0 ∨ i = 1 ∨ i = 2 := by omega
    exacts [h.2.1, h.2.2, h2]
  · refine ⟨by omega, by omega, fun i hi => ?_⟩
    obtain rfl | rfl : i = 0 ∨ i = 1 := by omega
    exacts [h.2.1, h.2.2]
  · exact ⟨by omega, by omega, fun i hi => by omega⟩

/-- The decoder stops after the last length: before it, either fewer than four places are read or
some of the code space is left. -/
lemma reads_readClLens {clLens : List ℕ} (n : ℕ) : ∀ {fuel i space : ℕ} {acc : List ℕ}, 0 < n → n ≤ fuel → 4 ≤ i + n →
      (∀ j, clAt clLens j ≤ 5) → (i + n = 4 ∨ clAt clLens (i + n - 1) ≠ 0) →
      space + kraft 5 ((range' i n).map (clAt clLens)) = 32 →
      Reads (readClLens fuel i acc space) (Put.bits ((range' i n).map fun j => clclPut (clAt clLens j)))
        (setEntries acc ((range' i n).map fun j => (kCLOrder.getD j 0, clAt clLens j))) := by
  induction n with
  | zero => exact fun h => absurd h (lt_irrefl 0)
  | succ n ih =>
    intro fuel i space acc _ hfuel hmin hle hlast hspace
    obtain ⟨fuel, rfl⟩ : ∃ k, fuel = k + 1 := ⟨fuel - 1, by omega⟩
    rw [range'_succ, map_cons, kraft_cons] at hspace
    have hsym := reads_readClclSymbol (hle i)
    rw [Put.bits_cons, Put.bits_nil, append_nil] at hsym
    refine hsym.bind ?_
    simp only [ite_add_share]
    rcases Nat.eq_zero_or_pos n with rfl | hn
    · rw [if_pos ⟨by omega, by simpa using hspace⟩]
      exact Reads.pure _
    · have hgo : ¬(4 ≤ i + 1 ∧ space + share 5 (clAt clLens i) = 32) := by
        rintro ⟨hfour, hfull⟩
        have hne := hlast.resolve_left (by omega)
        have hmem : clAt clLens (i + (n + 1) - 1) ∈ (range' (i + 1) n).map (clAt clLens) :=
          mem_map_of_mem (mem_range'_1.2 ⟨by omega, by omega⟩)
        have hleft : 0 < kraft 5 ((range' (i + 1) n).map (clAt clLens)) :=
          PrefixCode.kraft_pos hmem hne
        omega
      rw [if_neg hgo, if_neg (by omega)]
      refine ih hn (by omega) (by omega) hle ?_ (by omega)
      rw [show i + 1 + n = i + (n + 1) by omega]
      exact hlast

/-- Lengths placed one by one in any order that leaves out only zeros. -/
lemma getElem?_setEntries_map {xs : List ℕ} (keys : List ℕ) (f : ℕ → ℕ) {s : ℕ} (hs : s < xs.length) :
    (setEntries xs (keys.map fun k => (k, f k)))[s]? = if s ∈ keys then some (f s) else xs[s]? := by
  induction keys generalizing xs with
  | nil => simp
  | cons k keys ih =>
    rw [map_cons, setEntries_cons, ih (by simpa using hs)]
    by_cases hmem : s ∈ keys
    · simp [hmem]
    · by_cases hk : k = s
      · subst hk
        simp [hs]
      · simp [hk, Ne.symm hk]

lemma kraft_eq_zero {top : ℕ} (h : ∀ l ∈ lens, l = 0) : kraft top lens = 0 := by
  rw [eq_replicate_of_mem h, kraft_replicate_zero]

section ClLens

variable {clLens : List ℕ} (hlen : clLens.length = 18) {skip num : ℕ} (hnum : num ≤ 18)
  (hskip : skip ≤ num) (hlow : ∀ i < skip, clAt clLens i = 0)
  (hhigh : ∀ i < 18, num ≤ i → clAt clLens i = 0)

include hlen hlow hhigh

/-- The decoder puts every length where the encoder had it. -/
lemma setEntries_clAt : setEntries (replicate 18 0)
      ((range' skip (num - skip)).map fun j => (kCLOrder.getD j 0, clAt clLens j)) = clLens := by
  have hplace : ∀ s < 18, ∃ i < 18, kCLOrder.getD i 0 = s := by decide
  have hmap : ((range' skip (num - skip)).map fun j => (kCLOrder.getD j 0, clAt clLens j)) =
      ((range' skip (num - skip)).map fun j => kCLOrder.getD j 0).map fun k => (k, clLens.getD k 0) := by
    rw [map_map]
    rfl
  refine ext_getElem? fun s => ?_
  by_cases hs : s < 18
  · obtain ⟨i, hi, rfl⟩ := hplace s hs
    have hget : clLens[kCLOrder.getD i 0]? = some (clAt clLens i) := by
      rw [clAt, getD_eq_getElem?_getD (l := clLens), getElem?_eq_getElem (by omega)]
      rfl
    rw [hmap, getElem?_setEntries_map _ _ (by simpa using hs), hget]
    split_ifs with hmem
    · rfl
    · have hout : ¬(skip ≤ i ∧ i < num) := fun h =>
        hmem (mem_map_of_mem (mem_range'_1.2 ⟨h.1, by omega⟩))
      have hzero : clAt clLens i = 0 := (Nat.lt_or_ge i skip).elim (hlow i) fun h => hhigh i hi (by omega)
      rw [hzero, getElem?_replicate, if_pos hs]
  · rw [getElem?_eq_none (by simp; omega), getElem?_eq_none (by omega)]

include hnum hskip

/-- The transmitted lengths take the same space as all lengths. -/
lemma kraft_clAt : kraft 5 ((range' skip (num - skip)).map (clAt clLens)) = kraft 5 clLens := by
  have hperm : kCLOrder.Perm (range 18) := by decide
  have hall : kraft 5 ((range' 0 18).map (clAt clLens)) = kraft 5 clLens := by
    have horder : (range' 0 18).map (clAt clLens) = kCLOrder.map fun s => clLens.getD s 0 := rfl
    have hself : (range 18).map (fun s => clLens.getD s 0) = clLens := by
      refine ext_getElem (by simp [hlen]) fun i hi hi' => ?_
      simp [getElem?_eq_getElem hi']
    conv_rhs => rw [← hself]
    rw [horder]
    exact ((hperm.map _).map _).sum_eq
  have hrange : range' 0 18 =
      range' 0 skip ++ (range' skip (num - skip) ++ range' num (18 - num)) := by
    have h1 := range'_append_1 (s := skip) (m := num - skip) (n := 18 - num)
    have h2 := range'_append_1 (s := 0) (m := skip) (n := 18 - skip)
    rw [Nat.add_sub_cancel' hskip, show num - skip + (18 - num) = 18 - skip by omega] at h1
    rw [zero_add, show skip + (18 - skip) = 18 by omega] at h2
    rw [h1, h2]
  rw [hrange, map_append, map_append, kraft_append, kraft_append] at hall
  have hzlow : kraft 5 ((range' 0 skip).map (clAt clLens)) = 0 := by
    refine kraft_eq_zero (forall_mem_map.2 fun i hi => hlow i ?_)
    have := mem_range'_1.1 hi
    omega
  have hzhigh : kraft 5 ((range' num (18 - num)).map (clAt clLens)) = 0 := by
    refine kraft_eq_zero (forall_mem_map.2 fun i hi => ?_)
    have := mem_range'_1.1 hi
    exact hhigh i (by omega) (by omega)
  omega

end ClLens

/-! ### The whole header -/

/-- The decoder's table for complete lengths agrees with the codes that the encoder assigns. -/
lemma agrees_assignCodes {h : Hdec} (hmask : mask lens = mask freq)
    (hkraft : kraft 15 lens ≤ 2 ^ 15) (hle : ∀ l ∈ lens, l ≤ 15) (hbuild : hdecBuild lens = some h) :
    Agrees h (assignCodes lens) freq := by
  intro s hs
  rw [← usedSymbols_congr hmask] at hs
  obtain ⟨l, hl, hne⟩ := mem_usedSymbols.1 hs
  have hcode := getElem?_assignCodes hkraft hle hl hne
  have hread := reads_hdecSymbol hkraft hle hbuild hl hne
  rwa [getD_eq_getElem?_getD, hcode, Put.bits_cons, Put.bits_nil, append_nil, bits_bwHuff]

lemma ItemOk.lt {item : ℕ × ℕ} (h : ItemOk item) : item.1 < 18 := by
  rcases h with h | h <;> omega

lemma clAt_le {clLens : List ℕ} (hle : ∀ l ∈ clLens, l ≤ 5) (j : ℕ) : clAt clLens j ≤ 5 := by
  rw [clAt, getD_eq_getElem?_getD]
  cases hget : clLens[kCLOrder.getD j 0]? with
  | none => simp
  | some l => exact hle l (mem_of_getElem? hget)

lemma reads_clHeader {clLens : List ℕ} (hlen : clLens.length = 18) (hle : ∀ l ∈ clLens, l ≤ 5)
    (hkraft : kraft 5 clLens = 32) :
    Reads (readClLens (18 - hskip clLens (numCl clLens 18)) (hskip clLens (numCl clLens 18))
      (replicate 18 0) 0) (Put.bits (clHeader clLens)) clLens := by
  obtain ⟨hmin, hmax, hhigh, hlast⟩ := numCl_spec clLens (show 4 ≤ 18 by norm_num)
  obtain ⟨hskip, -, hlow⟩ := hskip_spec clLens (numCl clLens 18)
  simp only [clHeader]
  generalize numCl clLens 18 = num at *
  generalize Brotli.hskip clLens num = skip at *
  have hspace := kraft_clAt hlen hmax (show skip ≤ num by omega) hlow hhigh
  have hsum : skip + (num - skip) = num := Nat.add_sub_cancel' (by omega)
  have hread : Reads (readClLens (18 - skip) skip (replicate 18 0) 0) _ _ :=
    reads_readClLens (num - skip) (by omega) (by omega) (by omega) (clAt_le hle) (hsum.symm ▸ hlast)
      (by rw [hspace, hkraft])
  rwa [setEntries_clAt hlen hlow hhigh] at hread

/-- The second code is read back with a table for every item. -/
lemma clCode_agrees {items : List (ℕ × ℕ)} (hitems : items ≠ []) (hok : ∀ item ∈ items, ItemOk item) :
    ∃ clh, hdecBuild (buildLengthsEx (clFreq items) 5) = some clh ∧ (buildLengthsEx (clFreq items) 5).length = 18 ∧
      (∀ l ∈ buildLengthsEx (clFreq items) 5, l ≤ 5) ∧
      kraft 5 (buildLengthsEx (clFreq items) 5) = 32 ∧
      ∀ item ∈ items, Reads (hdecSymbol clh)
        (Put.bits [bwHuff ((assignCodes (buildLengthsEx (clFreq items) 5)).getD item.1 ⟨0, 0⟩)]) item.1 := by
  obtain ⟨hlen, htwo, hused⟩ := clFreq_spec hitems fun item hitem => (hok item hitem).lt
  have hmax : countUsed (clFreq items) ≤ 18 := hlen ▸ countP_le_length
  have hcl : IsLengths (clFreq items) 5 (buildLengthsEx (clFreq items) 5) :=
    buildLengthsEx_spec (by norm_num) (by omega) (by omega)
  generalize buildLengthsEx (clFreq items) 5 = clLens at *
  have hkraft : kraft 5 clLens = 32 := hcl.kraft htwo
  have hle : ∀ l ∈ clLens, l ≤ 15 := fun l hl => (hcl.le l hl).trans (by norm_num)
  have hkraft15 : kraft 15 clLens = 2 ^ 15 := by
    rw [kraft_add 10 hcl.le, hkraft]
    norm_num
  have hclh := hdecBuild_eq hle
  have hagrees := agrees_assignCodes hcl.mask hkraft15.le hle hclh
  refine ⟨_, hclh, ?_, hcl.le, hkraft, fun item hitem => hagrees item.1 (hused item hitem)⟩
  simpa [mask, hlen] using congrArg length hcl.mask

/-- A complex header is read back and gives the table for the same lengths. -/
theorem complexCode_agrees (hlens : IsLengths freq 15 lens) (hmany : 2 ≤ countUsed freq) :
    ∃ h skip bs, Put.bits (writeComplexCode lens) = lsb 2 skip ++ bs ∧ skip ≤ 3 ∧ skip ≠ 1 ∧
      Reads (readComplexCode lens.length skip) bs h ∧ Agrees h (assignCodes lens) freq := by
  have hkraft := hlens.kraft hmany
  obtain ⟨s, hs⟩ : ∃ s, s ∈ usedSymbols lens := by
    refine exists_mem_of_length_pos ?_
    rw [usedSymbols_congr hlens.mask, length_usedSymbols]
    omega
  obtain ⟨l, hl, hne⟩ := mem_usedSymbols.1 hs
  obtain ⟨hend, hkept, hpad⟩ := trimZeros_spec (mem_of_getElem? hl) hne
  have hh := hdecBuild_eq hlens.le
  have hagrees := agrees_assignCodes hlens.mask hkraft.le hlens.le hh
  simp only [writeComplexCode]
  generalize trimZeros lens = kept at *
  have hkeptle : ∀ l ∈ kept, l ≤ 15 := fun l hl =>
    hlens.le l (by rw [← hpad]; exact mem_append_left _ hl)
  have hkeptkraft : kraft 15 kept = 2 ^ 15 := by
    rwa [← hpad, kraft_append, kraft_replicate_zero] at hkraft
  have hkeptlen : kept.length ≤ lens.length := by
    have := congrArg length hpad
    rw [length_append] at this
    omega
  obtain ⟨hexp, hok⟩ := rle_spec kept.length le_rfl hkeptle
  generalize rle kept.length kept = items at *
  subst hexp
  have hitems : items ≠ [] := fun hnil => hkept (by rw [hnil]; rfl)
  obtain ⟨clh, hclh, hcllen, hclle, hclkraft, hclread⟩ := clCode_agrees hitems hok
  generalize buildLengthsEx (clFreq items) 5 = clLens at *
  obtain ⟨hskip, hskip1, -⟩ := hskip_spec clLens (numCl clLens 18)
  have hheader := reads_clHeader hcllen hclle hclkraft
  have hcount := length_le_expand items
  -- first the lengths of the second code, then with its table the lengths themselves
  have hbody : Reads (readLens clh lens.length (lens.length + 1) [] 0)
      (Put.bits (items.flatMap (itemPuts (assignCodes clLens))))
      ([] ++ items.flatMap expandItem, 2 ^ 15) :=
    reads_readLens hclread hok hend (by omega) (by simpa using hkeptlen) (by rw [zero_add, hkeptkraft])
  refine ⟨_, _, Put.bits (clHeader clLens) ++ Put.bits (items.flatMap (itemPuts (assignCodes clLens))),
    ?_, hskip, hskip1, ?_, hagrees⟩
  · rw [cons_append, Put.bits_cons, Put.bits_append]
  · refine hheader.bind ((Reads.lift hclh).bind_nil ?_)
    rw [← append_nil (Put.bits (items.flatMap (itemPuts (assignCodes clLens))))]
    refine hbody.bind ?_
    rw [nil_append, hpad]
    exact Reads.lift hh

lemma narrow_clHeader (clLens : List ℕ) : Put.Narrow (clHeader clLens) := by
  have hentry : ∀ e ∈ kCLCL, e.code < 2 ^ e.len := by decide
  intro p hp
  obtain ⟨i, -, rfl⟩ := mem_map.1 hp
  rw [clclPut, getD_eq_getElem?_getD]
  cases hget : kCLCL[clAt clLens i]? with
  | none => simp
  | some e => exact hentry e (mem_of_getElem? hget)

lemma narrow_itemPuts {item : ℕ × ℕ} (codes : List HCode) (hok : ItemOk item) : Put.Narrow (itemPuts codes item) := by
  rw [itemPuts, Put.narrow_cons]
  refine ⟨bwHuff_lt _, ?_⟩
  split_ifs with h17
  · simpa using (hok.resolve_right (by omega)).2
  · exact Put.narrow_nil

lemma narrow_writeComplexCode (hle : ∀ l ∈ lens, l ≤ 15) : Put.Narrow (writeComplexCode lens) := by
  have hkept : ∀ l ∈ trimZeros lens, l ≤ 15 := by
    intro l hl
    rw [trimZeros] at hl
    split_ifs at hl
    · exact hle l (mem_of_mem_take hl)
    · exact hle l ((List.rdropWhile_prefix _ _).subset hl)
  have hok := (rle_spec _ le_rfl hkept).2
  simp only [writeComplexCode, cons_append, Put.narrow_cons, Put.narrow_append]
  refine ⟨?_, narrow_clHeader _, fun p hp => ?_⟩
  · have := (hskip_spec (buildLengthsEx (clFreq (rle (trimZeros lens).length (trimZeros lens))) 5)
      (numCl (buildLengthsEx (clFreq (rle (trimZeros lens).length (trimZeros lens))) 5) 18)).1
    omega
  · obtain ⟨item, hitem, hp⟩ := mem_flatMap.1 hp
    exact narrow_itemPuts _ (hok item hitem) p hp

end Brotli
