import Picoweb.Lib.ByteFile

/-!
# The match finder

`lz_parse` walks over the input, looks up earlier positions with the same four bytes in hash chains
and emits a command for each match it takes. Whatever the chains hold, the commands describe the input:
each copy repeats bytes that are already there.
-/

namespace Brotli

open ByteFile

def winSize : ℕ := 1 <<< 16

def minMatch : ℕ := 4

def maxMatch : ℕ := 258

def maxChain : ℕ := 32

/-- `lz_cmd_t`: literals, then a copy. The last command may have no copy. -/
structure LzCmd where
  insLen : ℕ
  copyLen : ℕ
  distance : ℕ
  deriving DecidableEq, Repr

def hash4 (input : Bytes) (p : ℕ) : ℕ :=
  let byte i := (input.getD (p + i) 0).toNat
  let v := byte 0 ||| byte 1 <<< 8 ||| byte 2 <<< 16 ||| byte 3 <<< 24
  ((v * 0x1E35A7BD) % 2 ^ 32) >>> 17

/-- The hash chains: the last position with each hash, and the one before each position. -/
structure Chains where
  head : ℕ → Option ℕ
  prev : ℕ → Option ℕ

namespace Chains

def empty : Chains := { head := fun _ => none, prev := fun _ => none }

def insert (t : Chains) (input : Bytes) (ip : ℕ) : Chains :=
  let h := hash4 input ip
  { head := Function.update t.head h (some ip), prev := Function.update t.prev ip (t.head h) }

end Chains

/-- How many bytes agree at two positions, up to a limit. -/
def matchLen (input : Bytes) : ℕ → ℕ → ℕ → ℕ
  | 0, _, _ => 0
  | maxl + 1, a, b =>
    if input.getD a 0 = input.getD b 0 then matchLen input maxl (a + 1) (b + 1) + 1 else 0

/-- The walk along a chain; `best` is the length and the distance found so far. -/
def searchChain (input : Bytes) (prev : ℕ → Option ℕ) (ip : ℕ) : ℕ → Option ℕ → ℕ × ℕ → ℕ × ℕ
  | 0, _, best => best
  | _ + 1, none, best => best
  | fuel + 1, some chain, best =>
    let dist := ip - chain
    if winSize < dist then best
    else
      let ml := matchLen input (min (input.length - ip) maxMatch) chain ip
      if best.1 < ml ∧ minMatch ≤ ml then
        if maxMatch ≤ ml then (ml, dist) else searchChain input prev ip fuel (prev chain) (ml, dist)
      else searchChain input prev ip fuel (prev chain) best

/-- The search at one position, which then joins its chain. Too close to the end there is none. -/
def findMatch (input : Bytes) (t : Chains) (ip : ℕ) : (ℕ × ℕ) × Chains :=
  if ip + minMatch ≤ input.length then
    (searchChain input t.prev ip maxChain (t.head (hash4 input ip)) (0, 0), t.insert input ip)
  else ((0, 0), t)

/-- The positions inside a match join their chains too. -/
def insertRange (input : Bytes) (t : Chains) (ip len : ℕ) : Chains :=
  (List.range' 1 (len - 1)).foldl
    (fun t k => if ip + k + minMatch ≤ input.length then t.insert input (ip + k) else t) t

/-- The main loop, which moves forward by at least one byte. -/
def lzLoop (input : Bytes) : ℕ → ℕ → ℕ → Chains → List LzCmd
  | 0, _, _, _ => []
  | fuel + 1, ip, litStart, t =>
    if ip < input.length then
      let r := findMatch input t ip
      if minMatch ≤ r.1.1 then
        ⟨ip - litStart, r.1.1, r.1.2⟩ :: lzLoop input fuel (ip + r.1.1) (ip + r.1.1) (insertRange input r.2 ip r.1.1)
      else lzLoop input fuel (ip + 1) litStart r.2
    else if litStart < input.length then [⟨input.length - litStart, 0, 0⟩]
    else []

/-- `lz_parse`; `alloc` says whether the tables could be allocated. There are fewer commands than
the list has room for, so it never grows. -/
def lzParse (alloc : Bool) (input : Bytes) : Option (List LzCmd) :=
  if input.length = 0 then some []
  else if alloc then some (lzLoop input (input.length + 1) 0 0 Chains.empty)
  else none

/-! ### The commands describe the input -/

/-- At `ip` the input goes on with `len` bytes from `dist` bytes before. -/
structure IsMatch (input : Bytes) (ip len dist : ℕ) : Prop where
  min : minMatch ≤ len
  max : len ≤ maxMatch
  dist_pos : 0 < dist
  dist_le : dist ≤ ip
  window : dist ≤ winSize
  fits : ip + len ≤ input.length
  same : ∀ k < len, input.getD (ip - dist + k) 0 = input.getD (ip + k) 0

/-- The commands give the rest of the input from a position on. -/
inductive Covers (input : Bytes) : ℕ → List LzCmd → Prop
  | done : Covers input input.length []
  | literals {pos : ℕ} (h : pos < input.length) : Covers input pos [⟨input.length - pos, 0, 0⟩]
  | copy {pos ip len dist : ℕ} {cmds : List LzCmd} (hpos : pos ≤ ip) (hmatch : IsMatch input ip len dist)
      (rest : Covers input (ip + len) cmds) : Covers input pos (⟨ip - pos, len, dist⟩ :: cmds)

/-- Only positions before `ip` are in the chains. -/
structure Chains.Below (t : Chains) (ip : ℕ) : Prop where
  head : ∀ h, ∀ c ∈ t.head h, c < ip
  prev : ∀ p, ∀ c ∈ t.prev p, c < ip

lemma Chains.empty_below : Chains.empty.Below 0 := ⟨by simp [Chains.empty], by simp [Chains.empty]⟩

variable {ip : ℕ}

lemma Chains.Below.mono {t : Chains} {ip' : ℕ} (h : t.Below ip) (hle : ip ≤ ip') : t.Below ip' :=
  ⟨fun k c hc => (h.head k c hc).trans_le hle, fun p c hc => (h.prev p c hc).trans_le hle⟩

lemma Chains.Below.insert {t : Chains} (h : t.Below ip) (input : Bytes) : (t.insert input ip).Below (ip + 1) := by
  constructor
  · intro k c hc
    simp only [Chains.insert, Function.update_apply] at hc
    split_ifs at hc
    · obtain rfl : ip = c := by simpa using hc
      exact Nat.lt_succ_self _
    · exact (h.head k c hc).trans (Nat.lt_succ_self _)
  · intro p c hc
    simp only [Chains.insert, Function.update_apply] at hc
    split_ifs at hc
    · exact (h.head _ c hc).trans (Nat.lt_succ_self _)
    · exact (h.prev p c hc).trans (Nat.lt_succ_self _)

lemma matchLen_spec (input : Bytes) (maxl a b : ℕ) : matchLen input maxl a b ≤ maxl ∧
      ∀ k < matchLen input maxl a b, input.getD (a + k) 0 = input.getD (b + k) 0 := by
  induction maxl generalizing a b with
  | zero => simp [matchLen]
  | succ maxl ih =>
    rw [matchLen]
    split_ifs with h
    · obtain ⟨hle, hsame⟩ := ih (a + 1) (b + 1)
      refine ⟨by omega, fun k hk => ?_⟩
      cases k with
      | zero => exact h
      | succ k =>
        have := hsame k (by omega)
        rwa [Nat.add_right_comm, Nat.add_right_comm b] at this
    · exact ⟨by omega, fun k hk => by omega⟩

variable {input : Bytes}

/-- What the search has found is a match, once it is long enough to be taken. -/
lemma searchChain_match {prev : ℕ → Option ℕ}
    (hprev : ∀ p, ∀ c ∈ prev p, c < ip) (fuel : ℕ) {chain : Option ℕ} {best : ℕ × ℕ}
    (hchain : ∀ c ∈ chain, c < ip) (hbest : minMatch ≤ best.1 → IsMatch input ip best.1 best.2) :
    minMatch ≤ (searchChain input prev ip fuel chain best).1 →
      IsMatch input ip (searchChain input prev ip fuel chain best).1
        (searchChain input prev ip fuel chain best).2 := by
  induction fuel generalizing chain best with
  | zero => exact hbest
  | succ fuel ih =>
    cases chain with
    | none => exact hbest
    | some chain =>
      have hlt := hchain chain rfl
      obtain ⟨hle, hsame⟩ := matchLen_spec input (min (input.length - ip) maxMatch) chain ip
      simp only [searchChain]
      generalize matchLen input (min (input.length - ip) maxMatch) chain ip = ml at *
      have hfound : winSize < ip - chain ∨ (minMatch ≤ ml → IsMatch input ip ml (ip - chain)) := by
        rcases Nat.lt_or_ge winSize (ip - chain) with h | h
        · exact .inl h
        · refine .inr fun hmin => ⟨hmin, by omega, by omega, by omega, h, ?_, ?_⟩
          · have : 0 < minMatch := by decide
            omega
          · rwa [Nat.sub_sub_self hlt.le]
      split_ifs with hwin hbetter hmax
      · exact hbest
      · exact fun _ => hfound.resolve_left hwin hbetter.2
      · exact ih (hprev chain) (hfound.resolve_left hwin)
      · exact ih (hprev chain) hbest

lemma findMatch_spec {t : Chains} (ht : t.Below ip) : (minMatch ≤ (findMatch input t ip).1.1 →
      IsMatch input ip (findMatch input t ip).1.1 (findMatch input t ip).1.2) ∧
      (findMatch input t ip).2.Below (ip + 1) := by
  rw [findMatch]
  split_ifs
  · refine ⟨searchChain_match ht.prev maxChain (ht.head _) fun h => ?_, ht.insert input⟩
    exact absurd h (by decide)
  · exact ⟨fun h => absurd h (show ¬minMatch ≤ 0 by decide), ht.mono (Nat.le_succ _)⟩

lemma insertRange_below {t : Chains} {len : ℕ} (ht : t.Below (ip + 1)) (hlen : 0 < len) :
    (insertRange input t ip len).Below (ip + len) := by
  have hfold : ∀ n m (t : Chains), t.Below (ip + m) → ((List.range' m n).foldl (fun t k =>
        if ip + k + minMatch ≤ input.length then t.insert input (ip + k) else t) t).Below (ip + (m + n)) := by
    intro n
    induction n with
    | zero => exact fun m t h => h
    | succ n ih =>
      intro m t h
      rw [List.range'_succ, List.foldl_cons, show m + (n + 1) = m + 1 + n by omega]
      refine ih (m + 1) _ ?_
      split_ifs
      · exact h.insert input
      · exact h.mono (by omega)
  have := hfold (len - 1) 1 t ht
  rwa [Nat.add_sub_cancel' hlen] at this

lemma lzLoop_covers (fuel : ℕ) {litStart : ℕ} {t : Chains} (ht : t.Below ip)
    (hlit : litStart ≤ ip) (hip : ip ≤ input.length) (hfuel : input.length < ip + fuel) :
    Covers input litStart (lzLoop input fuel ip litStart t) := by
  induction fuel generalizing ip litStart t with
  | zero => omega
  | succ fuel ih =>
    rw [lzLoop]
    split_ifs with hlt hlits
    · obtain ⟨hmatch, hbelow⟩ : _ ∧ (findMatch input t ip).2.Below (ip + 1) := findMatch_spec ht
      simp only
      split_ifs with htake
      · have hm := hmatch htake
        have hmin : 0 < (findMatch input t ip).1.1 := lt_of_lt_of_le (by decide) hm.min
        have hfits := hm.fits
        exact .copy hlit hm (ih (insertRange_below hbelow hmin) le_rfl hfits (by omega))
      · exact ih hbelow (by omega) hlt (by omega)
    · exact .literals hlits
    · obtain rfl : litStart = input.length := by omega
      exact .done

/-- The commands of `lz_parse` give the input. -/
theorem lzParse_covers {alloc : Bool} {cmds : List LzCmd}
    (h : lzParse alloc input = some cmds) : Covers input 0 cmds := by
  rw [lzParse] at h
  split_ifs at h with hempty
  · obtain rfl := Option.some.inj h
    have : Covers input input.length [] := .done
    rwa [hempty] at this
  · obtain rfl := Option.some.inj h
    exact lzLoop_covers _ Chains.empty_below le_rfl (Nat.zero_le _) (by omega)

end Brotli
