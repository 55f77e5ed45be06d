import Mathlib.Data.List.FinRange
import Mathlib.Data.List.Nodup
import Mathlib.Tactic

/-!
# Hash tables with chains

A table of chains, one for each hash value. An entry stands in the chain of its key and no chain holds
a key twice, so that a search of one chain is a lookup in the table.
-/

namespace HashChains

open List

variable {K V : Type*} [DecidableEq K] {n : ℕ} {hash : K → Fin n}

structure Table (hash : K → Fin n) (V : Type*) where
  chains : Fin n → List (K × V)
  placed : ∀ b, ∀ e ∈ chains b, hash e.1 = b
  nodup : ∀ b, ((chains b).map Prod.fst).Nodup

namespace Table

def empty : Table hash V where
  chains := fun _ => []
  placed := by simp
  nodup := by simp

/-- The chain with `v` under `k`: in place of what `k` had, or at the head. -/
def upsertChain (chain : List (K × V)) (k : K) (v : V) : List (K × V) :=
  if k ∈ chain.map Prod.fst then chain.map fun e => if e.1 = k then (k, v) else e
  else (k, v) :: chain

lemma map_fst_replace (chain : List (K × V)) (k : K) (v : V) :
    (chain.map fun e => if e.1 = k then (k, v) else e).map Prod.fst = chain.map Prod.fst := by
  rw [map_map]
  apply map_congr_left
  intro e _
  by_cases h : e.1 = k <;> simp [h]

lemma mem_upsertChain {chain : List (K × V)} {k : K} {v : V} {e : K × V} :
    e ∈ upsertChain chain k v ↔ e = (k, v) ∨ e ∈ chain ∧ e.1 ≠ k := by
  rw [upsertChain]
  split_ifs with hk
  · obtain ⟨e₀, he₀, hek⟩ := mem_map.1 hk
    rw [mem_map]
    constructor
    · rintro ⟨x, hx, rfl⟩
      by_cases hxk : x.1 = k
      · simp [hxk]
      · simp [hxk, hx]
    · rintro (rfl | ⟨he, hne⟩)
      · exact ⟨e₀, he₀, by simp [hek]⟩
      · exact ⟨e, he, by simp [hne]⟩
  · rw [mem_cons]
    constructor
    · rintro (rfl | he)
      · simp
      · refine .inr ⟨he, ?_⟩
        rintro rfl
        exact hk (mem_map_of_mem he)
    · rintro (rfl | ⟨he, -⟩)
      · simp
      · exact .inr he

lemma nodup_upsertChain {chain : List (K × V)} (h : (chain.map Prod.fst).Nodup) (k : K) (v : V) :
    ((upsertChain chain k v).map Prod.fst).Nodup := by
  rw [upsertChain]
  split_ifs with hk
  · rwa [map_fst_replace]
  · exact nodup_cons.2 ⟨hk, h⟩

def upsert (t : Table hash V) (k : K) (v : V) : Table hash V where
  chains := Function.update t.chains (hash k) (upsertChain (t.chains (hash k)) k v)
  placed := by
    intro b e he
    by_cases hb : b = hash k
    · subst hb
      rw [Function.update_self, mem_upsertChain] at he
      rcases he with rfl | ⟨he, -⟩
      · rfl
      · exact t.placed _ e he
    · rw [Function.update_of_ne hb] at he
      exact t.placed b e he
  nodup := by
    intro b
    by_cases hb : b = hash k
    · subst hb
      rw [Function.update_self]
      exact nodup_upsertChain (t.nodup _) k v
    · rw [Function.update_of_ne hb]
      exact t.nodup b

/-- The value the chain of `k` holds for it. -/
def find (t : Table hash V) (k : K) : Option V := (t.chains (hash k)).lookup k

/-- The entries in the order in which a loop over all chains meets them. -/
def entries (t : Table hash V) : List (K × V) := (finRange n).flatMap t.chains

lemma lookup_eq_some_iff {chain : List (K × V)} (h : (chain.map Prod.fst).Nodup) {k : K} {v : V} :
    chain.lookup k = some v ↔ (k, v) ∈ chain := by
  induction chain with
  | nil => simp
  | cons e chain ih =>
    obtain ⟨k', v'⟩ := e
    rw [map_cons, nodup_cons] at h
    rw [lookup_cons]
    by_cases hk : k = k'
    · subst hk
      have hno : (k, v) ∉ chain := fun hm => h.1 (mem_map.2 ⟨(k, v), hm, rfl⟩)
      simp [hno, eq_comm]
    · have hkb : (k == k') = false := by simpa using hk
      simp [hkb, hk, ih h.2]

lemma find_eq_some_iff {t : Table hash V} {k : K} {v : V} : t.find k = some v ↔ (k, v) ∈ t.chains (hash k) :=
  lookup_eq_some_iff (t.nodup _)

lemma mem_entries {t : Table hash V} {k : K} {v : V} : (k, v) ∈ t.entries ↔ t.find k = some v := by
  rw [find_eq_some_iff, entries, mem_flatMap]
  constructor
  · rintro ⟨b, -, hb⟩
    obtain rfl : hash k = b := t.placed b _ hb
    exact hb
  · intro h
    exact ⟨hash k, mem_finRange _, h⟩

@[simp] lemma find_upsert_self (t : Table hash V) (k : K) (v : V) : (t.upsert k v).find k = some v := by
  rw [find_eq_some_iff]
  simp [upsert, mem_upsertChain]

@[simp] lemma find_upsert_of_ne (t : Table hash V) {k k' : K} (h : k' ≠ k) (v : V) :
    (t.upsert k v).find k' = t.find k' := by
  ext w
  rw [find_eq_some_iff, find_eq_some_iff, upsert]
  by_cases hb : hash k' = hash k
  · simp [hb, mem_upsertChain, h]
  · simp [hb]

lemma filter_upsertChain {p : K × V → Bool} {k : K} (hp : ∀ v, p (k, v) = false)
    (chain : List (K × V)) (v : V) : (upsertChain chain k v).filter p = chain.filter p := by
  have hmap : (chain.map fun e => if e.1 = k then (k, v) else e).filter p = chain.filter p := by
    induction chain with
    | nil => rfl
    | cons e chain ih =>
      obtain ⟨k', v'⟩ := e
      rw [map_cons, filter_cons, filter_cons, ih]
      by_cases hk : k' = k
      · subst hk
        simp [hp]
      · simp [hk]
  rw [upsertChain]
  split_ifs
  · exact hmap
  · simp [hp]

/-- A listing that leaves out a key does not see a write of it. -/
lemma filter_entries_upsert {p : K × V → Bool} {k : K} (hp : ∀ v, p (k, v) = false) (t : Table hash V)
    (v : V) : (t.upsert k v).entries.filter p = t.entries.filter p := by
  rw [entries, entries, filter_flatMap, filter_flatMap]
  congr 1
  funext b
  by_cases hb : b = hash k
  · subst hb
    simp [upsert, filter_upsertChain hp]
  · simp [upsert, hb]

end Table

end HashChains
