import Mathlib.Order.Basic
import Mathlib.Data.Set.Insert
import Mathlib.Tactic

/-!
# Tables that keep the newest version

A store holds many versions of one key, each with a stamp, and a lookup table keeps one of them.
`Represents find V` says that the table `find` keeps, for every key with a version in `V`, one that no
other version of the key outranks. The order in which the table was fed does not matter, and two
versions with one key and one stamp may share the place.
-/

namespace Latest

open List

variable {K E S : Type*} [LinearOrder S] {key : E → K} {stamp : E → S}

/-- Enter `e` unless the table holds a version of its key with a higher stamp. -/
def upsert [DecidableEq K] (key : E → K) (stamp : E → S) (find : K → Option E) (e : E) : K → Option E :=
  fun k =>
    if k = key e then
      match find k with
      | some e' => if stamp e' ≤ stamp e then some e else some e'
      | none => some e
    else find k

/-- The table keeps a top version of every key that has one in `V`, and nothing else. -/
structure Represents (key : E → K) (stamp : E → S) (find : K → Option E) (V : Set E) : Prop where
  sound : ∀ {k e}, find k = some e → e ∈ V ∧ key e = k
  top : ∀ e ∈ V, ∃ e', find (key e) = some e' ∧ stamp e ≤ stamp e'

lemma Represents.empty : Represents key stamp (fun _ => none) ∅ :=
  ⟨fun h => by simp at h, fun e he => by simp at he⟩

variable {V : Set E} {find : K → Option E}

lemma Represents.congr {W : Set E} (h : Represents key stamp find V)
    (hVW : V = W) : Represents key stamp find W := hVW ▸ h

lemma Represents.upsert [DecidableEq K] (h : Represents key stamp find V)
    (e : E) : Represents key stamp (upsert key stamp find e) (insert e V) := by
  constructor
  · intro k e' he'
    unfold Latest.upsert at he'
    split_ifs at he' with hk
    · split at he'
      · rename_i old hold
        split_ifs at he' with hle
        · cases he'
          exact ⟨Set.mem_insert _ _, hk.symm⟩
        · cases he'
          exact ⟨Set.mem_insert_of_mem _ (h.sound hold).1, (h.sound hold).2⟩
      · cases he'
        exact ⟨Set.mem_insert _ _, hk.symm⟩
    · exact ⟨Set.mem_insert_of_mem _ (h.sound he').1, (h.sound he').2⟩
  · intro v hv
    unfold Latest.upsert
    rcases Set.mem_insert_iff.mp hv with rfl | hv
    · cases hold : find (key v) with
      | none => exact ⟨v, by simp, le_rfl⟩
      | some old =>
        by_cases hle : stamp old ≤ stamp v
        · exact ⟨v, by simp [hle], le_rfl⟩
        · exact ⟨old, by simp [hle], (not_le.mp hle).le⟩
    · obtain ⟨old, hold, hvo⟩ := h.top v hv
      by_cases hk : key v = key e
      · by_cases hle : stamp old ≤ stamp e
        · exact ⟨e, by simp [← hk, hold, hle], hvo.trans hle⟩
        · exact ⟨old, by simp [← hk, hold, hle], hvo⟩
      · exact ⟨old, by simp [hk, hold], hvo⟩

lemma Represents.foldl_upsert [DecidableEq K] (h : Represents key stamp find V) (es : List E) :
    Represents key stamp (es.foldl (Latest.upsert key stamp) find) (V ∪ {e | e ∈ es}) := by
  induction es generalizing find V with
  | nil => simpa using h
  | cons e es ih =>
    refine (ih (h.upsert e)).congr ?_
    ext x
    simp only [Set.mem_union, Set.mem_insert_iff, Set.mem_ofPred_eq, mem_cons]
    tauto

/-- A version that outranks all of `V` takes its key's place. -/
lemma Represents.upsert_of_top [DecidableEq K]
    (h : Represents key stamp find V) {e : E} (he : ∀ v ∈ V, stamp v < stamp e) :
    Latest.upsert key stamp find e = Function.update find (key e) (some e) := by
  funext k
  unfold Latest.upsert
  by_cases hk : k = key e
  · subst hk
    simp only [Function.update_self]
    cases hold : find (key e) with
    | none => rfl
    | some old => simp [(he old (h.sound hold).1).le]
  · simp [hk]

lemma foldl_upsert_of_ne [DecidableEq K] {es : List E} {k : K}
    (h : ∀ e ∈ es, key e ≠ k) : es.foldl (upsert key stamp) find k = find k := by
  induction es generalizing find with
  | nil => rfl
  | cons e es ih =>
    rw [foldl_cons, ih fun x hx => h x (mem_cons_of_mem _ hx)]
    have hne : k ≠ key e := fun hk => h e mem_cons_self hk.symm
    simp [upsert, hne]

/-- A version whose key is new to the table, and the only one of its key, enters it. -/
lemma foldl_upsert_of_new [DecidableEq K] {es : List E} {e : E}
    (hnd : (es.map key).Nodup) (he : e ∈ es) (hnew : find (key e) = none) :
    es.foldl (upsert key stamp) find (key e) = some e := by
  induction es generalizing find with
  | nil => simp at he
  | cons x es ih =>
    rw [map_cons, nodup_cons] at hnd
    obtain ⟨hx, hnd⟩ := hnd
    rw [foldl_cons]
    rcases mem_cons.mp he with rfl | he
    · have hne : ∀ y ∈ es, key y ≠ key e := by
        intro y hy hk
        exact hx (hk ▸ mem_map_of_mem hy)
      rw [foldl_upsert_of_ne hne]
      simp [upsert, hnew]
    · apply ih hnd he
      have hne : key e ≠ key x := by
        intro hk
        exact hx (hk ▸ mem_map_of_mem he)
      simpa [upsert, hne] using hnew

/-- Versions that outrank all of `V` and each other in order take their places in order. -/
lemma Represents.foldl_upsert_of_top [DecidableEq K]
    (h : Represents key stamp find V) {es : List E} (hes : ∀ e ∈ es, ∀ v ∈ V, stamp v < stamp e)
    (hsorted : es.Pairwise fun a b => stamp a < stamp b) :
    es.foldl (Latest.upsert key stamp) find = es.foldl (fun f e => Function.update f (key e) (some e)) find := by
  induction es generalizing find V with
  | nil => rfl
  | cons e es ih =>
    obtain ⟨hlt, hsorted⟩ := pairwise_cons.mp hsorted
    have htop := h.upsert_of_top (hes e mem_cons_self)
    rw [foldl_cons, foldl_cons, ← htop]
    refine ih (h.upsert e) ?_ hsorted
    intro e' he' v hv
    rcases Set.mem_insert_iff.mp hv with rfl | hv
    · exact hlt e' he'
    · exact hes e' (mem_cons_of_mem _ he') v hv

/-- Writing entries and then looking up values is writing the values. -/
lemma bind_foldl_update [DecidableEq K] {α : Type*} (val : E → Option α) (es : List E) (find : K → Option E) :
    (fun k => ((es.foldl (fun f e => Function.update f (key e) (some e)) find) k).bind val)
      = es.foldl (fun m e => Function.update m (key e) (val e)) fun k => (find k).bind val := by
  induction es generalizing find with
  | nil => rfl
  | cons e es ih =>
    rw [foldl_cons, foldl_cons, ih]
    congr 1
    funext k
    by_cases hk : k = key e
    · subst hk
      simp
    · simp [hk]

variable {α : Type*} {f g : K → Option E} {W : Set E}

/-- Some version of the second set is as high at a key as any of the first. -/
lemma Represents.le_of_dominated (hf : Represents key stamp f V) (hg : Represents key stamp g W) {k : K}
    (hVW : ∀ v ∈ V, key v = k → ∃ w ∈ W, key w = k ∧ stamp v ≤ stamp w) {e : E} (he : f k = some e) :
    ∃ e', g k = some e' ∧ stamp e ≤ stamp e' := by
  obtain ⟨heV, hek⟩ := hf.sound he
  obtain ⟨w, hwW, hwk, hle⟩ := hVW e heV hek
  obtain ⟨e', he', hle'⟩ := hg.top w hwW
  rw [hwk] at he'
  exact ⟨e', he', hle.trans hle'⟩

/-- Tables of two version sets that dominate each other at a key hold the same value of it, provided
versions of the key with one stamp have one value. -/
lemma Represents.map_eq (hf : Represents key stamp f V) (hg : Represents key stamp g W) (val val' : E → α) (k : K)
    (hVW : ∀ v ∈ V, key v = k → ∃ w ∈ W, key w = k ∧ stamp v ≤ stamp w)
    (hWV : ∀ w ∈ W, key w = k → ∃ v ∈ V, key v = k ∧ stamp w ≤ stamp v)
    (hval : ∀ v ∈ V, ∀ w ∈ W, key v = k → key w = k → stamp v = stamp w → val v = val' w) :
    (f k).map val = (g k).map val' := by
  cases hfk : f k with
  | none =>
    cases hgk : g k with
    | none => rfl
    | some w =>
      obtain ⟨_, h, _⟩ := hg.le_of_dominated hf hWV hgk
      simp [hfk] at h
  | some v =>
    obtain ⟨w, hgk, hvw⟩ := hf.le_of_dominated hg hVW hfk
    obtain ⟨v', hfk', hwv⟩ := hg.le_of_dominated hf hWV hgk
    rw [hfk] at hfk'
    cases hfk'
    obtain ⟨hvV, hvk⟩ := hf.sound hfk
    obtain ⟨hwW, hwk⟩ := hg.sound hgk
    rw [hgk, Option.map_some, Option.map_some, hval v hvV w hwW hvk hwk (le_antisymm hvw hwv)]

lemma Represents.map_congr (hf : Represents key stamp f V) (hg : Represents key stamp g V) (val val' : E → α) (k : K)
    (hval : ∀ v ∈ V, ∀ w ∈ V, key v = k → key w = k → stamp v = stamp w → val v = val' w) :
    (f k).map val = (g k).map val' :=
  hf.map_eq hg val val' k (fun v hv hk => ⟨v, hv, hk, le_rfl⟩) (fun v hv hk => ⟨v, hv, hk, le_rfl⟩) hval

end Latest
