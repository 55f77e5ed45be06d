import Picoweb.Lib.Latest
import Picoweb.Picowal.Format

/-!
# The in-memory index

A hash table of 4096 chains. Each entry says where the newest known record of its key lies. An
`Index` carries the two facts that make a chain lookup a map lookup: an entry stands in the chain its
key hashes to, and no chain holds two entries of one key.
-/

namespace Picowal

open ByteFile List

abbrev indexBuckets : ℕ := 4096

/-- `picowal_index_entry_t`, less its chain link. -/
structure IndexEntry where
  key : UInt32
  segId : UInt32
  offset : ℕ
  len : UInt32
  seq : UInt64
  tombstone : Bool
  deriving DecidableEq, Repr

/-- The rank of an entry among the versions of its key. -/
abbrev IndexEntry.stamp (e : IndexEntry) : ℕ := e.seq.toNat

def bucketIdx (key : UInt32) : Fin indexBuckets :=
  Fin.ofNat indexBuckets (metalFnv1a (leBytes 4 key.toNat) &&& 4095).toNat

structure Index where
  buckets : Fin indexBuckets → List IndexEntry
  placed : ∀ b, ∀ e ∈ buckets b, bucketIdx e.key = b
  nodup : ∀ b, ((buckets b).map IndexEntry.key).Nodup

namespace Index

/-- `clear_index`. -/
def clear : Index where
  buckets := fun _ => []
  placed := by simp
  nodup := by simp

/-- `index_find`. -/
def find (idx : Index) (key : UInt32) : Option IndexEntry :=
  (idx.buckets (bucketIdx key)).find? fun e => e.key == key

/-- The chain after `index_upsert`: an entry of the key is overwritten unless it is newer, and a new
key goes to the head. -/
def upsertChain (chain : List IndexEntry) (e : IndexEntry) : List IndexEntry :=
  if (chain.find? fun x => x.key == e.key).isSome then
    chain.map fun x => if x.key = e.key ∧ x.seq ≤ e.seq then e else x
  else e :: chain

lemma map_key_upsertChain (chain : List IndexEntry) (e : IndexEntry) :
    (upsertChain chain e).map IndexEntry.key = chain.map IndexEntry.key ∨
      ((upsertChain chain e).map IndexEntry.key = e.key :: chain.map IndexEntry.key ∧
        e.key ∉ chain.map IndexEntry.key) := by
  unfold upsertChain
  split_ifs with h
  · left
    rw [map_map]
    apply map_congr_left
    intro x _
    simp only [Function.comp_apply]
    split_ifs with hx
    · exact hx.1.symm
    · rfl
  · right
    refine ⟨rfl, ?_⟩
    intro hmem
    obtain ⟨x, hx, hxe⟩ := mem_map.mp hmem
    apply h
    rw [find?_isSome]
    exact ⟨x, hx, by simpa using hxe⟩

/-- `index_upsert`. -/
def upsert (idx : Index) (e : IndexEntry) : Index where
  buckets := Function.update idx.buckets (bucketIdx e.key) (upsertChain (idx.buckets (bucketIdx e.key)) e)
  placed := by
    intro b x hx
    by_cases hb : b = bucketIdx e.key
    · subst hb
      rw [Function.update_self] at hx
      have hk : x.key ∈ (upsertChain (idx.buckets (bucketIdx e.key)) e).map IndexEntry.key :=
        mem_map_of_mem hx
      rcases map_key_upsertChain (idx.buckets (bucketIdx e.key)) e with h | ⟨h, -⟩
      · rw [h] at hk
        obtain ⟨y, hy, hyx⟩ := mem_map.mp hk
        rw [← hyx]
        exact idx.placed _ y hy
      · rw [h] at hk
        rcases mem_cons.mp hk with hk | hk
        · rw [hk]
        · obtain ⟨y, hy, hyx⟩ := mem_map.mp hk
          rw [← hyx]
          exact idx.placed _ y hy
    · rw [Function.update_of_ne hb] at hx
      exact idx.placed b x hx
  nodup := by
    intro b
    by_cases hb : b = bucketIdx e.key
    · subst hb
      rw [Function.update_self]
      rcases map_key_upsertChain (idx.buckets (bucketIdx e.key)) e with h | ⟨h, hn⟩
      · rw [h]
        exact idx.nodup _
      · rw [h]
        exact nodup_cons.mpr ⟨hn, idx.nodup _⟩
    · rw [Function.update_of_ne hb]
      exact idx.nodup b

/-- `index_drop_segment`. -/
def dropSegment (idx : Index) (segId : UInt32) : Index where
  buckets := fun b => (idx.buckets b).filter fun e => e.segId != segId
  placed := by
    intro b e he
    exact idx.placed b e (mem_of_mem_filter he)
  nodup := by
    intro b
    exact (idx.nodup b).sublist (filter_sublist.map _)

/-- The entries in the order the engine's loops over all chains meet them. -/
def entries (idx : Index) : List IndexEntry :=
  (finRange indexBuckets).flatMap idx.buckets

/-! ### Lookups -/

lemma find_eq_some {idx : Index} {k : UInt32} {e : IndexEntry} :
    idx.find k = some e ↔ e ∈ idx.buckets (bucketIdx k) ∧ e.key = k := by
  constructor
  · intro h
    refine ⟨mem_of_find?_eq_some h, ?_⟩
    simpa using find?_some h
  · rintro ⟨hmem, hk⟩
    unfold find
    cases hf : (idx.buckets (bucketIdx k)).find? fun e => e.key == k with
    | none =>
      have := find?_eq_none.mp hf e hmem
      simp [hk] at this
    | some e' =>
      have hk' : e'.key = k := by simpa using find?_some hf
      have hmem' := mem_of_find?_eq_some hf
      rw [inj_on_of_nodup_map (idx.nodup _) hmem' hmem (hk'.trans hk.symm)]

lemma find_key {idx : Index} {k : UInt32} {e : IndexEntry} (h : idx.find k = some e) :
    e.key = k := (find_eq_some.mp h).2

lemma mem_entries {idx : Index} {e : IndexEntry} : e ∈ idx.entries ↔ idx.find e.key = some e := by
  rw [find_eq_some]
  constructor
  · intro h
    obtain ⟨b, -, hb⟩ := mem_flatMap.mp h
    rw [idx.placed b e hb]
    exact ⟨hb, rfl⟩
  · rintro ⟨h, -⟩
    exact mem_flatMap.mpr ⟨_, mem_finRange _, h⟩

lemma nodup_map_key_entries (idx : Index) : (idx.entries.map IndexEntry.key).Nodup := by
  unfold entries
  rw [map_flatMap, nodup_flatMap]
  refine ⟨fun b _ => idx.nodup b, ?_⟩
  refine (nodup_finRange indexBuckets).imp ?_
  -- chains of different buckets share no key, since a key has one bucket
  intro a b hab k hka hkb
  obtain ⟨x, hx, rfl⟩ := mem_map.mp hka
  obtain ⟨y, hy, hxy⟩ := mem_map.mp hkb
  apply hab
  rw [← idx.placed a x hx, ← idx.placed b y hy, hxy]

lemma find?_upsertChain (chain : List IndexEntry) (e : IndexEntry) (k : UInt32) :
    (upsertChain chain e).find? (fun x => x.key == k)
      = Latest.upsert IndexEntry.key IndexEntry.stamp (fun k => chain.find? fun x => x.key == k) e k := by
  have hcomp : (fun x : IndexEntry => x.key == k) ∘
      (fun x => if x.key = e.key ∧ x.seq ≤ e.seq then e else x) = fun x => x.key == k := by
    funext x
    simp only [Function.comp_apply]
    split_ifs with hx
    · simp [hx.1]
    · rfl
  rw [upsertChain, Latest.upsert]
  by_cases hk : k = e.key
  · subst hk
    cases hf : chain.find? fun x => x.key == e.key with
    | none => simp
    | some old =>
      have hold : old.key = e.key := by simpa using find?_some hf
      rw [Option.isSome_some, if_pos rfl, find?_map, hcomp, hf, Option.map_some]
      simp only [hold, true_and, UInt64.le_iff_toNat_le]
      split_ifs <;> rfl
  · split_ifs
    · rw [find?_map, hcomp]
      cases hf : chain.find? fun x => x.key == k with
      | none => rfl
      | some x =>
        have hx : x.key = k := by simpa using find?_some hf
        rw [Option.map_some, if_neg fun h => hk (hx.symm.trans h.1)]
    · rw [find?_cons_of_neg (by simpa using Ne.symm hk)]

/-- On lookups, `index_upsert` is the general newest-version table update. -/
lemma find_upsert (idx : Index) (e : IndexEntry) :
    (idx.upsert e).find = Latest.upsert IndexEntry.key IndexEntry.stamp idx.find e := by
  funext k
  by_cases hb : bucketIdx k = bucketIdx e.key
  · have hbk : (idx.upsert e).buckets (bucketIdx k) = upsertChain (idx.buckets (bucketIdx k)) e := by
      simp [upsert, hb]
    simp only [find, hbk, find?_upsertChain, Latest.upsert]
  · have hk : k ≠ e.key := fun h => hb (by rw [h])
    simp [find, upsert, Latest.upsert, hb, hk]

lemma find_upsert_of_none {idx : Index} {e : IndexEntry} (h : idx.find e.key = none) :
    (idx.upsert e).find e.key = some e := by
  rw [find_upsert]
  simp [Latest.upsert, h]

lemma find_dropSegment (idx : Index) (segId k : UInt32) :
    (idx.dropSegment segId).find k = (idx.find k).filter fun e => e.segId != segId := by
  apply Option.ext
  intro e
  rw [Option.filter_eq_some_iff, find_eq_some, find_eq_some, dropSegment, mem_filter, and_right_comm]

lemma find_foldl_dropSegment (ids : List UInt32) (idx : Index) (k : UInt32) :
    (ids.foldl dropSegment idx).find k = (idx.find k).filter fun e => decide (e.segId ∉ ids) := by
  induction ids generalizing idx with
  | nil => cases h : idx.find k <;> simp [h, Option.filter_some]
  | cons id ids ih =>
    rw [foldl_cons, ih, find_dropSegment]
    cases h : idx.find k with
    | none => rfl
    | some e =>
      by_cases hs : e.segId = id <;> simp [Option.filter_some, hs]

lemma find_foldl_upsert (idx : Index) (es : List IndexEntry) : (es.foldl upsert idx).find
      = es.foldl (Latest.upsert IndexEntry.key IndexEntry.stamp) idx.find := by
  induction es generalizing idx with
  | nil => rfl
  | cons e es ih => rw [foldl_cons, ih, find_upsert, foldl_cons]

/-- The index keeps a newest version of every key with a version in `V`. -/
abbrev Represents (idx : Index) (V : Set IndexEntry) : Prop :=
  Latest.Represents IndexEntry.key IndexEntry.stamp idx.find V

lemma represents_clear : clear.Represents ∅ := Latest.Represents.empty

lemma Represents.foldl_upsert {idx : Index} {V : Set IndexEntry} (h : idx.Represents V)
    (es : List IndexEntry) : (es.foldl Index.upsert idx).Represents (V ∪ {e | e ∈ es}) := by
  unfold Represents
  rw [find_foldl_upsert]
  exact Latest.Represents.foldl_upsert h es

end Index

end Picowal
