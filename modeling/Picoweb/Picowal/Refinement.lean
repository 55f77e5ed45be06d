import Picoweb.Picowal.Restart

/-!
# The engine refines a map

From a freshly formatted volume on, and as long as neither the segment ids nor the seqs wrap, the read
entry points answer like the map that the committed requests make. A segment id that wraps is that of
`base.dat`, and the next record is read from the wrong file.
-/

namespace Picowal

open ByteFile List

/-- The records of a card that are live in the map. -/
def KV.records (m : KV) (card : UInt16) : Set UInt32 :=
  {record | ∃ key, packKey card record = some key ∧ (m key).isSome}

/-- The unbounded list behind `picowal_db_list_records`. -/
def Db.cardRecords (db : Db) (card : UInt16) : List UInt32 :=
  (db.index.entries.filter fun e => !e.tombstone && (keyCard e.key == card.toUInt32)).map fun e => keyRecord e.key

lemma Db.listRecords_eq {db : Db} {card : UInt16} {maxRecords : ℕ} (hcard : card.toNat ≤ cardMax)
    (hroom : (db.cardRecords card).length ≤ maxRecords) : db.listRecords card maxRecords = db.cardRecords card := by
  unfold listRecords
  by_cases h0 : maxRecords = 0
  · subst h0
    have hnil := length_eq_zero_iff.mp (Nat.le_zero.mp hroom)
    simp [hnil]
  · rw [if_neg (by simp [h0, hcard])]
    exact take_of_length_le hroom

lemma Db.nodup_cardRecords (db : Db) (card : UInt16) : (db.cardRecords card).Nodup := by
  unfold cardRecords
  have hnd := db.index.nodup_map_key_entries
  have hsub := hnd.sublist ((filter_sublist (p := fun e => !e.tombstone && (keyCard e.key == card.toUInt32))
      (l := db.index.entries)).map IndexEntry.key)
  rw [List.Nodup, pairwise_map] at hsub ⊢
  refine hsub.imp_of_mem ?_
  -- two keys of one card differ in their records
  intro a b ha hb hne hrec
  have hcard : ∀ {e}, e ∈ db.index.entries.filter (fun e => !e.tombstone && (keyCard e.key == card.toUInt32)) →
      keyCard e.key = card.toUInt32 := by
    intro e he
    have := (mem_filter.mp he).2
    simp only [Bool.and_eq_true, beq_iff_eq] at this
    exact this.2
  apply hne
  have hc := congrArg UInt32.toNat ((hcard ha).trans (hcard hb).symm)
  have hr := congrArg UInt32.toNat hrec
  rw [toNat_keyCard, toNat_keyCard] at hc
  rw [toNat_keyRecord, toNat_keyRecord] at hr
  rw [← UInt32.toNat_inj]
  omega

lemma Db.Clean.mem_cardRecords {db : Db} (hc : db.Clean) {card : UInt16}
    (hcard : card.toNat ≤ cardMax) {record : UInt32} :
    record ∈ db.cardRecords card ↔ record ∈ db.view.records card := by
  have hlive : ∀ {e}, db.index.find e.key = some e → (e.tombstone = false ↔ (db.view e.key).isSome) := by
    intro e he
    rw [← hc.toInv.existsKey_eq_view hc.sealedPos, existsKey, present, he]
    simp
  unfold cardRecords KV.records
  simp only [mem_map, mem_filter, packKey_eq_some, Bool.and_eq_true,
    Bool.not_eq_true', beq_iff_eq]
  constructor
  · rintro ⟨e, ⟨he, ht, hcd⟩, rfl⟩
    exact ⟨e.key, ⟨hcard, hcd, rfl⟩, (hlive (Index.mem_entries.mp he)).mp ht⟩
  · rintro ⟨key, ⟨-, hcd, hr⟩, hsome⟩
    have hpres : db.present key = true := by
      have := hc.toInv.existsKey_eq_view hc.sealedPos key
      rw [hsome] at this
      exact this
    unfold present at hpres
    cases hf : db.index.find key with
    | none => simp [hf] at hpres
    | some e =>
      obtain rfl := Index.find_key hf
      have ht : e.tombstone = false := by simpa [hf] using hpres
      exact ⟨e, ⟨Index.mem_entries.mpr hf, ht, hcd⟩, hr⟩

/-- With enough room, the list is that of the live records, each once. -/
lemma Db.Clean.listRecords {db : Db} (hc : db.Clean) {card : UInt16} {maxRecords : ℕ}
    (hcard : card.toNat ≤ cardMax) (hroom : (db.view.records card).ncard ≤ maxRecords) :
    (db.listRecords card maxRecords).Nodup ∧
      ∀ record, record ∈ db.listRecords card maxRecords ↔ record ∈ db.view.records card := by
  have hnd := db.nodup_cardRecords card
  have hset : db.view.records card = ((db.cardRecords card).toFinset : Set UInt32) := by
    simp [hc.mem_cardRecords hcard]
  have hlen : (db.view.records card).ncard = (db.cardRecords card).length := by
    rw [hset, Set.ncard_coe_finset, toFinset_card_of_nodup hnd]
  rw [listRecords_eq hcard (hlen ▸ hroom)]
  exact ⟨hnd, fun record => hc.mem_cardRecords hcard⟩

/-! ### Refinement -/

/-- The engine is clean and shows the map. -/
def Refines (s : Db × KV) : Prop := s.1.Clean ∧ s.1.view = s.2

lemma Refines.step {s : Db × KV} {op : Op} (h : Refines s) (hroom : s.1.Room op) : Refines (stepWithMap s op) := by
  obtain ⟨hc, hv⟩ := h.1.step hroom
  refine ⟨hc, ?_⟩
  show (s.1.step op).1.view = s.2.write _
  rw [hv, h.2]

theorem engine_refines_map (segmentBytes : UInt64) (h512 : segmentBytes % 512 = 0)
    (hne : segmentBytes ≠ 0) (names : List UInt32) (hnames : (formatDisk Disk.empty segmentBytes).Listing names) :
    ∃ db₀, Db.open Disk.empty names segmentBytes true = .ok db₀ ∧
      ∀ ops, Run.Guarded stepWithMap (fun s op => s.1.Room op) (db₀, fun _ => none) ops →
        let s := ops.foldl stepWithMap (db₀, fun _ => none)
        (∀ key outLen, s.1.getKey key outLen = s.2.get key outLen) ∧ (∀ key, s.1.existsKey key = (s.2 key).isSome) ∧
          ∀ card maxRecords, card.toNat ≤ cardMax → (s.2.records card).ncard ≤ maxRecords →
            (s.1.listRecords card maxRecords).Nodup ∧
              ∀ record, record ∈ s.1.listRecords card maxRecords ↔ record ∈ s.2.records card := by
  refine ⟨_, Db.open_format h512 hne hnames, ?_⟩
  intro ops hops
  have hrun : Refines (ops.foldl stepWithMap (Db.fresh segmentBytes, fun _ => none)) :=
    hops.invariant (fun s op hs hroom => Refines.step hs hroom)
      ⟨Db.clean_fresh segmentBytes, Db.view_fresh segmentBytes⟩
  obtain ⟨hc, hv⟩ := hrun
  refine ⟨?_, ?_, ?_⟩
  · intro key outLen
    rw [hc.toInv.getKey_eq_view hc.sealedPos, hv]
  · intro key
    rw [hc.toInv.existsKey_eq_view hc.sealedPos, hv]
  · intro card maxRecords hcard hroom
    rw [← hv] at hroom ⊢
    exact hc.listRecords hcard hroom

theorem engine_refines_map_one_put : ∃ db₀, Db.open Disk.empty [1] 5120 true = .ok db₀ ∧
      (db₀.step (.mutate (.put 7 [1, 2, 3] false) .local)).1.getKey 7 3
        = (stepWithMap (db₀, fun _ => none) (.mutate (.put 7 [1, 2, 3] false) .local)).2.get 7 3 := by
  obtain ⟨db₀, hopen, hrun⟩ :=
    engine_refines_map 5120 (by decide) (by decide) [1] (Db.listing_format 5120)
  refine ⟨db₀, hopen, ?_⟩
  have hfresh := @Db.open_format 5120 (by decide) (by decide) _ (Db.listing_format 5120)
  rw [hopen] at hfresh
  cases hfresh
  exact (hrun [.mutate (.put 7 [1, 2, 3] false) .local] ⟨⟨by decide, by decide⟩, trivial⟩).1 7 3

/-- A maximal put that is given the segment id of `base.dat` cannot be read back. -/
lemma Db.FilledBy.getKey_wrapped {keys : List UInt32} {db : Db} (h : FilledBy keys db)
    (hlen : keys.length + 1 = 2 ^ 32) {key : UInt32} (hkey : key ∉ keys) :
    (db.step (maxPut key)).1.getKey key dataMax = .error .unset := by
  obtain ⟨happ, -, -, -, hidx, hbase, -⟩ := h.step_facts key
  refine @getKey_of_empty_base db _ key ?_ ?_
  · rw [happ.index, hidx, ← (h.wrapped hlen).2]
    exact Index.find_upsert_of_none (h.absent key hkey)
  · rw [happ.base, hbase, h.base]

/-- After as many maximal puts as there are segment ids but one, the next put gets the id of
`base.dat`: it is acknowledged, and its key cannot be read. -/
theorem segment_id_wrap_hides_put : Db.open Disk.empty [1] 5120 true = .ok (Db.fresh 5120) ∧ ∃ ops : List Op,
      (ops.foldl stepWithMap (Db.fresh 5120, fun _ => none)).1.getKey 1 dataMax
        ≠ (ops.foldl stepWithMap (Db.fresh 5120, fun _ => none)).2.get 1 dataMax := by
  refine ⟨Db.open_format (by decide) (by decide) (Db.listing_format 5120), ?_⟩
  obtain ⟨keys, hplaced, hlen, hnot⟩ := Db.placedBy_all_ids
  refine ⟨keys.map maxPut ++ [maxPut 1], ?_⟩
  rw [foldl_append, foldl_cons, foldl_nil]
  set s := (keys.map maxPut).foldl stepWithMap (Db.fresh 5120, fun _ => none)
  have hrun : s.1 = (Db.fresh 5120).run (keys.map maxPut) := (foldl_hom Prod.fst fun _ _ => rfl).symm
  rw [← hrun] at hplaced
  have hget := hplaced.toFilledBy.getKey_wrapped hlen hnot
  obtain ⟨-, hreq, -⟩ := hplaced.step_facts 1
  have hmap : (stepWithMap s (maxPut 1)).2.get 1 dataMax = .ok maxBlob := by
    simp [stepWithMap, hreq, KV.write, KV.get, Req.effect, length_maxBlob]
  rw [hmap]
  show (s.1.step (maxPut 1)).1.getKey 1 dataMax ≠ _
  rw [hget]
  simp

end Picowal
