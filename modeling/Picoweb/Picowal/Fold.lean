import Picoweb.Picowal.View

/-!
# A checkpoint keeps the map

The rewritten `base.dat` holds a copy of every live record outside the leading segment. Versions in
the leading segment are newer than all others, so dropping what the fold replaced, tombstones
included, changes no answer.
-/

namespace Picowal

open ByteFile List

lemma perm_foldInsert (v : IndexEntry) (xs : List IndexEntry) : (foldInsert v xs).Perm (v :: xs) := by
  induction xs with
  | nil => exact List.Perm.refl _
  | cons x xs ih =>
    unfold foldInsert
    split_ifs
    · exact List.Perm.refl _
    · exact (ih.cons x).trans (List.Perm.swap v x xs)

lemma perm_foldSort (xs : List IndexEntry) : (foldSort xs).Perm xs := by
  simpa [foldSort] using Run.perm_foldl_insert (fun acc v => perm_foldInsert v acc) xs []

variable {db : Db} {e : IndexEntry}

namespace Db

lemma mem_foldSelection : e ∈ db.foldSelection ↔
      db.index.find e.key = some e ∧ e.tombstone = false ∧ e.segId ≠ db.leadingWalId := by
  rw [foldSelection_eq, (perm_foldSort _).mem_iff, mem_filter, Index.mem_entries]
  simp

lemma nodup_key_foldSelection (db : Db) : (db.foldSelection.map IndexEntry.key).Nodup := by
  rw [foldSelection_eq, ((perm_foldSort _).map _).nodup_iff]
  exact db.index.nodup_map_key_entries.sublist (filter_sublist.map _)

/-! ### Versions of the leading segment are the newest -/

/-- Versions of the leading segment are newer than all others. -/
def Ordered (db : Db) : Prop :=
  ∀ e ∈ db.settled, ∀ e' ∈ db.leadFrame.applied, e.stamp < e'.stamp

lemma Appended.ordered {db' : Db} {rs : List (ℕ × Rec)} {committed : Bool}
    (h : Appended db rs committed db') (hi : db.Inv) (ho : db.Ordered) : db'.Ordered := by
  intro e he e' he'
  rw [h.settled hi] at he
  rw [h.applied hi, mem_append] at he'
  rcases he' with he' | he'
  · exact ho e he e' he'
  · cases committed with
    | true => exact (hi.seq e (.inl he)).trans_le (h.stamp_mem he').1
    | false => simp at he'

lemma Rotated.ordered {db' : Db} (h : Rotated db db') : db'.Ordered := by
  intro e _ e' he'
  rw [leadFrame, h.leadRecs] at he'
  simp [frame, Frame.start] at he'

lemma Inv.segId_ne_of_settled (hi : db.Inv) (he : e ∈ db.settled) : e.segId ≠ db.leadingWalId := by
  rcases mem_settled he with ⟨hs, -⟩ | ⟨hs, -⟩
  · rw [hs]
    exact hi.leadPos.symm
  · exact hi.sealed_ne hs

lemma settled_of_segId_ne (he : e ∈ db.versions) (hs : e.segId ≠ db.leadingWalId) : e ∈ db.settled := by
  rcases he with he | he
  · exact he
  · exact absurd (mem_leadFrame he).1 hs

/-! ### The new base -/

/-- The copy a checkpoint makes of a record. -/
def copyOf (e : IndexEntry) (data : Bytes) : Rec := Rec.mk' e.key data recTxnCommit e.seq e.seq

lemma copyOf_commit (e : IndexEntry) (data : Bytes) : (copyOf e data).commit = true := by
  show (recTxnCommit &&& recTxnCommit != 0) = true
  decide

lemma copyOf_tombstone (e : IndexEntry) (data : Bytes) : (copyOf e data).tombstone = false := by
  show (recTxnCommit &&& recTombstone != 0) = false
  decide

end Db

@[simp] lemma map_snd_placeRecs (w : ℕ) (recs : List Rec) : (placeRecs w recs).map Prod.snd = recs := by
  induction recs generalizing w with
  | nil => rfl
  | cons r recs ih => rw [placeRecs, map_cons, ih]

/-- The entries of the placed records, told from what each was made of. -/
lemma map_zip_placeRecs {g : IndexEntry → Rec} {segId : UInt32} {entry : IndexEntry → ℕ → IndexEntry}
    {l : List IndexEntry} (h : ∀ e ∈ l, ∀ w, (g e).entry segId w = entry e w) {w : ℕ} :
    ((l.zip (placeRecs w (l.map g))).map fun p => entry p.1 p.2.1)
      = (placeRecs w (l.map g)).map fun p => p.2.entry segId p.1 := by
  induction l generalizing w with
  | nil => rfl
  | cons e l ih =>
    obtain ⟨he, hl⟩ := forall_mem_cons.1 h
    rw [map_cons, placeRecs, zip_cons_cons, map_cons, map_cons, ih hl, he]

/-- Records written one after the other form a log. -/
lemma isLog_placeRecs {f rest : Bytes} {recs : List Rec} {off : ℕ} (hv : ∀ r ∈ recs, r.Valid)
    (h : f.drop off = recs.flatMap Rec.encode ++ rest) (hoff : off ≤ f.length) :
    IsLog f off (placeRecs off recs) (f.length - rest.length) := by
  induction recs generalizing off with
  | nil =>
    have := congrArg List.length h
    simp only [flatMap_nil, nil_append, length_drop] at this
    show off = _
    omega
  | cons r recs ih =>
    have hr := hv r mem_cons_self
    rw [flatMap_cons, append_assoc] at h
    have hlen := congrArg List.length h
    simp only [length_drop, length_append, hr.length_encode] at hlen
    refine ⟨rfl, recordAt_of_drop hr h hoff, ?_⟩
    refine ih (fun x hx => hv x (mem_cons_of_mem _ hx)) ?_ (by omega)
    rw [← drop_drop, h, ← hr.length_encode, drop_left]

namespace Db

def copies (db : Db) : List (ℕ × Rec) :=
  placeRecs segDataStart (db.foldSelection.map fun e =>
    copyOf e ((db.readEntry e.key e).toOption.getD []))

/-- The copy of an entry, with the bytes it reads as. -/
def copyRec (db : Db) (e : IndexEntry) : Rec := copyOf e ((db.readEntry e.key e).toOption.getD [])

lemma map_snd_copies (db : Db) : db.copies.map Prod.snd = db.foldSelection.map db.copyRec := map_snd_placeRecs _ _

def copyBase (db : Db) : Bytes := db.newBase (db.copies.map Prod.snd)

section Copies

variable {db : Db} (hi : db.Inv) (hsealed : baseSegId ∉ db.sealedWals)

include hi hsealed

/-- Every selected entry has a copy that holds its bytes. -/
lemma Inv.copy_spec (he : e ∈ db.foldSelection) :
    ∃ data, db.readEntry e.key e = .ok data ∧ db.copyRec e = copyOf e data ∧ (copyOf e data).hdr.len = e.len ∧
      (copyOf e data).Valid ∧ db.foldRecord e = some (copyOf e data) := by
  obtain ⟨hfind, hlive, -⟩ := mem_foldSelection.mp he
  obtain ⟨f, r, hf, hr, her, hlen, hread⟩ := hi.live_record hsealed (hi.represents.sound hfind).1 hlive
  obtain ⟨⟨raw, hraw, hdec⟩, hpay, hv, -⟩ := readRecord_eq_some.mp hr
  have hkey : e.key = r.hdr.key := by rw [her]; rfl
  have hseq : e.seq = r.hdr.seq := by rw [her]; rfl
  refine ⟨r.payload, hread, by rw [copyRec, hread]; rfl, hlen ▸ hv.marked_len, ?_, ?_⟩
  · exact Rec.mk'_valid (by rw [hv.payload_len]; exact hv.len_le) (by decide)
  · simp only [foldRecord, hf, preadFull, hraw, hdec, hv.magic, ← hkey, ← hlen,
      ← hseq, ne_eq]
    rw [hlen, hpay]
    rfl

lemma Inv.mapM_foldRecord : db.foldSelection.mapM db.foldRecord = some (db.copies.map Prod.snd) := by
  have hmap : ∀ l ⊆ db.foldSelection, l.mapM db.foldRecord = some (l.map db.copyRec) := by
    intro l
    induction l with
    | nil => intro _; rfl
    | cons e l ih =>
      intro hl
      obtain ⟨he, hl⟩ := cons_subset.1 hl
      obtain ⟨data, -, hcopy, -, -, hrec⟩ := hi.copy_spec hsealed he
      rw [mapM_cons, hrec, ih hl, map_cons, hcopy]
      rfl
  rw [map_snd_copies]
  exact hmap _ (Subset.refl _)

lemma Inv.copies_valid {r : Rec} (hr : r ∈ db.copies.map Prod.snd) :
    r.Valid ∧ r.commit = true ∧ ∃ e ∈ db.foldSelection, ∃ data,
      db.readEntry e.key e = .ok data ∧ (copyOf e data).hdr.len = e.len ∧ r = copyOf e data := by
  rw [map_snd_copies] at hr
  obtain ⟨e, he, rfl⟩ := mem_map.mp hr
  obtain ⟨data, hdata, hcopy, hlen, hv, -⟩ := hi.copy_spec hsealed he
  rw [hcopy]
  exact ⟨hv, copyOf_commit e data, e, he, data, hdata, hlen, rfl⟩

lemma Inv.isLog_copyBase : IsLog db.copyBase segDataStart db.copies db.copyBase.length := by
  have hdrop : db.copyBase.drop segDataStart = (db.copies.map Prod.snd).flatMap Rec.encode ++ [] := by
    rw [append_nil]
    exact drop_left' (by simp)
  have hlen : segDataStart ≤ db.copyBase.length := by
    rw [copyBase, newBase, length_append, length_newFile]
    exact Nat.le_add_right _ _
  have hv : ∀ r ∈ db.copies.map Prod.snd, r.Valid := fun r hr => (hi.copies_valid hsealed hr).1
  have hlog := isLog_placeRecs hv hdrop hlen
  rwa [map_snd_copies] at hlog

/-- A scan of the new base finds the copies. -/
lemma Inv.segEntries_copyBase :
    segEntries baseSegId db.copyBase = db.copies.map fun p => p.2.entry baseSegId p.1 := by
  rw [segEntries, (hi.isLog_copyBase hsealed).walk_eq_self le_rfl]
  have hcommit : ∀ p ∈ db.copies, p.2.commit = true := by
    intro p hp
    have hmem : p.2 ∈ db.copies.map Prod.snd := mem_map_of_mem hp
    exact (hi.copies_valid hsealed hmem).2.1
  exact Frame.foldl_single rfl hcommit

/-- An entry of the new base stands for a selected entry. -/
lemma Inv.mem_copyEntries {x : IndexEntry} (hx : x ∈ segEntries baseSegId db.copyBase) :
    ∃ e ∈ db.foldSelection, x.key = e.key ∧ x.stamp = e.stamp ∧ x.segId = baseSegId ∧
      x.tombstone = false ∧ x.len = e.len ∧ ∃ data, db.readEntry e.key e = .ok data ∧
        recordAt db.copyBase x.offset = some (copyOf e data) ∧
        x = (copyOf e data).entry baseSegId x.offset := by
  rw [hi.segEntries_copyBase hsealed] at hx
  obtain ⟨⟨o, r⟩, hp, rfl⟩ := mem_map.mp hx
  have hmem : r ∈ db.copies.map Prod.snd := mem_map.mpr ⟨(o, r), hp, rfl⟩
  obtain ⟨-, -, e, he, data, hdata, hlen, rfl⟩ := hi.copies_valid hsealed hmem
  exact ⟨e, he, rfl, rfl, rfl, copyOf_tombstone e data, hlen, data, hdata, ((hi.isLog_copyBase hsealed).mem hp).1, rfl⟩

lemma Inv.map_key_copyEntries : (segEntries baseSegId db.copyBase).map IndexEntry.key
      = db.foldSelection.map IndexEntry.key := by
  have hkey : ((fun p : ℕ × Rec => (p.2.entry baseSegId p.1).key)) = (fun r : Rec => r.hdr.key) ∘ Prod.snd := rfl
  rw [hi.segEntries_copyBase hsealed, map_map]
  show db.copies.map (fun p => (p.2.entry baseSegId p.1).key) = _
  rw [hkey, ← map_map, map_snd_copies, map_map]
  rfl

/-- The entries the checkpoint puts into the index are those of the new base. -/
lemma Inv.foldedIndex_eq : db.foldedIndex db.foldSelection (db.copies.map Prod.snd)
      = (segEntries baseSegId db.copyBase).foldl Index.upsert
          (db.sealedWals.foldl Index.dropSegment (db.index.dropSegment baseSegId)) := by
  have hentry : ∀ e ∈ db.foldSelection, ∀ w, (db.copyRec e).entry baseSegId w
      = { key := e.key, segId := baseSegId, offset := w, len := e.len, seq := e.seq, tombstone := false } := by
    intro e he w
    obtain ⟨data, -, hcopy, hlen, -⟩ := hi.copy_spec hsealed he
    rw [hcopy]
    simp only [Rec.entry, copyOf_tombstone, hlen]
    rfl
  have hcopies : db.copies = placeRecs segDataStart (db.foldSelection.map db.copyRec) := rfl
  rw [foldedIndex, hi.segEntries_copyBase hsealed, map_snd_copies, hcopies, ← map_zip_placeRecs hentry, foldl_map]

end Copies

/-! ### The folded state -/

/-- The index without the base and the sealed segments. -/
def droppedIndex (db : Db) : Index :=
  db.sealedWals.foldl Index.dropSegment (db.index.dropSegment baseSegId)

/-- The state after the fold, before the superblock is written. -/
def folded (db : Db) : Db := db.checkpointFolded db.foldSelection (db.copies.map Prod.snd)

lemma foldl_unlink (ids : List UInt32) (wal : UInt32 → Option Bytes) (id : UInt32) :
    ids.foldl (fun wal id => Function.update wal id none) wal id = if id ∈ ids then none else wal id := by
  induction ids generalizing wal with
  | nil => simp
  | cons x ids ih =>
    rw [foldl_cons, ih]
    by_cases hx : id = x <;> simp [hx]

lemma wal_folded (db : Db) (id : UInt32) :
    db.folded.disk.wal id = if id ∈ db.sealedWals then none else db.disk.wal id :=
  foldl_unlink _ _ _

/-- After the fold the new base is all there is outside the leading segment. -/
lemma settled_folded (db : Db) : db.folded.settled = {e | e ∈ segEntries baseSegId db.copyBase} := by
  have hb : db.folded.baseEntries = segEntries baseSegId db.copyBase := rfl
  have hs : db.folded.sealedEntries = [] := rfl
  simp [settled, hb, hs]

section Folded

variable {db : Db} (hi : db.Inv)

include hi

lemma Inv.wal_lead_folded : db.folded.disk.wal db.leadingWalId = some db.lead := by
  rw [wal_folded, if_neg fun h => hi.sealed_ne h rfl, hi.file]

lemma Inv.lead_folded : db.folded.lead = db.lead := by
  have hl : db.folded.leadingFd = .linked := hi.linked
  rw [lead_of_linked hl]
  show (db.folded.disk.wal db.leadingWalId).getD [] = db.lead
  rw [hi.wal_lead_folded]
  rfl

lemma Inv.leadRecs_folded : db.folded.leadRecs = db.leadRecs := by
  rw [leadRecs, hi.lead_folded]
  rfl

lemma Inv.leadFrame_folded : db.folded.leadFrame = db.leadFrame := by
  rw [leadFrame, hi.leadRecs_folded]
  rfl

lemma Inv.find_droppedIndex (k : UInt32) : db.droppedIndex.find k
      = (db.index.find k).filter fun e => decide (e.segId = db.leadingWalId) := by
  rw [droppedIndex, Index.find_foldl_dropSegment, Index.find_dropSegment]
  cases hf : db.index.find k with
  | none => rfl
  | some e =>
    rcases (hi.represents.sound hf).1 with he | he
    · have hne := hi.segId_ne_of_settled he
      rcases mem_settled he with ⟨hs, -⟩ | ⟨hs, -⟩
      · simp [Option.filter_some, hs, hi.leadPos.symm]
      · by_cases h0 : e.segId = baseSegId
        · simp [Option.filter_some, h0, hi.leadPos.symm]
        · simp [Option.filter_some, hs, hne]
    · have hs := (mem_leadFrame he).1
      have hnot : db.leadingWalId ∉ db.sealedWals := fun h => hi.sealed_ne h rfl
      simp [Option.filter_some, hs, hi.leadPos, hnot]

/-- Once the base and the sealed segments are dropped, the index knows the leading segment. -/
lemma Inv.represents_droppedIndex (ho : db.Ordered) : db.droppedIndex.Represents {e | e ∈ db.leadFrame.applied} := by
  constructor
  · intro k e he
    rw [hi.find_droppedIndex, Option.filter_eq_some_iff] at he
    obtain ⟨hf, hs⟩ := he
    obtain ⟨hv, hk⟩ := hi.represents.sound hf
    refine ⟨?_, hk⟩
    rcases hv with hv | hv
    · exact absurd (of_decide_eq_true hs) (hi.segId_ne_of_settled hv)
    · exact hv
  · intro e he
    obtain ⟨e', hf, hle⟩ := hi.represents.top e (.inr he)
    refine ⟨e', ?_, hle⟩
    rcases (hi.represents.sound hf).1 with he' | he'
    · exact absurd (ho e' he' e he) (not_lt.mpr hle)
    · rw [hi.find_droppedIndex, hf]
      simp [(mem_leadFrame he').1]

variable (hsealed : baseSegId ∉ db.sealedWals)

include hsealed

theorem Inv.folded (ho : db.Ordered) : db.folded.Inv where
  linked := hi.linked
  file := by
    rw [hi.lead_folded]
    exact hi.wal_lead_folded
  off_le := by
    rw [hi.lead_folded]
    exact hi.off_le
  seq_pos := hi.seq_pos
  leadPos := hi.leadPos
  leadHdr := by
    rw [hi.lead_folded]
    exact hi.leadHdr
  leadLog := by
    rw [hi.lead_folded, hi.leadRecs_folded]
    exact hi.leadLog
  baseHdr := ⟨db.copyBase, _, rfl, readFileHdr_newFile _ _ _⟩
  sealedLt := by
    intro id hid
    exact absurd hid not_mem_nil
  walId := by
    intro id hid
    rw [wal_folded] at hid
    split_ifs at hid with hs
    · simp at hid
    · exact .inr ((hi.walId id hid).resolve_left hs)
  represents := by
    rw [versions, db.settled_folded, hi.leadFrame_folded, Set.union_comm]
    show (db.foldedIndex db.foldSelection (db.copies.map Prod.snd)).Represents _
    rw [hi.foldedIndex_eq hsealed]
    exact (hi.represents_droppedIndex ho).foldl_upsert _
  seq := by
    intro e he
    rw [versions, db.settled_folded, hi.leadFrame_folded] at he
    rcases he with he | he
    · obtain ⟨x, hx, -, hstamp, -⟩ := hi.mem_copyEntries hsealed he
      rw [hstamp]
      exact hi.seq x (hi.represents.sound (mem_foldSelection.mp hx).1).1
    · exact hi.seq e (.inr he)
  fresh := by
    rw [hi.leadFrame_folded]
    exact hi.fresh

lemma Inv.ordered_folded (ho : db.Ordered) : db.folded.Ordered := by
  intro e he e' he'
  rw [db.settled_folded] at he
  rw [hi.leadFrame_folded] at he'
  obtain ⟨x, hx, -, hstamp, -⟩ := hi.mem_copyEntries hsealed he
  obtain ⟨hf, -, hs⟩ := mem_foldSelection.mp hx
  rw [hstamp]
  exact ho x (settled_of_segId_ne (hi.represents.sound hf).1 hs) e' he'

lemma Inv.find_folded (k : UInt32) : db.folded.index.find k = (segEntries baseSegId db.copyBase).foldl
      (Latest.upsert IndexEntry.key IndexEntry.stamp) db.droppedIndex.find k := by
  show (db.foldedIndex db.foldSelection (db.copies.map Prod.snd)).find k = _
  rw [hi.foldedIndex_eq hsealed, Index.find_foldl_upsert]
  rfl

/-- A key whose entry was not selected keeps what the index has of it outside base and sealed
segments. -/
lemma Inv.find_folded_of_not_selected {k : UInt32} (h : ∀ e ∈ db.foldSelection, e.key ≠ k) :
    db.folded.index.find k = db.droppedIndex.find k := by
  rw [hi.find_folded hsealed]
  apply Latest.foldl_upsert_of_ne
  intro x hx
  obtain ⟨e, he, hkey, -⟩ := hi.mem_copyEntries hsealed hx
  rw [hkey]
  exact h e he

/-- Every selected entry has a copy in the new base. -/
lemma Inv.exists_copyEntry (he : e ∈ db.foldSelection) :
    ∃ x ∈ segEntries baseSegId db.copyBase, x.key = e.key ∧ x.stamp = e.stamp ∧
      ∃ data, db.readEntry e.key e = .ok data ∧ recordAt db.copyBase x.offset = some (copyOf e data) ∧
        x = (copyOf e data).entry baseSegId x.offset := by
  have hkey : e.key ∈ (segEntries baseSegId db.copyBase).map IndexEntry.key := by
    rw [hi.map_key_copyEntries hsealed]
    exact mem_map_of_mem he
  obtain ⟨x, hx, hxe⟩ := mem_map.mp hkey
  obtain ⟨e', he', hk', hs', -, -, -, hdata⟩ := hi.mem_copyEntries hsealed hx
  obtain rfl : e' = e := by
    have hf := (mem_foldSelection.mp he).1
    have hf' := (mem_foldSelection.mp he').1
    rw [← hk', hxe, hf] at hf'
    exact (Option.some.inj hf').symm
  exact ⟨x, hx, hk', hs', hdata⟩

/-- A selected entry is replaced by that of its copy. -/
lemma Inv.find_folded_of_selected (he : e ∈ db.foldSelection) :
    ∃ x data, db.folded.index.find e.key = some x ∧ db.readEntry e.key e = .ok data ∧
      db.folded.value x = some data := by
  obtain ⟨x, hx, hxe, -, data, hdata, hrec, hent⟩ := hi.exists_copyEntry hsealed he
  obtain ⟨hf, hlive, hs⟩ := mem_foldSelection.mp he
  have hnone : db.droppedIndex.find x.key = none := by
    rw [hxe, hi.find_droppedIndex, hf]
    simp [hs]
  refine ⟨x, data, ?_, hdata, ?_⟩
  · rw [← hxe, hi.find_folded hsealed]
    refine Latest.foldl_upsert_of_new ?_ hx hnone
    rw [hi.map_key_copyEntries hsealed]
    exact db.nodup_key_foldSelection
  · have hbase : db.folded.resolveReadFd baseSegId = some db.copyBase := resolveReadFd_base _
    rw [hent, value_of_recordAt hbase hrec, Rec.effect, copyOf_tombstone]
    rfl

/-- A copy answers like the entry it was made of. -/
lemma Inv.answer_copyEntry {db' : Db} (hbase : db'.resolveReadFd baseSegId = some db.copyBase)
    {x : IndexEntry} (hx : x ∈ segEntries baseSegId db.copyBase) :
    ∃ e ∈ db.foldSelection, x.key = e.key ∧ x.stamp = e.stamp ∧ db'.answer x = db.answer e := by
  obtain ⟨e, he, hk, hs, -, htomb, hlen, data, hdata, hrec, hent⟩ := hi.mem_copyEntries hsealed hx
  have hlive := (mem_foldSelection.mp he).2.1
  have hread : db'.readEntry x.key x = .ok data := by
    have := readEntry_of_recordAt hbase hrec (copyOf_tombstone e data)
    rw [← hent] at this
    rw [hk]
    exact this
  refine ⟨e, he, hk, hs, ?_⟩
  funext outLen
  rw [answer, answer, htomb, hlive, hlen, hread, hdata]

/-- The fold is invisible to readers. -/
theorem Inv.view_folded (ho : db.Ordered) : db.folded.view = db.view := by
  funext k
  rw [view, view]
  cases hf : db.index.find k with
  | none =>
    have hnot : ∀ e ∈ db.foldSelection, e.key ≠ k := by
      rintro e he rfl
      rw [(mem_foldSelection.mp he).1] at hf
      cases hf
    rw [hi.find_folded_of_not_selected hsealed hnot, hi.find_droppedIndex, hf]
    rfl
  | some e =>
    obtain ⟨hv, rfl⟩ := hi.represents.sound hf
    by_cases hsel : e ∈ db.foldSelection
    · obtain ⟨x, data, hx, hdata, hval⟩ := hi.find_folded_of_selected hsealed hsel
      have hlive := (mem_foldSelection.mp hsel).2.1
      rw [hx, Option.bind_some, Option.bind_some, hval, value, hlive, hdata]
      rfl
    · have hnot : ∀ e' ∈ db.foldSelection, e'.key ≠ e.key := by
        intro e' he' hk
        have hf' := (mem_foldSelection.mp he').1
        rw [hk, hf] at hf'
        cases hf'
        exact hsel he'
      rw [hi.find_folded_of_not_selected hsealed hnot, hi.find_droppedIndex, hf]
      by_cases hlead : e.segId = db.leadingWalId
      · have hres : db.folded.resolveReadFd e.segId = db.resolveReadFd e.segId := by
          rw [hlead, hi.resolve_lead]
          exact (hi.folded hsealed ho).resolve_lead.trans (congrArg some hi.lead_folded)
        rw [Option.filter_some, if_pos (by simpa using hlead), Option.bind_some, Option.bind_some,
          value_of_resolve_eq hres]
      · have hdead : e.tombstone = true := by
          by_contra ht
          exact hsel (mem_foldSelection.mpr ⟨hf, by simpa using ht, hlead⟩)
        simp [value, hdead]

/-- A checkpoint does nothing, or it is the fold and a superblock write. -/
lemma Inv.checkpoint_cases : db.checkpoint.1 = db ∨
      db.sealedWals ≠ [] ∧ db.checkpoint.1 = db.folded.writeSuperblockLocked := by
  unfold checkpoint
  split_ifs with hro hs
  · exact .inl rfl
  · exact .inl rfl
  · rw [hi.mapM_foldRecord hsealed]
    exact .inr ⟨hs, rfl⟩

end Folded

/-- Writing the superblock is an append of nothing. -/
lemma appended_writeSuperblockLocked (h : db.Ready) : Appended db [] false db.writeSuperblockLocked where
  toLogged := (Logged.refl h).congr (sameLog_writeSuperblockLocked db)
  marks := by simp [Marked]
  index := (writeSuperblockLocked_spec db).2.2.1
  sb := (writeSuperblockLocked_spec db).2.1
  synced := .inl (writeSuperblockLocked_spec db).2.2.2

end Db

end Picowal
