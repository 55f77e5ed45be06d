import Picoweb.Picowal.Invariant

/-!
# What readers see

`picowal_db_get_key` finds an entry and reads the record it points to. While the invariant holds every
entry points to a record that matches it, so the answers are those of a map, `view`, and an append
changes that map exactly by what it commits.
-/

namespace Picowal

open ByteFile List

/-- The answer of a map to `picowal_db_get_key`. -/
def KV.get (m : KV) (key : UInt32) (outLen : ℕ) : Except Errno Bytes :=
  if outLen = 0 then .error .EINVAL
  else
    match m key with
    | none => .error .ENOENT
    | some data => if data.length > outLen then .error .EMSGSIZE else .ok data

namespace Db

/-- The answer of `picowal_db_get_key` once it has found an entry. -/
def answer (db : Db) (e : IndexEntry) (outLen : ℕ) : Except Errno Bytes :=
  if e.tombstone then .error .ENOENT
  else if e.len.toNat > outLen then .error .EMSGSIZE
  else db.readEntry e.key e

lemma getKey_eq (db : Db) (key : UInt32) (outLen : ℕ) : db.getKey key outLen = if outLen = 0 then .error .EINVAL else
      ((db.index.find key).map fun e => db.answer e outLen).getD (.error .ENOENT) := by
  unfold getKey answer
  cases hf : db.index.find key with
  | none => rfl
  | some e =>
    obtain rfl := Index.find_key hf
    rfl

variable {db : Db} {e : IndexEntry}

lemma getKey_of_find {key : UInt32} (hf : db.index.find key = some e)
    {outLen : ℕ} (hout : outLen ≠ 0) : db.getKey key outLen = db.answer e outLen := by
  rw [getKey_eq, if_neg hout, hf]
  rfl

lemma getKey_of_find_none {key : UInt32} (hf : db.index.find key = none) {outLen : ℕ}
    (hout : outLen ≠ 0) : db.getKey key outLen = .error .ENOENT := by
  rw [getKey_eq, if_neg hout, hf]
  rfl

lemma getKey_zero (db : Db) (key : UInt32) : db.getKey key 0 = .error .EINVAL := by
  rw [getKey_eq, if_pos rfl]

lemma answer_of_tombstone (db : Db) (h : e.tombstone = true) (outLen : ℕ) :
    db.answer e outLen = .error .ENOENT := if_pos h

def value (db : Db) (e : IndexEntry) : Option Bytes :=
  if e.tombstone then none else (db.readEntry e.key e).toOption

def view (db : Db) : KV := fun key => (db.index.find key).bind db.value

/-! ### Entries point to records -/

variable {segId : UInt32}

/-- An entry whose record is in its file is read back. -/
lemma readEntry_of_recordAt {off : ℕ} {f : Bytes} {r : Rec}
    (hfile : db.resolveReadFd segId = some f) (hrec : recordAt f off = some r)
    (hlive : r.tombstone = false) : db.readEntry r.hdr.key (r.entry segId off) = .ok r.payload := by
  obtain ⟨⟨raw, hraw, hdec⟩, hpay, hv, -⟩ := readRecord_eq_some.mp hrec
  have hflag : r.hdr.flags &&& recTombstone = 0 := by simpa [Rec.tombstone] using hlive
  simp only [readEntry, Rec.entry, hfile, hraw, hdec, hv.magic, hpay,
    hv.checksum, hflag, ne_eq, not_true, or_self, if_false]

lemma value_of_recordAt {off : ℕ} {f : Bytes} {r : Rec}
    (hfile : db.resolveReadFd segId = some f) (hrec : recordAt f off = some r) :
    db.value (r.entry segId off) = r.effect.2 := by
  cases ht : r.tombstone with
  | true => simp [value, Rec.effect, Rec.entry, ht]
  | false =>
    have hread := readEntry_of_recordAt hfile hrec ht
    have htomb : (r.entry segId off).tombstone = false := ht
    have hkey : (r.entry segId off).key = r.hdr.key := rfl
    simp [value, Rec.effect, ht, htomb, hkey, hread, Except.toOption]

lemma readEntry_of_resolve_eq {db' : Db} (h : db'.resolveReadFd e.segId = db.resolveReadFd e.segId) (key : UInt32) :
    db'.readEntry key e = db.readEntry key e := by
  simp only [readEntry, h]

lemma value_of_resolve_eq {db' : Db}
    (h : db'.resolveReadFd e.segId = db.resolveReadFd e.segId) : db'.value e = db.value e := by
  rw [value, value, readEntry_of_resolve_eq h]

/-- Reading an entry looks at its file only, and there only at the record's bytes. -/
lemma readEntry_congr {db' : Db} {key : UInt32} {f f' : Bytes} {n : ℕ}
    (hf : db.resolveReadFd e.segId = some f) (hf' : db'.resolveReadFd e.segId = some f')
    (hff : f'.take n = f.take n) (hn : e.offset + 40 + e.len.toNat ≤ n) :
    db'.readEntry key e = db.readEntry key e := by
  simp only [readEntry, hf, hf', preadFull, recordHdrBytes]
  rw [readAt_congr hff (by omega), readAt_congr hff (by omega)]

lemma resolveReadFd_base (db : Db) : db.resolveReadFd baseSegId = db.disk.base := by
  simp [resolveReadFd]

lemma Inv.resolve_lead (hi : db.Inv) : db.resolveReadFd db.leadingWalId = some db.lead := by
  simp [resolveReadFd, hi.leadPos, hi.content]

lemma resolve_wal {id : UInt32} (h0 : id ≠ baseSegId) (hl : id ≠ db.leadingWalId) :
    db.resolveReadFd id = db.disk.wal id := by
  simp [resolveReadFd, h0, hl]

lemma mem_fileEntries {f : Option Bytes} (h : e ∈ fileEntries segId f) :
    ∃ b r, f = some b ∧ recordAt b e.offset = some r ∧ e = r.entry segId e.offset := by
  cases f with
  | none => simp [fileEntries] at h
  | some b =>
    obtain ⟨r, hr⟩ := mem_segEntries h
    exact ⟨b, r, rfl, hr⟩

lemma segId_of_mem_fileEntries {f : Option Bytes} (h : e ∈ fileEntries segId f) : e.segId = segId := by
  obtain ⟨b, r, -, -, he⟩ := mem_fileEntries h
  rw [he]
  rfl

/-- A settled entry lies in `base.dat` or in a sealed segment. -/
lemma mem_settled (h : e ∈ db.settled) : e.segId = baseSegId ∧ e ∈ db.baseEntries ∨
      e.segId ∈ db.sealedWals ∧ e ∈ fileEntries e.segId (db.disk.wal e.segId) := by
  rcases h with h | h
  · exact .inl ⟨segId_of_mem_fileEntries h, h⟩
  · obtain ⟨id, hid, he⟩ := mem_flatMap.mp h
    obtain rfl := segId_of_mem_fileEntries he
    exact .inr ⟨hid, he⟩

lemma mem_leadFrame (h : e ∈ db.leadFrame.applied) : e.segId = db.leadingWalId ∧ ∃ r, (e.offset, r) ∈ db.leadRecs ∧
      e = r.entry db.leadingWalId e.offset := by
  obtain ⟨⟨o, r⟩, hp, rfl⟩ := mem_frame_applied h
  exact ⟨rfl, r, hp, rfl⟩

/-- Every version is the entry of a record of its file, when no sealed segment shares the base's
id. -/
lemma Inv.record (hi : db.Inv) (hsealed : baseSegId ∉ db.sealedWals) (he : e ∈ db.versions) :
    ∃ f r, db.resolveReadFd e.segId = some f ∧ recordAt f e.offset = some r ∧ e = r.entry e.segId e.offset := by
  rcases he with he | he
  · rcases mem_settled he with ⟨hs, he⟩ | ⟨hs, he⟩
    · obtain ⟨f, r, hf, hr, her⟩ := mem_fileEntries he
      exact ⟨f, r, by rw [hs, resolveReadFd_base, hf], hr, hs.symm ▸ her⟩
    · obtain ⟨f, r, hf, hr, her⟩ := mem_fileEntries he
      refine ⟨f, r, ?_, hr, her⟩
      rw [resolve_wal ?_ (hi.sealed_ne hs), hf]
      intro h0
      exact hsealed (h0 ▸ hs)
  · obtain ⟨hs, r, hmem, her⟩ := mem_leadFrame he
    exact ⟨db.lead, r, by rw [hs, hi.resolve_lead], (hi.leadLog.mem hmem).1, hs.symm ▸ her⟩

lemma Inv.live_record (hi : db.Inv) (hsealed : baseSegId ∉ db.sealedWals) (he : e ∈ db.versions)
    (hlive : e.tombstone = false) : ∃ f r, db.resolveReadFd e.segId = some f ∧ recordAt f e.offset = some r ∧
      e = r.entry e.segId e.offset ∧ e.len = r.hdr.len ∧ db.readEntry e.key e = .ok r.payload := by
  obtain ⟨f, r, hf, hr, her⟩ := hi.record hsealed he
  have htomb : r.tombstone = false := by rw [← hlive, her]; rfl
  exact ⟨f, r, hf, hr, her, by rw [her]; rfl, by rw [her]; exact readEntry_of_recordAt hf hr htomb⟩

/-- Every version can be read. -/
theorem Inv.readable (hi : db.Inv) (hsealed : baseSegId ∉ db.sealedWals)
    (he : e ∈ db.versions) (hlive : e.tombstone = false) :
    ∃ data, db.readEntry e.key e = .ok data ∧ data.length = e.len.toNat := by
  obtain ⟨f, r, -, hr, -, hlen, hread⟩ := hi.live_record hsealed he hlive
  exact ⟨r.payload, hread, hlen ▸ (recordAt_valid hr).payload_len⟩

lemma Inv.answer_ne_of_live (hi : db.Inv) (hsealed : baseSegId ∉ db.sealedWals)
    (he : e ∈ db.versions) (hlive : e.tombstone = false) (outLen : ℕ) : db.answer e outLen ≠ .error .ENOENT := by
  obtain ⟨data, hdata, -⟩ := hi.readable hsealed he hlive
  rw [answer, hlive, hdata]
  simp only [Bool.false_eq_true, if_false]
  split_ifs <;> simp

/-- With every entry readable, the engine answers like its map. -/
lemma getKey_eq_view_of_readable (h : ∀ {key e}, db.index.find key = some e →
      e.tombstone = false → ∃ data, db.readEntry e.key e = .ok data ∧ data.length = e.len.toNat)
    (key : UInt32) (outLen : ℕ) : db.getKey key outLen = db.view.get key outLen := by
  rw [getKey_eq, KV.get, view]
  split_ifs
  · rfl
  · cases hf : db.index.find key with
    | none => rfl
    | some e =>
      simp only [Option.map_some, Option.bind_some, answer, value]
      cases ht : e.tombstone with
      | true => rfl
      | false =>
        obtain ⟨data, hdata, hlen⟩ := h hf ht
        simp [hdata, Except.toOption, ← hlen]

theorem Inv.getKey_eq_view (hi : db.Inv) (hsealed : baseSegId ∉ db.sealedWals)
    (key : UInt32) (outLen : ℕ) : db.getKey key outLen = db.view.get key outLen :=
  getKey_eq_view_of_readable (fun hf ht => hi.readable hsealed (hi.represents.sound hf).1 ht) key outLen

lemma Inv.existsKey_eq_view (hi : db.Inv) (hsealed : baseSegId ∉ db.sealedWals)
    (key : UInt32) : db.existsKey key = (db.view key).isSome := by
  rw [existsKey, present, view]
  cases hf : db.index.find key with
  | none => rfl
  | some e =>
    simp only [Option.bind_some, value]
    cases ht : e.tombstone with
    | true => rfl
    | false =>
      obtain ⟨data, hdata, -⟩ := hi.readable hsealed (hi.represents.sound hf).1 ht
      simp [hdata, Except.toOption]

/-! ### Steps and readers -/

section Steps

variable {db db' : Db} {rs : List (ℕ × Rec)} {committed : Bool}

lemma Logged.resolve_lead (h : Logged db rs db') (hi : db.Inv) :
    db'.resolveReadFd db.leadingWalId = some db'.lead := by
  simp [resolveReadFd, hi.leadPos, h.leadingWalId, h.ready.content]

/-- An append moves nothing: what could be read is read the same. -/
lemma Logged.readEntry_eq (h : Logged db rs db') (hi : db.Inv)
    (he : e ∈ db.versions) (key : UInt32) : db'.readEntry key e = db.readEntry key e := by
  rcases he with he | he
  · have hsame : db'.resolveReadFd e.segId = db.resolveReadFd e.segId := by
      by_cases h0 : e.segId = baseSegId
      · rw [h0, resolveReadFd_base, resolveReadFd_base, h.base]
      · have hne := hi.sealed_ne ((mem_settled he).resolve_left fun h => h0 h.1).1
        rw [resolve_wal h0 hne, resolve_wal h0 (by rwa [h.leadingWalId]), h.wal _ hne]
    exact readEntry_of_resolve_eq hsame key
  · obtain ⟨hs, r, hmem, her⟩ := mem_leadFrame he
    obtain ⟨-, -, hend⟩ := hi.leadLog.mem hmem
    have hspan := r.hdr_le_span
    have hlen : e.len = r.hdr.len := by rw [her]; rfl
    refine readEntry_congr (by rw [hs]; exact hi.resolve_lead) (by rw [hs]; exact h.resolve_lead hi) h.take ?_
    rw [hlen]
    simp only [recordHdrBytes] at hspan
    omega

lemma Rotated.readEntry_eq (h : Rotated db db') (hi : db.Inv)
    (hroom : db.leadingWalId.toNat + 1 < 2 ^ 32) (he : e ∈ db.versions)
    (key : UInt32) : db'.readEntry key e = db.readEntry key e := by
  have hle : e.segId = baseSegId ∨ e.segId.toNat ≤ db.leadingWalId.toNat := by
    rcases he with he | he
    · rcases mem_settled he with ⟨hs, -⟩ | ⟨hs, -⟩
      · exact .inl hs
      · exact .inr (hi.sealedLt _ hs).le
    · rw [(mem_leadFrame he).1]
      exact .inr le_rfl
  have hsame : db'.resolveReadFd e.segId = db.resolveReadFd e.segId := by
    by_cases h0 : e.segId = baseSegId
    · rw [h0, resolveReadFd_base, resolveReadFd_base, h.base]
    · replace hle := hle.resolve_left h0
      have hne : e.segId ≠ db'.leadingWalId := by
        rw [h.leadingWalId]
        exact succ_ne hroom hle
      rw [resolve_wal h0 hne, h.wal_of_le hroom hle]
      by_cases hl : e.segId = db.leadingWalId
      · rw [hl, hi.resolve_lead, hi.file]
      · rw [resolve_wal h0 hl]
  exact readEntry_of_resolve_eq hsame key

/-- The values of the versions there were stay the same. -/
lemma Logged.value_eq (h : Logged db rs db') (hi : db.Inv) (he : e ∈ db.versions) : db'.value e = db.value e := by
  rw [value, value, h.readEntry_eq hi he]

lemma Rotated.view_eq (h : Rotated db db') (hi : db.Inv)
    (hroom : db.leadingWalId.toNat + 1 < 2 ^ 32) : db'.view = db.view := by
  funext key
  rw [view, view, h.index]
  cases hf : db.index.find key with
  | none => rfl
  | some e =>
    have he := (hi.represents.sound hf).1
    simp only [Option.bind_some, value, h.readEntry_eq hi hroom he]

/-- A record that was just appended has the value it was given. -/
lemma Logged.value_unit (h : Logged db rs db') (hi : db.Inv) {p : ℕ × Rec} (hp : p ∈ rs) :
    (p.2.hdr.key, db'.value (p.2.entry db.leadingWalId p.1)) = p.2.effect := by
  obtain ⟨hrec, -⟩ := h.log.mem hp
  rw [value_of_recordAt (h.resolve_lead hi) hrec]
  rfl

lemma pairwise_stamp (h : Logged db rs db') : (db.unitEntries rs).Pairwise fun a b => a.stamp < b.stamp := by
  have hs := pairwise_lt_range' (s := db.nextSeq.toNat) (n := rs.length)
  rw [← h.seqs, pairwise_map] at hs
  rw [unitEntries, pairwise_map]
  exact hs

/-- An append changes the map by what it commits, in order. -/
theorem Appended.view_eq (h : Appended db rs committed db') (hi : db.Inv) :
    db'.view = db.view.write (if committed then rs.map fun p => p.2.effect else []) := by
  have hold : (fun key => (db.index.find key).bind db'.value) = db.view := by
    funext key
    rw [view]
    cases hf : db.index.find key with
    | none => rfl
    | some e => exact h.value_eq hi (hi.represents.sound hf).1
  unfold view
  rw [h.index]
  cases committed with
  | false => exact hold
  | true =>
    rw [if_pos rfl, if_pos rfl, Index.find_foldl_upsert, hi.represents.foldl_upsert_of_top (fun e he v hv =>
        (hi.seq v hv).trans_le (h.stamp_mem he).1) (pairwise_stamp h.toLogged),
      Latest.bind_foldl_update, hold, KV.write, unitEntries, foldl_map, foldl_map]
    refine foldl_ext _ _ _ fun m p hp => ?_
    rw [← h.value_unit hi hp]
    rfl

end Steps

end Db

end Picowal
