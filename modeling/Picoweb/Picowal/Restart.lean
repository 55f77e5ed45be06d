import Picoweb.Picowal.Maximal
import Picoweb.Picowal.Reopen

/-!
# Restarts after a fault-free run

A run from a freshly formatted volume ends in a state whose close and reopen give the same answers,
provided the id array of `load_or_format` holds all its WAL files. With one file more than the array
has room for, a sealed segment is not found again.
-/

namespace Picowal

open ByteFile List

variable {db : Db}

namespace Db

/-- The states of a volume that was formatted and then only used. -/
structure Used (db : Db) : Prop where
  clean : db.Clean
  sound : db.Sound
  seqs : db.SeqsUsed

lemma used_fresh (segmentBytes : UInt64) : (fresh segmentBytes).Used where
  clean := clean_fresh segmentBytes
  sound := sound_fresh segmentBytes
  seqs := by
    rintro r ⟨off, hr | ⟨id, hr⟩⟩
    · rw [show (fresh segmentBytes).disk.base = some (newFile baseSegId 1) from rfl, fileRecs_newFile] at hr
      simp at hr
    · by_cases hid : id = 1
      · have hwal : (fresh segmentBytes).disk.wal id = some (newFile 1 1) := by
          simp [fresh, formatDisk, hid]
        rw [hwal, fileRecs_newFile] at hr
        simp at hr
      · have hwal : (fresh segmentBytes).disk.wal id = none := by
          simp [fresh, formatDisk, Disk.empty, hid]
        rw [hwal] at hr
        simp [fileRecs] at hr

lemma Appended.used {db' : Db} {rs : List (ℕ × Rec)} {committed : Bool}
    (h : Appended db rs committed db') (hu : db.Used) : db'.Used where
  clean := h.clean hu.clean
  sound := h.sound hu.sound
  seqs := h.seqsUsed hu.clean hu.seqs

lemma Rotated.used {db' : Db} (h : Rotated db db') (hu : db.Used)
    (hroom : db.leadingWalId.toNat + 1 < 2 ^ 32) : db'.Used where
  clean := h.clean hu.clean hroom
  sound := h.sound hu.sound hu.clean.inert hroom
  seqs := h.seqsUsed hu.seqs

lemma Used.folded (hu : db.Used) : db.folded.Used where
  clean := hu.clean.folded
  sound := hu.sound.folded
  seqs := hu.clean.toInv.seqsUsed_folded hu.clean.sealedPos hu.seqs

lemma Used.step (h : db.Used) {op : Op} (hroom : db.Room op) : (db.step op).1.Used := by
  by_cases hop : op = .checkpoint
  · subst hop
    show db.checkpoint.1.Used
    rcases h.clean.toInv.checkpoint_cases h.clean.sealedPos with heq | ⟨-, heq⟩
    · rw [heq]
      exact h
    · rw [heq]
      exact (appended_writeSuperblockLocked h.folded.clean.toReady).used h.folded
  · obtain ⟨db₁, rs, committed, h₁, happ, -, -⟩ := (step_cases h.clean.toReady hroom hop).cases
    rcases h₁ with rfl | hrot
    · exact happ.used h
    · exact happ.used (hrot.used h hroom.1)

/-- Every state of a run in which no counter wraps is such a state. -/
lemma Used.run {db : Db} (h : db.Used) {ops : List Op} (hroom : db.RoomFor ops) : (db.run ops).Used := by
  have hstep : ∀ (s : Db) (op : Op), s.Used → s.Room op → (s.step op).1.Used :=
    fun _ _ hs hok => hs.step hok
  exact Run.Guarded.invariant hstep hroom h

lemma Used.seq_lt (h : db.Used) {r : Rec} (hr : r ∈ db.disk.records) : r.hdr.seq.toNat + 1 < 2 ^ 64 :=
  Nat.lt_of_le_of_lt (h.seqs r hr) db.nextSeq.toNat_lt

lemma records_close (h : db.Ready) : db.close.records = db.disk.records := by
  have hsame := sameLog_writeSuperblockLocked db
  rw [h.close_eq, Disk.records, Disk.records, hsame.base, hsame.disk_wal]

end Db

/-- A close and a reopen, with the sealed segments scanned in any order, give the same answers, and
the next seq is past every record on disk. -/
theorem reopen_reproduces_map (db₀ : Db) (h₀ : db₀.Formatted) (ops : List Op)
    (hroom : db₀.RoomFor ops) (hfew : (db₀.run ops).FewSegments) (names : List UInt32)
    (hnames : (db₀.run ops).close.Listing names) (want : UInt64) (hwant : want % 512 = 0) (format : Bool) :
    ∃ db₁, loadOrFormat (db₀.run ops).close names want format = .ok db₁ ∧
      ∀ ids : List UInt32, ids.Perm db₁.sealedWals →
        let db₂ := scanVolume { db₁ with sealedWals := ids }
        (∀ key outLen, db₂.getKey key outLen = (db₀.run ops).getKey key outLen) ∧
          ∀ r ∈ db₂.disk.records, r.hdr.seq < db₂.nextSeq := by
  obtain ⟨segmentBytes, rfl⟩ := h₀.eq_fresh
  have hused := (Db.used_fresh segmentBytes).run hroom
  obtain ⟨db₁, hload, hscan⟩ := hused.clean.toInv.reopen hused.sound.ties hused.clean.inert
    hused.sound.mountable_close (hused.sound.listable_close hfew hnames) hwant format
  refine ⟨db₁, hload, ?_⟩
  intro ids hperm
  obtain ⟨hm, -, hget⟩ := hscan ids hperm
  refine ⟨hget, ?_⟩
  have hdisk : ({ db₁ with sealedWals := ids } : Db).disk.records
      = ((Db.fresh segmentBytes).run ops).disk.records := by
    rw [hm.disk_eq, Db.records_close hused.clean.toReady]
  obtain ⟨-, hnext⟩ := hm.toLoaded.nextSeq_scanVolume fun r hr => hused.seq_lt (hdisk ▸ hr)
  intro r hr
  exact UInt64.lt_iff_toNat_lt.mpr (hnext r hr)

/-! ### More segments than the id array holds -/

variable {keys : List UInt32}

namespace Db

/-- The state after maximal puts of the keys: each is alone in the segment whose id is its place in
the list. -/
structure PlacedBy (keys : List UInt32) (db : Db) : Prop extends FilledBy keys db where
  used : db.Used
  placed : ∀ e ∈ db.versions, keys[e.segId.toNat - 1]? = some e.key
  held : ∀ key ∈ keys, (db.view key).isSome
  wals : ∀ id, (db.disk.wal id).isSome ↔ 0 < id.toNat ∧ id.toNat ≤ db.leadingWalId.toNat

lemma PlacedBy.nextRoom (h : PlacedBy keys db) (hlen : keys.length + 1 < 2 ^ 32) :
    db.nextRoom.Used ∧ db.nextRoom.versions = db.versions ∧ ∀ id, (db.nextRoom.disk.wal id).isSome ↔
        0 < id.toNat ∧ id.toNat ≤ db.nextRoom.leadingWalId.toNat := by
  obtain ⟨hn | ⟨hrot, hroom⟩, -⟩ := h.nextRoom_id hlen
  · rw [hn]
    exact ⟨h.used, rfl, h.wals⟩
  · refine ⟨hrot.used h.used hroom, hrot.versions h.used.clean.toInv h.used.clean.inert hroom, ?_⟩
    intro id
    rw [hrot.leadingWalId, toNat_succ_uInt32 hroom, hrot.wal]
    by_cases hnew : id = db.leadingWalId + 1
    · rw [hnew, toNat_succ_uInt32 hroom]
      simp
    · have hne : id.toNat ≠ db.leadingWalId.toNat + 1 := by
        intro heq
        apply hnew
        rw [← UInt32.toNat_inj, toNat_succ_uInt32 hroom, heq]
      rw [Function.update_of_ne hnew, h.wals id]
      omega

lemma PlacedBy.step (h : PlacedBy keys db) (hlen : keys.length + 1 < 2 ^ 32) (key : UInt32) :
    PlacedBy (keys ++ [key]) (db.step (maxPut key)).1 := by
  obtain ⟨hused, hversions, hwals⟩ := h.nextRoom hlen
  obtain ⟨happ, hreq, -⟩ := h.step_facts key
  have hroom : db.Room (maxPut key) := by
    refine ⟨by rw [h.id]; omega, ?_⟩
    show db.nextSeq.toNat + 1 < 2 ^ 64
    rw [h.next]
    omega
  refine ⟨h.toFilledBy.step hlen key, happ.used hused, ?_, ?_, ?_⟩
  · intro e he
    rw [happ.versions hused.clean.toInv, hversions] at he
    rcases he with he | he
    · have hold := h.placed e he
      rw [List.getElem?_append_left (List.getElem?_eq_some_iff.mp hold).1]
      exact hold
    · obtain rfl : e = (db.maxRecord key).entry db.nextRoom.leadingWalId 512 := mem_singleton.mp he
      rw [maxRecord_entry, (h.nextRoom_id hlen).2]
      simp
  · intro k hk
    rw [(h.used.clean.step hroom).2, hreq]
    by_cases hkey : k = key
    · simp [hkey, KV.write, Req.effect]
    · have hold := h.held k ((mem_append.mp hk).resolve_right (by simpa using hkey))
      simpa [KV.write, Req.effect, hkey] using hold
  · intro id
    rw [happ.leadingWalId, ← hwals id]
    by_cases hl : id = db.nextRoom.leadingWalId
    · have hnew := happ.ready.file
      rw [happ.leadingWalId] at hnew
      rw [hl, hnew, hused.clean.file]
      simp
    · rw [happ.wal id hl]

lemma placedBy_fresh : PlacedBy [] (fresh 5120) where
  toFilledBy := filledBy_fresh
  used := used_fresh 5120
  placed := by
    intro e he
    obtain ⟨e', hf, -⟩ := (clean_fresh 5120).represents.top e he
    cases hf
  held := by simp
  wals := by
    intro id
    have hone : 0 < id.toNat ∧ id.toNat ≤ (fresh 5120).leadingWalId.toNat ↔ id = 1 := by
      rw [← UInt32.toNat_inj]
      show 0 < id.toNat ∧ id.toNat ≤ 1 ↔ id.toNat = 1
      omega
    rw [hone]
    by_cases hid : id = 1
    · simp [fresh, formatDisk, hid]
    · simp [fresh, formatDisk, Disk.empty, hid]

lemma placedBy_run (keys : List UInt32) (hlen : keys.length < 2 ^ 32) :
    PlacedBy keys ((fresh 5120).run (keys.map maxPut)) := by
  induction keys using reverseRecOn with
  | nil => exact placedBy_fresh
  | append_singleton keys key ih =>
    rw [length_append] at hlen
    rw [map_append, run, foldl_append]
    exact (ih (by omega)).step hlen key

/-- The next put gets the id of `base.dat`, and no put was of the key 1. -/
lemma placedBy_all_ids : ∃ keys : List UInt32, PlacedBy keys ((fresh 5120).run (keys.map maxPut)) ∧
    keys.length + 1 = 2 ^ 32 ∧ 1 ∉ keys := by
  obtain ⟨n, hn⟩ : ∃ n : ℕ, n + 1 = 2 ^ 32 := ⟨2 ^ 32 - 1, rfl⟩
  have hlen : (replicate n (0 : UInt32)).length = n := length_replicate
  refine ⟨replicate n 0, placedBy_run _ (by omega), by omega, fun h => ?_⟩
  exact absurd (eq_of_mem_replicate h) (by decide)

lemma PlacedBy.getKey_ne (h : PlacedBy keys db) {key : UInt32} (hkey : key ∈ keys) (outLen : ℕ) :
    db.getKey key outLen ≠ .error .ENOENT := by
  obtain ⟨data, hdata⟩ := Option.isSome_iff_exists.mp (h.held key hkey)
  rw [h.used.clean.toInv.getKey_eq_view h.used.clean.sealedPos, KV.get, hdata]
  dsimp only
  split_ifs <;> simp

/-- A WAL file holds the key of its place. -/
lemma PlacedBy.mem_fileEntries (h : PlacedBy keys db) {id : UInt32} {e : IndexEntry}
    (he : e ∈ fileEntries id (db.disk.wal id)) : keys[id.toNat - 1]? = some e.key := by
  rw [← segId_of_mem_fileEntries he]
  apply h.placed
  rw [← h.used.clean.toInv.disk_versions h.used.clean.inert]
  exact .inr ⟨id, he⟩

/-- A key is not found by a scan that leaves out its segment. -/
lemma PlacedBy.find_scanVolume {db₁ : Db} (h : PlacedBy keys db) (hcontent : db₁.leadingContent = some db₁.lead)
    (hbase : db₁.disk.base = db.disk.base) (hwal : db₁.disk.wal = db.disk.wal)
    (hlead : db₁.disk.wal db₁.leadingWalId = some db₁.lead) {key : UInt32}
    (hlost : ∀ id ∈ db₁.leadingWalId :: db₁.sealedWals, keys[id.toNat - 1]? ≠ some key) :
    (scanVolume db₁).index.find key = none := by
  have hmem : ∀ id ∈ db₁.leadingWalId :: db₁.sealedWals, ∀ e ∈ fileEntries id (db₁.disk.wal id), e.key ≠ key := by
    rintro id hid e he rfl
    exact hlost id hid (h.mem_fileEntries (hwal ▸ he))
  obtain ⟨gen, m, heq, -⟩ := scanVolume_eq hcontent
  rw [heq]
  rw [Index.find_foldl_upsert, Latest.foldl_upsert_of_ne]
  · rfl
  · intro e he
    rw [mem_append, mem_append] at he
    rcases he with (he | he) | he
    · rw [baseEntries, hbase, h.base, fileEntries_newFile] at he
      simp at he
    · obtain ⟨id, hid, he⟩ := mem_flatMap.mp he
      exact hmem id (mem_cons_of_mem _ hid) e he
    · refine hmem _ mem_cons_self e ?_
      rw [hlead]
      exact he

end Db

/-- One put leaves one WAL file. -/
lemma Db.used_one_put : ((fresh 5120).run [maxPut 7]).Used ∧ ((fresh 5120).run [maxPut 7]).FewSegments ∧
    ((fresh 5120).run [maxPut 7]).close.Listing [1] := by
  have hused : ((fresh 5120).run [maxPut 7]).Used := (used_fresh 5120).run ⟨⟨by decide, by decide⟩, trivial⟩
  obtain ⟨hfew, hids, hlead⟩ : let db := (fresh 5120).run [maxPut 7]
      db.FewSegments ∧ db.close.walIds 1 = [1] ∧ db.leadingWalId = 1 := by decide +kernel
  refine ⟨hused, hfew, hids ▸ ?_⟩
  have hmount := hused.sound.mountable_close
  rw [hlead] at hmount
  exact hmount.listing_walIds hused.sound.strays_close

theorem reopen_reproduces_map_one_put :
    ∃ db₁, loadOrFormat ((Db.fresh 5120).run [maxPut 7]).close [1] 5120 false = .ok db₁ ∧
      (scanVolume db₁).getKey 7 dataMax = ((Db.fresh 5120).run [maxPut 7]).getKey 7 dataMax := by
  obtain ⟨-, hfew, hlisting⟩ := Db.used_one_put
  obtain ⟨db₁, hload, hscan⟩ := reopen_reproduces_map (Db.fresh 5120)
    Db.formatted_fresh [maxPut 7] ⟨⟨by decide, by decide⟩, trivial⟩
    hfew [1] hlisting 5120 (by decide) false
  exact ⟨db₁, hload, (hscan db₁.sealedWals (List.Perm.refl _)).1 7 dataMax⟩

/-! The counterexample: after 8193 maximal puts there are 8193 WAL files, and `readdir` returns the
first one only after the array is full. -/

def idRange (first n : ℕ) : List UInt32 := (range' first n).map UInt32.ofNat

lemma length_idRange (first n : ℕ) : (idRange first n).length = n := by simp [idRange]

lemma mem_idRange {first n : ℕ} (h : first + n ≤ 2 ^ 32) {id : UInt32} :
    id ∈ idRange first n ↔ first ≤ id.toNat ∧ id.toNat < first + n := by
  simp only [idRange, mem_map, mem_range'_1]
  constructor
  · rintro ⟨i, hi, rfl⟩
    rw [UInt32.toNat_ofNat', Nat.mod_eq_of_lt (by omega)]
    exact hi
  · intro hid
    exact ⟨id.toNat, hid, UInt32.ofNat_toNat⟩

lemma nodup_idRange {first n : ℕ} (h : first + n ≤ 2 ^ 32) : (idRange first n).Nodup := by
  refine List.Nodup.map_on ?_ nodup_range'
  intro x hx y hy hxy
  rw [mem_range'_1] at hx hy
  have := congrArg UInt32.toNat hxy
  rwa [UInt32.toNat_ofNat', UInt32.toNat_ofNat', Nat.mod_eq_of_lt (by omega), Nat.mod_eq_of_lt (by omega)] at this

lemma discoverWalIds_append {names more : List UInt32} (h : names.length = maxWalIds) :
    discoverWalIds (names ++ more) = discoverWalIds names := by
  rw [discoverWalIds, discoverWalIds, take_left' h, ← h, take_length]

/-- A segment that is not among the names the array holds is not scanned. -/
lemma Db.PlacedBy.load_crowded (h : PlacedBy keys db)
    {found : List UInt32} (more : List UInt32) (hlen : found.length = maxWalIds)
    (hmem : db.leadingWalId ∈ found) (hle : ∀ id ∈ found, id.toNat ≤ db.leadingWalId.toNat)
    {key : UInt32} (hlost : ∀ id ∈ found, keys[id.toNat - 1]? ≠ some key) :
    ∃ db₁, loadOrFormat db.close (found ++ more) 5120 false = .ok db₁ ∧ (scanVolume db₁).index.find key = none := by
  have hsame := sameLog_writeSuperblockLocked db
  have hmount := h.used.sound.mountable_close
  rw [h.used.clean.toReady.close_eq] at hmount ⊢
  obtain ⟨sb, hsb, hsble⟩ := hmount.sb
  obtain ⟨lf, lh, hlf, hlh⟩ := hmount.leadFile
  obtain ⟨bf, bh, hbf, hbh⟩ := hmount.baseFile
  obtain ⟨init, hinit⟩ := discoverWalIds_last hlen.le hmem hle
  have hids : discoverWalIds (found ++ more) = init ++ [db.leadingWalId] := by
    rw [discoverWalIds_append hlen, hinit]
  have hload := loadOrFormat_eq hsb hids hsble hbf hbh hlf hlh (show (5120 : UInt64) % 512 = 0 by decide) false
  set db₁ := loadedDb db.writeSuperblockLocked.disk sb bh bf db.leadingWalId
    (init.filter fun id => id != db.leadingWalId).reverse with hdb₁
  have hlead : db₁.disk.wal db₁.leadingWalId = some db₁.lead := by
    simp [hdb₁, lead, leadingContent, loadedDb, hlf]
  have hcontent : db₁.leadingContent = some db₁.lead := hlead
  have hbase : db₁.disk.base = db.disk.base := hsame.base
  refine ⟨db₁, hload, h.find_scanVolume hcontent hbase hsame.disk_wal hlead ?_⟩
  intro id hid
  apply hlost
  rcases mem_cons.mp hid with rfl | hid
  · exact hmem
  · have hinit' : id ∈ init := by
      have : id ∈ (init.filter fun id => id != db.leadingWalId).reverse := hid
      simp only [mem_reverse, mem_filter] at this
      exact this.1
    rw [← (discoverWalIds_spec hlen.le).1.mem_iff, hinit]
    exact mem_append_left _ hinit'

theorem crowded_directory_loses_segment :
    (Db.fresh 5120).Formatted ∧ ∃ (ops : List Op) (names : List UInt32) (db₁ : Db) (key : UInt32),
      ((Db.fresh 5120).run ops).close.Listing names ∧
      loadOrFormat ((Db.fresh 5120).run ops).close names 5120 false = .ok db₁ ∧
      (scanVolume db₁).getKey key dataMax ≠ ((Db.fresh 5120).run ops).getKey key dataMax := by
  refine ⟨Db.formatted_fresh, ?_⟩
  obtain ⟨n, hn⟩ : ∃ n, n = 8192 := ⟨_, rfl⟩
  have hplaced := Db.placedBy_run (1 :: replicate n 0) (by simp; omega)
  set db := (Db.fresh 5120).run ((1 :: replicate n 0).map maxPut)
  have hid : db.leadingWalId.toNat = n + 1 := by
    rw [hplaced.id]
    simp
  have hmem {id} : id ∈ idRange 2 n ↔ 2 ≤ id.toNat ∧ id.toNat < 2 + n := mem_idRange (by omega)
  have hone (id : UInt32) : id = 1 ↔ id.toNat = 1 := UInt32.toNat_inj.symm
  have hlisting : db.close.Listing (idRange 2 n ++ [1]) := by
    refine hplaced.used.sound.mountable_close.listing (by omega) hplaced.used.sound.strays_close ?_ ?_
    · rw [nodup_append]
      refine ⟨nodup_idRange (by omega), nodup_singleton 1, ?_⟩
      rintro a ha b hb rfl
      rw [mem_singleton, hone] at hb
      rw [hmem] at ha
      omega
    · intro id
      rw [hplaced.used.clean.toReady.close_eq, (Db.sameLog_writeSuperblockLocked db).disk_wal, hplaced.wals,
        mem_append, mem_singleton, hmem, hone]
      omega
  have hlost : ∀ id ∈ idRange 2 n, (1 :: replicate n (0 : UInt32))[id.toNat - 1]? ≠ some 1 := by
    intro id hid heq
    obtain ⟨i, hi⟩ : ∃ i, id.toNat - 1 = i + 1 := ⟨id.toNat - 2, by rw [hmem] at hid; omega⟩
    rw [hi] at heq
    exact absurd (eq_of_mem_replicate (mem_of_getElem? heq)) (by decide)
  obtain ⟨db₁, hload, hnone⟩ := hplaced.load_crowded [1] ((length_idRange 2 n).trans hn)
    (hmem.mpr (by omega)) (fun id h => by rw [hmem] at h; omega) hlost
  refine ⟨_, _, db₁, 1, hlisting, hload, ?_⟩
  have henoent : (scanVolume db₁).getKey 1 dataMax = .error .ENOENT := by
    rw [Db.getKey_eq, hnone]
    rfl
  rw [henoent]
  exact (hplaced.getKey_ne mem_cons_self _).symm

end Picowal
