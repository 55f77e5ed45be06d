import Picoweb.Picowal.Cut

/-!
# Crash atomicity of the log

Recovery of a volume whose leading segment was cut at any byte shows exactly the commits that lie
wholly below the cut. A commit that lands in a segment whose id wrapped is not recovered.
-/

namespace Picowal

open ByteFile List

/-- The commits that a cut of the leading segment `lead` after `n` bytes leaves whole. -/
def commitsBelow (commits : List Commit) (lead : UInt32) (n : ℕ) : List Commit :=
  commits.filter fun c => decide (c.segId ≠ lead ∨ c.fin ≤ n)

/-- The end of the last of the commits in the segment `lead`. -/
def lastEnd (commits : List Commit) (lead : UInt32) : ℕ :=
  ((commits.filter fun c => decide (c.segId = lead)).getLast?.map Commit.fin).getD segDataStart

lemma commitsBelow_append (cs ds : List Commit) (lead : UInt32) (n : ℕ) :
    commitsBelow (cs ++ ds) lead n = commitsBelow cs lead n ++ commitsBelow ds lead n :=
  filter_append ..

/-- The commits with the state they led to: every cut leaves the map of the commits below it. -/
structure Tracks (db : Db) (commits : List Commit) : Prop where
  clean : db.Clean
  sound : db.Sound
  view : db.view = KV.ofCommits commits
  fin_le : ∀ c ∈ commits, c.segId = db.leadingWalId → c.fin ≤ db.leadingWriteOff
  seg_le : ∀ c ∈ commits, c.segId.toNat ≤ db.leadingWalId.toNat
  cut : ∀ (n : ℕ) (idx : Index), idx.Represents (db.versionsAt n) → (fun k => (idx.find k).bind db.value)
      = KV.ofCommits (commitsBelow commits db.leadingWalId n)
  resume : ∀ n, (db.cutFrame n).committedEnd = lastEnd (commitsBelow commits db.leadingWalId n) db.leadingWalId

namespace Tracks

lemma commitsBelow_eq_self {db : Db} {commits : List Commit}
    (hfin : ∀ c ∈ commits, c.segId = db.leadingWalId → c.fin ≤ db.leadingWriteOff) {n : ℕ}
    (hn : db.leadingWriteOff ≤ n) : commitsBelow commits db.leadingWalId n = commits := by
  apply filter_eq_self.mpr
  intro c hc
  apply decide_eq_true
  by_cases hseg : c.segId = db.leadingWalId
  · exact .inr ((hfin c hc hseg).trans hn)
  · exact .inl hseg

/-- A segment that was just started holds no commit. -/
lemma commitsBelow_of_lt {commits : List Commit} {lead : UInt32} (h : ∀ c ∈ commits, c.segId ≠ lead) (n : ℕ) :
    commitsBelow commits lead n = commits ∧ lastEnd commits lead = segDataStart := by
  constructor
  · apply filter_eq_self.mpr
    exact fun c hc => decide_eq_true (.inl (h c hc))
  · have hnil : (commits.filter fun c => decide (c.segId = lead)) = [] := by
      apply filter_eq_nil_iff.mpr
      intro c hc
      simpa using h c hc
    rw [lastEnd, hnil]
    rfl

lemma rotate {db db' : Db} {commits : List Commit} (h : Tracks db commits) (hr : Db.Rotated db db')
    (hroom : db.leadingWalId.toNat + 1 < 2 ^ 32) : Tracks db' commits := by
  have hsucc : db'.leadingWalId.toNat = db.leadingWalId.toNat + 1 := by
    rw [hr.leadingWalId, toNat_succ_uInt32 hroom]
  have hne : ∀ c ∈ commits, c.segId ≠ db'.leadingWalId := by
    intro c hc heq
    have hle := h.seg_le c hc
    rw [heq, hsucc] at hle
    exact Nat.not_succ_le_self _ hle
  have hs' := hr.sound h.sound h.clean.inert hroom
  have hview : db'.view = KV.ofCommits commits := by
    rw [hr.view_eq h.clean.toInv hroom, h.view]
  refine ⟨hr.clean h.clean hroom, hs', hview, ?_, ?_, ?_, ?_⟩
  · exact fun c hc hseg => absurd hseg (hne c hc)
  · intro c hc
    rw [hsucc]
    exact (h.seg_le c hc).trans (Nat.le_succ _)
  · intro n idx hidx
    rw [hr.versionsAt_eq h.clean hroom, ← hr.versions h.clean.toInv h.clean.inert hroom] at hidx
    rw [hs'.view_of_represents hidx, hview, (commitsBelow_of_lt hne n).1]
  · intro n
    rw [hr.cutFrame_eq, (commitsBelow_of_lt hne n).1, (commitsBelow_of_lt hne n).2]
    rfl

section Append

variable {db db' : Db} {rs : List (ℕ × Rec)} {committed : Bool} {commits : List Commit}

/-- What a cut leaves reads the same after an append. -/
lemma bind_value_eq (h : Tracks db commits) (happ : Db.Appended db rs committed db') {n : ℕ}
    {idx : Index} (hidx : idx.Represents (db.versionsAt n)) :
    (fun k => (idx.find k).bind db'.value) = fun k => (idx.find k).bind db.value := by
  funext k
  cases hf : idx.find k with
  | none => rfl
  | some e => exact happ.value_eq h.clean.toInv (h.clean.versionsAt_subset (hidx.sound hf).1)

/-- An abandoned unit is no commit. -/
lemma abandon (h : Tracks db commits) (happ : Db.Appended db rs false db') : Tracks db' commits := by
  have hid := happ.leadingWalId
  have hle := happ.log.le
  refine ⟨happ.clean h.clean, happ.sound h.sound, ?_, ?_, ?_, ?_, ?_⟩
  · rw [happ.view_eq h.clean.toInv, h.view]
    rfl
  · rw [hid]
    exact fun c hc hseg => (h.fin_le c hc hseg).trans hle
  · rw [hid]
    exact h.seg_le
  · intro n idx hidx
    rw [happ.versionsAt_eq h.clean (by simp)] at hidx
    rw [h.bind_value_eq happ hidx, hid]
    exact h.cut n idx hidx
  · intro n
    rw [(happ.cutFrame_eq h.clean (by simp)).2, hid]
    exact h.resume n

/-- A committed unit is the next commit. -/
lemma commit (h : Tracks db commits) (happ : Db.Appended db rs true db') (durable : Bool) : Tracks db' (commits ++
      [{ segId := db'.leadingWalId, fin := db'.leadingWriteOff
         effects := rs.map fun p => p.2.effect, durable }]) := by
  set c : Commit := { segId := db'.leadingWalId, fin := db'.leadingWriteOff
                      effects := rs.map fun p => p.2.effect, durable } with hc
  have hid := happ.leadingWalId
  have hle := happ.log.le
  have hc' := happ.clean h.clean
  have hs' := happ.sound h.sound
  have hview : db'.view = KV.ofCommits (commits ++ [c]) := by
    rw [happ.view_eq h.clean.toInv, h.view, KV.ofCommits_append]
    simp [hc]
  have hfin : ∀ c' ∈ commits ++ [c], c'.segId = db'.leadingWalId → c'.fin ≤ db'.leadingWriteOff := by
    intro c' hmem hseg
    rcases mem_append.mp hmem with hmem | hmem
    · exact (h.fin_le c' hmem (hseg.trans hid)).trans hle
    · rw [mem_singleton.mp hmem]
  -- a cut before the end of the commit drops it
  have hdrop : ∀ {n}, n < db'.leadingWriteOff → commitsBelow (commits ++ [c]) db'.leadingWalId n
      = commitsBelow commits db.leadingWalId n := by
    intro n hn
    have hnil : commitsBelow [c] db'.leadingWalId n = [] := by
      simp [commitsBelow, hc, hn]
    rw [commitsBelow_append, hnil, append_nil, hid]
  refine ⟨hc', hs', hview, hfin, ?_, ?_, ?_⟩
  · intro c' hmem
    rcases mem_append.mp hmem with hmem | hmem
    · rw [hid]
      exact h.seg_le c' hmem
    · rw [mem_singleton.mp hmem]
  · intro n idx hidx
    rcases Nat.lt_or_ge n db'.leadingWriteOff with hn | hn
    · rw [happ.versionsAt_eq h.clean fun _ => hn] at hidx
      rw [hdrop hn, h.bind_value_eq happ hidx]
      exact h.cut n idx hidx
    · rw [hc'.versionsAt_of_le hn] at hidx
      rw [hs'.view_of_represents hidx, hview, commitsBelow_eq_self hfin hn]
  · intro n
    rcases Nat.lt_or_ge n db'.leadingWriteOff with hn | hn
    · rw [hdrop hn, (happ.cutFrame_eq h.clean fun _ => hn).2, hid]
      exact h.resume n
    · rw [hc'.cutFrame_of_le hn, commitsBelow_eq_self hfin hn,
        (happ.frame_commit h.clean.toInv).2.2, lastEnd]
      simp [hc]

end Append

lemma step {s : Db × List Commit} {op : Op} (h : Tracks s.1 s.2) (hroom : s.1.Room op)
    (hop : op ≠ .checkpoint) : Tracks (stepWithLog s op).1 (stepWithLog s op).2 := by
  obtain ⟨db₁, rs, committed, h₁, happ, heff, -⟩ :=
    (Db.step_cases h.clean.toReady hroom hop).cases
  have h' : Tracks db₁ s.2 := by
    rcases h₁ with rfl | hrot
    · exact h
    · exact h.rotate hrot hroom.1
  cases committed with
  | false =>
    have hnil : (s.1.step op).2 = [] := map_eq_nil_iff.mp heff
    have hlog : (stepWithLog s op).2 = s.2 := by simp [stepWithLog, hnil]
    rw [hlog]
    exact h'.abandon happ
  | true =>
    have hne : (s.1.step op).2 ≠ [] := by
      intro hnil
      rw [hnil] at heff
      obtain ⟨init, last, rfl, -⟩ := happ.marks
      simp at heff
    have hlog : (stepWithLog s op).2 = s.2 ++
        [{ segId := (s.1.step op).1.leadingWalId, fin := (s.1.step op).1.leadingWriteOff
           effects := rs.map fun p => p.2.effect, durable := op.durable }] := by
      simp only [stepWithLog, if_neg hne, heff, if_true]
    rw [hlog]
    exact h'.commit happ op.durable

end Tracks

lemma tracks_fresh (segmentBytes : UInt64) : Tracks (Db.fresh segmentBytes) [] := by
  have hc := Db.clean_fresh segmentBytes
  have hs := Db.sound_fresh segmentBytes
  have hlen : (Db.fresh segmentBytes).lead.length = segDataStart := hc.tight
  have hcut : ∀ n, (Db.fresh segmentBytes).cutFrame n = Frame.start segDataStart := by
    intro n
    have hle : ((Db.fresh segmentBytes).lead.take n).length ≤ segDataStart := by
      rw [length_take, hlen]
      exact Nat.min_le_right _ _
    rw [Db.cutFrame, walk_of_lt (Nat.lt_of_le_of_lt hle (by omega))]
    rfl
  refine ⟨hc, hs, rfl, by simp, by simp, ?_, ?_⟩
  · intro n idx hidx
    have hfull : (Db.fresh segmentBytes).versionsAt n = (Db.fresh segmentBytes).versions := by
      rw [Db.versionsAt, hcut, ← hcut segDataStart]
      exact hc.versionsAt_of_le le_rfl
    rw [hfull] at hidx
    rw [hs.view_of_represents hidx]
    rfl
  · intro n
    rw [hcut]
    rfl

/-- Recovery of a cut log shows the commits below the cut, and nothing else. -/
theorem cut_log_recovers_commits_below (db₀ : Db) (h₀ : db₀.Formatted) (ops : List Op)
    (hops : ∀ op ∈ ops, op ≠ .checkpoint) (hroom : db₀.RoomFor ops) (n : ℕ) (db₁ : Db)
    (hcut : Db.CutTo (ops.foldl stepWithLog (db₀, [])).1 n db₁) :
    let s := ops.foldl stepWithLog (db₀, [])
    let below := commitsBelow s.2 s.1.leadingWalId n
    (∀ key outLen, (scanVolume db₁).getKey key outLen = (KV.ofCommits below).get key outLen) ∧
      (scanVolume db₁).leadingWriteOff = lastEnd below s.1.leadingWalId := by
  obtain ⟨segmentBytes, rfl⟩ := h₀.eq_fresh
  have hguard := (hroom.and_mem hops).lift stepWithLog Prod.fst (t := (Db.fresh segmentBytes, [])) fun _ _ => rfl
  have hstep : ∀ (s : Db × List Commit) (op : Op), Tracks s.1 s.2 →
      s.1.Room op ∧ op ≠ .checkpoint → Tracks (stepWithLog s op).1 (stepWithLog s op).2 :=
    fun s op hs hok => hs.step hok.1 hok.2
  have htracks := Run.Guarded.invariant (P := fun s => Tracks s.1 s.2) hstep hguard (tracks_fresh segmentBytes)
  obtain ⟨hrep, hoff, -⟩ := hcut.scanVolume htracks.sound
  refine ⟨?_, ?_⟩
  · intro key outLen
    rw [hcut.getKey_eq htracks.sound htracks.clean, htracks.cut n _ hrep]
  · rw [hoff]
    exact htracks.resume n

theorem cut_log_recovers_commits_below_one_put :
    let s := [maxPut 7].foldl stepWithLog (Db.fresh 5120, [])
    ∃ db₁, Db.CutTo s.1 600 db₁ ∧ (scanVolume db₁).getKey 7 dataMax
      = (KV.ofCommits (commitsBelow s.2 s.1.leadingWalId 600)).get 7 dataMax := by
  intro s
  have hroom : (Db.fresh 5120).RoomFor [maxPut 7] := ⟨⟨by decide, by decide⟩, trivial⟩
  have hused := (Db.used_fresh 5120).run hroom
  have hcut : Db.CutTo s.1 600 (s.1.cutAt 600) := Db.cutTo_cutAt hused.clean.linked 600
  refine ⟨_, hcut, ?_⟩
  have hops : ∀ op ∈ [maxPut 7], op ≠ .checkpoint := by
    intro op hop
    rw [mem_singleton.mp hop]
    simp [maxPut]
  exact (cut_log_recovers_commits_below (Db.fresh 5120)
    Db.formatted_fresh [maxPut 7] hops hroom 600 _ hcut).1 7 dataMax

/-! ### A wrapped segment id -/

namespace Db

/-- The put that gets the id of `base.dat` is the only one of its key that a scan finds, and it is
looked up in `base.dat`. -/
lemma PlacedBy.getKey_wrapped {keys : List UInt32} {db db₁ : Db} (h : PlacedBy keys db)
    (hlen : keys.length + 1 = 2 ^ 32) {key : UInt32} (hkey : key ∉ keys)
    (hcut : CutTo (db.step (maxPut key)).1 5120 db₁) : (scanVolume db₁).getKey key dataMax = .error .unset := by
  obtain ⟨happ, -, -, hoff, -, hbase, -⟩ := h.step_facts key
  obtain ⟨hrot, hzero⟩ := h.wrapped hlen
  set db' := (db.step (maxPut key)).1
  have hid : db'.leadingWalId = baseSegId := by rw [happ.leadingWalId, hzero]
  have hlead : db'.lead.length = 5120 := by
    rw [happ.length, hoff, hrot.lead, length_newFile]
    rfl
  have hwal₁ : db₁.disk.wal db₁.leadingWalId = some db'.lead := by
    have := happ.ready.file
    rw [hcut.lead, hcut.disk, Disk.truncate]
    simp [this, take_of_length_le hlead.le]
  have hcontent : db₁.leadingContent = some db₁.lead := by
    simp [leadingContent, Db.lead, hcut.linked, hwal₁]
  have hlead₁ : db₁.lead = db'.lead := by
    simp [leadingContent, Db.lead, hcut.linked, hwal₁]
  have hbase₁ : db₁.disk.base = some (newFile baseSegId 1) := by
    rw [hcut.disk]
    show db'.disk.base = _
    rw [happ.base, hbase, h.base]
  -- the base holds nothing, and the sealed segments hold the keys put before
  have hother : ∀ e ∈ db₁.baseEntries ++ db₁.sealedEntries, e.key ≠ key := by
    intro e he hek
    rcases mem_append.mp he with he | he
    · rw [baseEntries, hbase₁, fileEntries_newFile] at he
      simp at he
    · obtain ⟨id, hmem, he⟩ := mem_flatMap.mp he
      rw [hcut.sealedWals.mem_iff, happ.sealedWals, hrot.sealedWals] at hmem
      have hne : id ≠ baseSegId := by
        rintro rfl
        rcases mem_cons.mp hmem with h0 | h0
        · exact h.used.clean.leadPos h0.symm
        · exact h.used.clean.sealedPos h0
      have hwal : db₁.disk.wal id = db.disk.wal id := by
        rw [hcut.disk, Disk.truncate]
        simp only [hid, Function.update_of_ne hne]
        rw [happ.wal id (by rwa [hzero]), hrot.wal, ← hrot.leadingWalId, hzero, Function.update_of_ne hne]
      exact hkey (hek ▸ mem_of_getElem? (h.mem_fileEntries (hwal ▸ he)))
  have hseg : segEntries db₁.leadingWalId db₁.lead = [(db.maxRecord key).entry baseSegId 512] := by
    have hlog := happ.log
    rw [h.nextRoom_cases.2.1] at hlog
    rw [segEntries, hlead₁, hlead, ← hoff, hlog.walk_eq_self (by rw [hlead, hoff]), hcut.lead, hid]
    have hcommit : ∀ p ∈ [(512, db.maxRecord key)], p.2.commit = true := by
      intro p hp
      rw [mem_singleton.mp hp]
      exact newRecord_commit
    exact Frame.foldl_single rfl hcommit
  obtain ⟨gen, m, heq, -⟩ := scanVolume_eq hcontent
  rw [heq]
  refine @getKey_of_empty_base db _ key ?_ hbase₁
  rw [foldl_append, Index.find_foldl_upsert, Index.find_foldl_upsert, hseg]
  refine Latest.foldl_upsert_of_new (by simp) (mem_singleton_self _) ?_
  exact Latest.foldl_upsert_of_ne hother

end Db

theorem wrapped_segment_is_not_recovered :
    (Db.fresh 5120).Formatted ∧ ∃ (ops : List Op) (n : ℕ) (db₁ : Db) (key : UInt32), (∀ op ∈ ops, op ≠ .checkpoint) ∧
      let s := ops.foldl stepWithLog (Db.fresh 5120, [])
      Db.CutTo s.1 n db₁ ∧ (scanVolume db₁).getKey key dataMax
        ≠ (KV.ofCommits (commitsBelow s.2 s.1.leadingWalId n)).get key dataMax := by
  refine ⟨Db.formatted_fresh, ?_⟩
  obtain ⟨keys, hplaced, hlen, hnot⟩ := Db.placedBy_all_ids
  set s₀ := (keys.map maxPut).foldl stepWithLog (Db.fresh 5120, []) with hs₀
  have hs1 : s₀.1 = (Db.fresh 5120).run (keys.map maxPut) := (foldl_hom Prod.fst fun _ _ => rfl).symm
  rw [← hs1] at hplaced
  obtain ⟨happ, hreq, -, hoff, -⟩ := hplaced.step_facts 1
  set db' := (s₀.1.step (maxPut 1)).1 with hdb'
  have hcut : Db.CutTo db' 5120 (db'.cutAt 5120) := Db.cutTo_cutAt happ.ready.linked 5120
  refine ⟨keys.map maxPut ++ [maxPut 1], 5120, db'.cutAt 5120, 1, ?_, ?_⟩
  · intro op hop
    have : ∃ key, op = maxPut key := by
      rcases mem_append.mp hop with hop | hop
      · obtain ⟨key, -, rfl⟩ := mem_map.mp hop
        exact ⟨key, rfl⟩
      · exact ⟨1, mem_singleton.mp hop⟩
    obtain ⟨key, rfl⟩ := this
    simp [maxPut]
  · have hlog : stepWithLog s₀ (maxPut 1) = (db', s₀.2 ++
        [{ segId := db'.leadingWalId, fin := 5120, effects := [(1, some maxBlob)]
           durable := true }]) := by
      rw [← hoff]
      simp only [stepWithLog, hreq]
      rfl
    rw [foldl_append, foldl_cons, foldl_nil, hlog]
    refine ⟨hcut, ?_⟩
    have hmap : (KV.ofCommits (commitsBelow (s₀.2 ++
        [{ segId := db'.leadingWalId, fin := 5120, effects := [(1, some maxBlob)]
           durable := true }]) db'.leadingWalId 5120)).get 1 dataMax = .ok maxBlob := by
      rw [commitsBelow_append, KV.ofCommits_append]
      simp [commitsBelow, KV.write, KV.get, length_maxBlob]
    rw [hmap, hplaced.getKey_wrapped hlen hnot hcut]
    simp

end Picowal
