import Mathlib.Data.List.TakeWhile
import Picoweb.Picowal.Restart

/-!
# A leading segment that is cut

A crash may leave only the first bytes of the leading segment. What a scan of those bytes applies is
what the engine had applied when its log ended there: a record that is cut, and a unit whose
commit-marked record is cut, are as if they had not been written.
-/

namespace Picowal

open ByteFile List

/-- The directory with a segment cut after `n` bytes. -/
def Disk.truncate (disk : Disk) (id : UInt32) (n : ℕ) : Disk :=
  { disk with wal := Function.update disk.wal id ((disk.wal id).map (take n)) }

lemma Disk.wal_truncate_self {disk : Disk} {id : UInt32} {f : Bytes} (h : disk.wal id = some f)
    (n : ℕ) : (disk.truncate id n).wal id = some (f.take n) := by
  simp [truncate, h]

lemma Disk.wal_truncate_of_ne {disk : Disk} {id id' : UInt32} (h : id' ≠ id) (n : ℕ) :
    (disk.truncate id n).wal id' = disk.wal id' :=
  Function.update_of_ne h _ _

variable {n : ℕ}

/-- A walk over the first bytes of a file is a walk that stops after them. -/
lemma walk_take {f : Bytes} (hn : n ≤ f.length) (off : ℕ) : walk (f.take n) (f.take n).length off = walk f n off := by
  have hlen : (f.take n).length = n := by rw [length_take, Nat.min_eq_left hn]
  have hread : ∀ off, readRecord (f.take n) (f.take n).length off = readRecord f n off := by
    intro off
    apply Option.ext
    intro r
    rw [readRecord_iff_recordAt hn]
    constructor
    · intro h
      have hle : off + r.span ≤ n := hlen ▸ readRecord_le h
      exact ⟨recordAt_congr (by rw [take_take, Nat.min_self]) h hle, hle⟩
    · rintro ⟨h, hle⟩
      exact recordAt_congr (by rw [take_take, Nat.min_self]) h hle
  induction hk : n - off using Nat.strongRecOn generalizing off with
  | ind k ih =>
    cases hr : readRecord f n off with
    | none => rw [walk_of_none hr, walk_of_none ((hread off).trans hr)]
    | some r =>
      have hle := readRecord_le hr
      have hpos := r.span_pos
      rw [walk_of_some hr, walk_of_some ((hread off).trans hr), ih (n - (off + r.span)) (by omega) (off + r.span) rfl]

/-- A walk that stops earlier is a part of one that stops later. -/
lemma walk_prefix {f : Bytes} {m : ℕ} (hnm : n ≤ m) (hm : m ≤ f.length) (off : ℕ) :
    walk f n off <+: walk f m off := by
  induction hk : n - off using Nat.strongRecOn generalizing off with
  | ind k ih =>
    cases hr : readRecord f n off with
    | none =>
      rw [walk_of_none hr]
      exact nil_prefix
    | some r =>
      obtain ⟨hrec, hle⟩ := (readRecord_iff_recordAt (hnm.trans hm)).mp hr
      have hr' : readRecord f m off = some r :=
        (readRecord_iff_recordAt hm).mpr ⟨hrec, hle.trans hnm⟩
      have hpos := r.span_pos
      rw [walk_of_some hr, walk_of_some hr', cons_prefix_cons]
      exact ⟨rfl, ih (n - (off + r.span)) (by omega) (off + r.span) rfl⟩

/-- What a scan applies of the first bytes of a file, it applies of the file. -/
lemma segEntries_take {segId : UInt32} {f : Bytes} {e : IndexEntry}
    (h : e ∈ segEntries segId (f.take n)) : e ∈ segEntries segId f := by
  rcases Nat.le_total f.length n with hn | hn
  · rwa [take_of_length_le hn] at h
  · rw [segEntries, walk_take hn] at h
    obtain ⟨rest, hrest⟩ := walk_prefix hn le_rfl segDataStart
    rw [segEntries, ← hrest, frame_append]
    exact Frame.applied_subset_foldl h

namespace Db

/-- What a scan makes of the first `n` bytes of the leading segment. -/
def cutFrame (db : Db) (n : ℕ) : Frame :=
  frame db.leadingWalId segDataStart (walk (db.lead.take n) (db.lead.take n).length segDataStart)

/-- The versions left when the leading segment is cut after `n` bytes. -/
def versionsAt (db : Db) (n : ℕ) : Set IndexEntry :=
  db.settled ∪ {e | e ∈ (db.cutFrame n).applied}

section Clean

variable {db : Db} (hc : db.Clean)

include hc

lemma Clean.cutFrame_of_le (hn : db.leadingWriteOff ≤ n) : db.cutFrame n = db.leadFrame := by
  rw [cutFrame, leadFrame, leadRecs, take_of_length_le (by rw [hc.tight]; exact hn), hc.tight]

lemma Clean.versionsAt_of_le (hn : db.leadingWriteOff ≤ n) : db.versionsAt n = db.versions := by
  rw [versionsAt, versions, hc.cutFrame_of_le hn]

/-- A cut inside the log keeps the records that end before it. -/
lemma Clean.cutFrame_of_lt (hn : n ≤ db.leadingWriteOff) : db.cutFrame n = frame db.leadingWalId segDataStart
      (db.leadRecs.takeWhile fun p => decide (p.1 + p.2.span ≤ n)) := by
  rw [cutFrame, walk_take (by rw [hc.tight]; exact hn), hc.leadLog.walk_cut hn hc.off_le]

lemma Clean.cutFrame_subset {e : IndexEntry} (he : e ∈ (db.cutFrame n).applied) : e ∈ db.leadFrame.applied := by
  rcases Nat.le_total db.leadingWriteOff n with hn | hn
  · rwa [hc.cutFrame_of_le hn] at he
  · rw [hc.cutFrame_of_lt hn] at he
    obtain ⟨rest, hrest⟩ := takeWhile_prefix (l := db.leadRecs) (p := fun p => decide (p.1 + p.2.span ≤ n))
    rw [leadFrame, ← hrest, frame_append]
    exact Frame.applied_subset_foldl he

lemma Clean.versionsAt_subset {e : IndexEntry} (he : e ∈ db.versionsAt n) : e ∈ db.versions := by
  rcases he with he | he
  · exact .inl he
  · exact .inr (hc.cutFrame_subset he)

end Clean

section Append

variable {db db' : Db} {rs : List (ℕ × Rec)} {committed : Bool}

/-- A commit mark stands at the very end of the unit. -/
lemma Appended.end_of_commit (h : Appended db rs committed db') {p : ℕ × Rec} (hp : p ∈ rs)
    (hmark : p.2.commit = true) : committed = true ∧ p.1 + p.2.span = db'.leadingWriteOff := by
  have hmarks := h.marks
  cases committed with
  | false => exact absurd (hmarks p hp) (by simp [hmark])
  | true =>
    obtain ⟨init, last, rfl, hinit, -⟩ := hmarks
    rcases mem_append.mp hp with hp | hp
    · exact absurd (hinit p hp) (by simp [hmark])
    · obtain ⟨b, -, ho, -, hend⟩ := h.log.append_inv
      rw [mem_singleton.mp hp, ho]
      exact ⟨rfl, hend⟩

/-- A cut before the end of a commit, or anywhere behind an abandoned unit, leaves what the same cut
left before. -/
lemma Appended.cutFrame_eq (h : Appended db rs committed db') (hc : db.Clean)
    (hn : committed = true → n < db'.leadingWriteOff) : (db'.cutFrame n).applied = (db.cutFrame n).applied ∧
      (db'.cutFrame n).committedEnd = (db.cutFrame n).committedEnd := by
  rcases Nat.le_total n db.leadingWriteOff with hold | hold
  · have htake : db'.lead.take n = db.lead.take n := by
      have := congrArg (take n) h.take
      rwa [take_take, take_take, Nat.min_eq_left hold] at this
    rw [cutFrame, htake, h.leadingWalId]
    exact ⟨rfl, rfl⟩
  · -- the records of the unit that are left carry no mark
    have hopen : ∃ ss, db'.cutFrame n = frame db.leadingWalId segDataStart (db.leadRecs ++ ss) ∧
        ∀ p ∈ ss, p.2.commit = false := by
      have hc' := h.clean hc
      rcases Nat.lt_or_ge n db'.leadingWriteOff with hlt | hge
      · have hkeep : ∀ p ∈ db.leadRecs, decide (p.1 + p.2.span ≤ n) = true := by
          intro p hp
          exact decide_eq_true ((hc.leadLog.mem hp).2.2.trans hold)
        refine ⟨rs.takeWhile fun p => decide (p.1 + p.2.span ≤ n), ?_, ?_⟩
        · rw [hc'.cutFrame_of_lt hlt.le, h.leadRecs hc.toInv, h.leadingWalId, takeWhile_append_of_pos hkeep]
        · intro p hp
          by_contra hmark
          have hend := (h.end_of_commit ((takeWhile_sublist _).subset hp) (by simpa using hmark)).2
          have hkept := mem_takeWhile_imp (p := fun p : ℕ × Rec => decide (p.1 + p.2.span ≤ n)) hp
          have := of_decide_eq_true hkept
          omega
      · refine ⟨rs, ?_, ?_⟩
        · rw [hc'.cutFrame_of_le hge, leadFrame, h.leadRecs hc.toInv, h.leadingWalId]
        · intro p hp
          by_contra hmark
          have := hn (h.end_of_commit hp (by simpa using hmark)).1
          omega
    obtain ⟨ss, hss, hmarks⟩ := hopen
    rw [hss, frame_append, hc.cutFrame_of_le hold]
    exact Frame.foldl_applied_of_open hmarks

lemma Appended.versionsAt_eq (h : Appended db rs committed db') (hc : db.Clean)
    (hn : committed = true → n < db'.leadingWriteOff) : db'.versionsAt n = db.versionsAt n := by
  rw [versionsAt, versionsAt, h.settled hc.toInv, (h.cutFrame_eq hc hn).1]

/-- A segment that was just started has nothing to lose. -/
lemma Rotated.cutFrame_eq (h : Rotated db db') (n : ℕ) : db'.cutFrame n = Frame.start segDataStart := by
  have hlen : (db'.lead.take n).length ≤ segDataStart := by
    rw [h.lead, length_take, length_newFile]
    exact Nat.min_le_right _ _
  rw [cutFrame, walk_of_lt (Nat.lt_of_le_of_lt hlen (by omega))]
  rfl

lemma Rotated.versionsAt_eq (h : Rotated db db') (hc : db.Clean)
    (hroom : db.leadingWalId.toNat + 1 < 2 ^ 32) (n : ℕ) : db'.versionsAt n = db.versions := by
  rw [versionsAt, h.cutFrame_eq, h.settled hc.toInv hc.inert hroom]
  simp [Frame.start]

end Append

/-! ### Reading what is left -/

/-- Every index of the versions shows the engine's map. -/
lemma Sound.view_of_represents {db : Db} (hs : db.Sound) {idx : Index}
    (h : idx.Represents db.versions) : (fun k => (idx.find k).bind db.value) = db.view := by
  funext k
  have hmap := h.map_congr hs.represents db.value db.value k fun v hv w hw hkv hkw hstamp =>
    value_of_answer (hs.ties v hv w hw (hkv.trans hkw.symm) hstamp)
  have hbind := congrArg (Option.bind · id) hmap
  simp only [Option.bind_map] at hbind
  exact hbind

/-- The state in which `scan_volume` starts on the directory whose leading segment was cut, whatever
the order of the sealed list. -/
structure CutTo (db : Db) (n : ℕ) (db₁ : Db) : Prop where
  linked : db₁.leadingFd = .linked
  disk : db₁.disk = db.disk.truncate db.leadingWalId n
  lead : db₁.leadingWalId = db.leadingWalId
  sealedWals : db₁.sealedWals.Perm db.sealedWals

/-- The engine itself on the cut directory. -/
def cutAt (db : Db) (n : ℕ) : Db := { db with disk := db.disk.truncate db.leadingWalId n }

lemma cutTo_cutAt {db : Db} (h : db.leadingFd = .linked) (n : ℕ) : CutTo db n (db.cutAt n) :=
  ⟨h, rfl, rfl, List.Perm.refl _⟩

section Cut

variable {db db₁ : Db} {n : ℕ} (h : CutTo db n db₁) (hs : db.Sound)

include h hs

lemma CutTo.wal_lead : db₁.disk.wal db₁.leadingWalId = some (db.lead.take n) := by
  rw [h.disk, h.lead, Disk.wal_truncate_self hs.file]

lemma CutTo.content : db₁.leadingContent = some (db.lead.take n) := by
  rw [leadingContent, h.linked]
  exact h.wal_lead hs

lemma CutTo.lead_eq : db₁.lead = db.lead.take n := by
  rw [Db.lead, h.content hs]
  rfl

lemma CutTo.settled : db₁.settled = db.settled := by
  have hbase : db₁.disk.base = db.disk.base := by rw [h.disk]; rfl
  ext e
  simp only [Db.settled, baseEntries, sealedEntries, hbase, mem_flatMap, h.sealedWals.mem_iff]
  refine or_congr_right (exists_congr fun id => and_congr_right fun hid => ?_)
  have hwal : db₁.disk.wal id = db.disk.wal id := by
    rw [h.disk, Disk.wal_truncate_of_ne (hs.sealed_ne hid)]
  rw [hwal]

/-- The scan finds the versions that are left, and resumes after the last commit among them. -/
lemma CutTo.scanVolume : (scanVolume db₁).index.Represents (db.versionsAt n) ∧
      (scanVolume db₁).leadingWriteOff = (db.cutFrame n).committedEnd ∧
      (scanVolume db₁).resolveReadFd = db₁.resolveReadFd := by
  have hlead := h.lead_eq hs
  obtain ⟨gen, m, heq, -⟩ := scanVolume_eq ((h.content hs).trans (congrArg some hlead.symm))
  rw [heq]
  refine ⟨(Index.represents_clear.foldl_upsert _).congr ?_, ?_, rfl⟩
  · have hset := h.settled hs
    ext e
    rw [versionsAt, ← hset]
    simp only [Set.empty_union, Set.mem_ofPred_eq, mem_append, Set.mem_union, Db.settled,
      cutFrame, segEntries, hlead, h.lead]
  · rw [cutFrame, ← hlead, h.lead]

lemma CutTo.readEntry_eq {e : IndexEntry} (he : e ∈ db.versionsAt n)
    (key : UInt32) : db₁.readEntry key e = db.readEntry key e := by
  have hbase : db₁.disk.base = db.disk.base := by rw [h.disk]; rfl
  rcases he with he | he
  · apply readEntry_of_resolve_eq
    rcases mem_settled he with ⟨hseg, -⟩ | ⟨hseg, -⟩
    · rw [hseg, resolveReadFd_base, resolveReadFd_base, hbase]
    · have hne := hs.sealed_ne hseg
      have h0 : e.segId ≠ baseSegId := fun h0 => hs.sealedPos (h0 ▸ hseg)
      rw [resolve_wal h0 (by rwa [h.lead]), resolve_wal h0 hne, h.disk, Disk.wal_truncate_of_ne hne]
  · obtain ⟨⟨o, r⟩, hp, rfl⟩ := mem_frame_applied he
    obtain ⟨fin, hfin⟩ := isLog_walk (f := db.lead.take n) le_rfl segDataStart
    have hend := readRecord_le (hfin.mem hp).1
    have hspan := r.hdr_le_span
    have hlen : (db.lead.take n).length ≤ n := by simp
    have hf' : db₁.resolveReadFd db.leadingWalId = some (db.lead.take n) := by
      rw [resolveReadFd, if_neg hs.leadPos, h.lead, if_pos rfl, h.content hs]
    refine readEntry_congr (n := n) hs.toInv.resolve_lead hf' ?_ ?_
    · rw [take_take, Nat.min_self]
    · show o + 40 + r.hdr.len.toNat ≤ n
      simp only [recordHdrBytes] at hspan
      omega

/-- The recovered engine answers like the map of what is left. -/
lemma CutTo.getKey_eq (hc : db.Clean) (key : UInt32) (outLen : ℕ) : (Picowal.scanVolume db₁).getKey key outLen
      = KV.get (fun k => ((Picowal.scanVolume db₁).index.find k).bind db.value) key outLen := by
  obtain ⟨hrep, -, hres⟩ := h.scanVolume hs
  have hread : ∀ {k e}, (Picowal.scanVolume db₁).index.find k = some e →
      ∀ key, (Picowal.scanVolume db₁).readEntry key e = db.readEntry key e := by
    intro k e hf key
    rw [← h.readEntry_eq hs (hrep.sound hf).1]
    exact readEntry_of_resolve_eq (congrFun hres e.segId) key
  have hview : (Picowal.scanVolume db₁).view = fun k => ((Picowal.scanVolume db₁).index.find k).bind db.value := by
    funext k
    rw [view]
    cases hf : (Picowal.scanVolume db₁).index.find k with
    | none => rfl
    | some e => simp only [Option.bind_some, value, hread hf]
  rw [← hview]
  refine getKey_eq_view_of_readable ?_ key outLen
  intro k e hf hlive
  rw [hread hf]
  exact hs.toInv.readable hs.sealedPos (hc.versionsAt_subset (hrep.sound hf).1) hlive

end Cut

end Db

end Picowal
