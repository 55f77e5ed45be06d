import Picoweb.Picowal.Reopen

/-!
# The two slots of the superblock

`write_superblock_locked` writes the slot that does not hold the last superblock, so a torn write costs
at most the older one. `sb_slot_valid` rejects a superblock whose leading segment id or seq is 0, though,
and one is written like any other when those counters wrap.
-/

namespace Picowal

open ByteFile

/-- What a torn write leaves in its slot. -/
structure Garbage where
  raw : Bytes
  length : raw.length = sectorBytes
  invalid : sbSlotValid (Superblock.decode raw) = false

/-- The handle, with the superblock the last successful call wrote. -/
structure SbState where
  db : Db
  last : Superblock

inductive SbEvent where
  /-- A call that succeeds, on a handle whose other fields are by now those of `mem`. -/
  | write (mem : Db)
  | torn (garbage : Garbage)
  | reopen (names : List UInt32) (want : UInt64) (format : Bool)

namespace SbState

/-- The handle at a call: only the calls themselves change the superblock file and its generation. -/
def mem (s : SbState) (db : Db) : Db :=
  { db with disk := { db.disk with superblock := s.db.disk.superblock }, sbGeneration := s.db.sbGeneration }

def step (s : SbState) : SbEvent → SbState
  | .write mem => ⟨(s.mem mem).writeSuperblockLocked, (s.mem mem).superblockOf (s.db.sbGeneration + 1)⟩
  | .torn garbage =>
    let target := (s.db.sbGeneration + 1).toNat % sbSlots * sectorBytes
    { s with db.disk.superblock := s.db.disk.superblock.map fun f => pwriteFull f garbage.raw target }
  | .reopen names want format =>
    match loadOrFormat s.db.disk names want format with
    | .ok db => { s with db }
    | .error _ => s

def run (s : SbState) (events : List SbEvent) : SbState := events.foldl step s

def formatted (segmentBytes : UInt64) : SbState :=
  ⟨Db.fresh segmentBytes, formatSuperblock segmentBytes⟩

/-- No counter of the superblock is 0, and there is a next generation. -/
def CountersFit (s : SbState) : SbEvent → Prop
  | .write mem => mem.leadingWalId ≠ 0 ∧ mem.nextSeq ≠ 0 ∧ s.db.sbGeneration.toNat + 1 < 2 ^ 64
  | .torn _ => True
  | .reopen .. => True

/-- The slot of the handle's generation holds the last superblock, and the other one nothing newer. -/
structure Safe (s : SbState) : Prop where
  generation : s.db.sbGeneration = s.last.generation
  file : ∃ f, s.db.disk.superblock = some f ∧ 512 ≤ f.length ∧
    sbSlot f (s.last.generation.toNat % sbSlots) = some s.last ∧
    ∀ sb, sbSlot f ((s.last.generation + 1).toNat % sbSlots) = some sb →
      sb = s.last ∨ sb.generation < s.last.generation

variable {s : SbState}

/-- The slot a call writes is not the one of the last superblock. -/
lemma toNat_succ_mod (g : UInt64) :
    g.toNat % sbSlots = 0 ∧ (g + 1).toNat % sbSlots = 1 ∨ g.toNat % sbSlots = 1 ∧ (g + 1).toNat % sbSlots = 0 := by
  rw [UInt64.toNat_add]
  simp only [sbSlots, UInt64.toNat_one]
  omega

lemma Safe.winner (h : s.Safe) : sbWinner s.db.disk = some s.last := by
  obtain ⟨f, hf, -, hlast, hother⟩ := h.file
  have hslots := toNat_succ_mod s.last.generation
  have hlt : s.last.generation.toNat % sbSlots < sbSlots := Nat.mod_lt _ (by decide)
  obtain ⟨-, hnone⟩ | ⟨f', w, hf', hw, ⟨slot, hslot, hsb⟩, hmax⟩ := sbWinner_cases s.db.disk
  · rw [hnone f hf _ hlt] at hlast
    cases hlast
  · rw [hf] at hf'
    cases hf'
    rw [hw]
    simp only [sbSlots] at hslot
    obtain rfl | rfl : slot = s.last.generation.toNat % sbSlots ∨ slot = (s.last.generation + 1).toNat % sbSlots := by
      omega
    · rw [← hsb, hlast]
    · obtain rfl | hnewer := hother w hsb
      · rfl
      · exact absurd (hmax _ _ hlt hlast) (UInt64.not_le.mpr hnewer)

/-- What 512 bytes in the slot of the next generation leave. -/
lemma Safe.overwrite (h : s.Safe) {raw : Bytes} (hraw : raw.length = sectorBytes) : ∃ f,
    s.db.disk.superblock.map (fun f => pwriteFull f raw ((s.db.sbGeneration + 1).toNat % sbSlots * sectorBytes))
      = some f ∧ 512 ≤ f.length ∧
    sbSlot f (s.last.generation.toNat % sbSlots) = some s.last ∧
    sbSlot f ((s.last.generation + 1).toNat % sbSlots) =
      if sbSlotValid (Superblock.decode raw) then some (Superblock.decode raw) else none := by
  obtain ⟨f, hf, hlen, hlast, -⟩ := h.file
  have hslots := toNat_succ_mod s.last.generation
  have hoff := slot_le_length (Nat.mod_lt (s.last.generation + 1).toNat two_pos) hlen
  rw [h.generation, hf]
  refine ⟨_, rfl, ?_, ?_, sbSlot_writeAt hraw hoff⟩
  · rw [length_writeAt hoff]
    exact hlen.trans (le_max_left _ _)
  · rw [← hlast]
    apply sbSlot_writeAt_ne hraw hlen (Nat.mod_lt _ two_pos) (Nat.mod_lt _ two_pos)
    omega

lemma safe_formatted (segmentBytes : UInt64) : (formatted segmentBytes).Safe := by
  obtain ⟨f, hf, hlen, hslots⟩ := sbSlot_formatDisk Disk.empty segmentBytes
  refine ⟨rfl, f, hf, hlen, hslots _ (Nat.mod_lt _ two_pos), ?_⟩
  intro sb hsb
  rw [hslots _ (Nat.mod_lt _ two_pos)] at hsb
  exact .inl (Option.some.inj hsb).symm

lemma Safe.step (h : s.Safe) {event : SbEvent} (hok : s.CountersFit event) :
    (s.step event).Safe ∧ s.last.generation ≤ (s.step event).last.generation := by
  cases event with
  | write mem =>
    obtain ⟨hlead, hseq, hnext⟩ := hok
    have hvalid : sbSlotValid ((s.mem mem).superblockOf (s.db.sbGeneration + 1)) = true :=
      sbSlotValid_superblockOf hlead (UInt64.pos_iff_ne_zero.mpr hseq) _
    obtain ⟨f, hf, hlen, hlast, hslot⟩ := h.overwrite
      (Superblock.length_encode ((s.mem mem).superblockOf (s.db.sbGeneration + 1)))
    rw [Superblock.decode_encode, if_pos hvalid] at hslot
    have hgen : s.last.generation < s.last.generation + 1 := by
      rw [UInt64.lt_iff_toNat_lt, UInt64.toNat_add, ← h.generation, UInt64.toNat_one, Nat.mod_eq_of_lt hnext]
      exact Nat.lt_succ_self _
    rw [← h.generation] at hgen hslot hlast
    have hfile : (s.mem mem).writeSuperblockLocked.disk.superblock = some f ∧
        (s.mem mem).writeSuperblockLocked.sbGeneration = s.db.sbGeneration + 1 := by
      obtain ⟨file, hfile, rfl⟩ := Option.map_eq_some_iff.mp hf
      simp [Db.writeSuperblockLocked, SbState.mem, hfile, Db.superblockFile]
    refine ⟨⟨hfile.2, f, hfile.1, hlen, hslot, ?_⟩, UInt64.le_of_lt (h.generation ▸ hgen)⟩
    intro sb hsb
    have hback : (s.db.sbGeneration + 1 + 1).toNat % sbSlots = s.db.sbGeneration.toNat % sbSlots := by
      have h1 := toNat_succ_mod s.db.sbGeneration
      have h2 := toNat_succ_mod (s.db.sbGeneration + 1)
      omega
    have hold : sbSlot f ((s.db.sbGeneration + 1 + 1).toNat % sbSlots) = some s.last := by rw [hback, hlast]
    cases hsb.symm.trans hold
    exact .inr (h.generation ▸ hgen)
  | torn garbage =>
    obtain ⟨f, hf, hlen, hlast, hslot⟩ := h.overwrite garbage.length
    refine ⟨⟨h.generation, f, hf, hlen, hlast, ?_⟩, UInt64.le_refl _⟩
    intro sb hsb
    cases hsb.symm.trans (hslot.trans (if_neg (Bool.eq_false_iff.mp garbage.invalid)))
  | reopen names want format =>
    cases hload : loadOrFormat s.db.disk names want format with
    | error e =>
      have hstep : s.step (.reopen names want format) = s := by simp only [SbState.step, hload]
      rw [hstep]
      exact ⟨h, UInt64.le_refl _⟩
    | ok db =>
      have hstep : s.step (.reopen names want format) = { s with db } := by simp only [SbState.step, hload]
      have hvolume : loadVolume s.db.disk names s.last = .ok db := by
        simp only [loadOrFormat, h.winner] at hload
        split_ifs at hload <;> exact hload
      obtain ⟨_, _, _, _, _, -, -, -, -, -, -, hdisk, hgen⟩ := loadVolume_ok hvolume
      rw [hstep]
      exact ⟨⟨hgen, hdisk ▸ h.file⟩, UInt64.le_refl _⟩

lemma Safe.run (h : s.Safe) {events : List SbEvent} (hok : Run.Guarded SbState.step CountersFit s events) :
    (s.run events).Safe ∧ s.last.generation ≤ (s.run events).last.generation := by
  have hstep : ∀ (t : SbState) (event : SbEvent), (t.Safe ∧ s.last.generation ≤ t.last.generation) →
      t.CountersFit event → (t.step event).Safe ∧ s.last.generation ≤ (t.step event).last.generation := by
    rintro t event ⟨ht, hle⟩ hfit
    obtain ⟨hsafe, hle'⟩ := ht.step hfit
    exact ⟨hsafe, UInt64.le_trans hle hle'⟩
  exact hok.invariant hstep ⟨h, UInt64.le_refl _⟩

/-- While the counters fit, the superblock that is found is always that of the last successful call, and
its generation never decreases. -/
theorem last_superblock_recovered (segmentBytes : UInt64) (events : List SbEvent)
    (h : Run.Guarded step CountersFit (formatted segmentBytes) events) :
    let s := formatted segmentBytes
    sbWinner (s.run events).db.disk = some (s.run events).last ∧ ∀ before later, events = before ++ later →
        (s.run before).last.generation ≤ (s.run events).last.generation := by
  intro s
  refine ⟨((safe_formatted segmentBytes).run h).1.winner, ?_⟩
  rintro before later rfl
  obtain ⟨hearlier, hlater⟩ := Run.guarded_append.mp h
  have hbefore : (s.run before).Safe := ((safe_formatted segmentBytes).run hearlier).1
  have hrun : s.run (before ++ later) = (s.run before).run later := List.foldl_append
  rw [hrun]
  exact (hbefore.run hlater).2

theorem last_superblock_recovered_torn_write :
    let s := formatted 1024
    let garbage : Garbage := ⟨List.replicate 512 0, List.length_replicate, by decide +kernel⟩
    let events := [.write s.db, .torn garbage, .reopen [1] 1024 false]
    sbWinner (s.run events).db.disk = some (s.run events).last ∧ (s.run events).last.generation = 2 := by
  intro s garbage events
  have hfit : Run.Guarded step CountersFit s events :=
    ⟨⟨by decide, by decide, by decide⟩, trivial, trivial, trivial⟩
  exact ⟨(last_superblock_recovered 1024 events hfit).1, by decide +kernel⟩

/-- A superblock that names segment 0 is written but not found again, and after a second one no slot is
valid. -/
theorem superblock_of_segment_zero_lost :
    let s := formatted 1024
    let wrapped := { s.db with leadingWalId := 0 }
    sbWinner (s.run [.write wrapped]).db.disk ≠ some (s.run [.write wrapped]).last ∧
      sbWinner (s.run [.write wrapped, .write wrapped]).db.disk = none := by
  decide +kernel

end SbState

end Picowal
