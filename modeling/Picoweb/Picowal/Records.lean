import Picoweb.Lib.HashChains
import Picoweb.Picowal.Db

/-!
# The volume as its readers see it

The chains of the index with the value of each record in place of its location: what
`picowal_db_get_key`, `picowal_db_exists_key` and `picowal_db_list_records` answer, and what a committed
write changes in it.
-/

namespace Picowal

open ByteFile HashChains Option

/-- The records by key, in the chains of the index; a deleted key keeps its place. -/
abbrev Records := Table bucketIdx (Option Bytes)

namespace Records

variable {db : Records} {card : UInt16} {record : UInt32} {v : Bytes}

def value (db : Records) (key : UInt32) : Option Bytes := (db.find key).join

/-- `picowal_db_get_key` into a buffer of `outLen` bytes. -/
def getKey (db : Records) (key : UInt32) (outLen : ℕ) : Option Bytes :=
  (db.value key).filter fun v => v.length ≤ outLen

/-- `picowal_db_exists_key`. -/
def existsKey (db : Records) (key : UInt32) : Bool := (db.value key).isSome

/-- The live records of a card in the order of the index. -/
def liveRecords (db : Records) (card : UInt16) : List UInt32 :=
  (db.entries.filter fun e => e.2.isSome && keyCard e.1 == card.toUInt32).map fun e => keyRecord e.1

/-- `picowal_db_list_records`. -/
def listRecords (db : Records) (card : UInt16) (maxRecords : ℕ) : List UInt32 :=
  if card.toNat > cardMax then [] else (db.liveRecords card).take maxRecords

/-- A committed write of one record: `none` deletes. -/
def write (db : Records) (key : UInt32) (v : Option Bytes) : Records := db.upsert key v

def get (db : Records) (card : UInt16) (record : UInt32) : Option Bytes :=
  (packKey card record).bind db.value

@[simp] lemma value_write_self (db : Records) (key : UInt32) (v : Option Bytes) : (db.write key v).value key = v := by
  simp [value, write]

lemma value_write_of_ne (db : Records) {key key' : UInt32} (h : key' ≠ key) (v : Option Bytes) :
    (db.write key v).value key' = db.value key' := by
  simp [value, write, h]

lemma get_of_packKey {key : UInt32} (h : packKey card record = some key) : db.get card record = db.value key := by
  rw [Records.get, h, bind_some]

lemma packKey_inj {card' : UInt16} {record' key : UInt32} (h : packKey card record = some key)
    (h' : packKey card' record' = some key) : card' = card ∧ record' = record := by
  obtain ⟨-, hc, hr⟩ := packKey_eq_some.1 h
  obtain ⟨-, hc', hr'⟩ := packKey_eq_some.1 h'
  refine ⟨?_, hr'.symm.trans hr⟩
  have hcard : card'.toUInt32.toNat = card.toUInt32.toNat := by rw [← hc, ← hc']
  exact UInt16.toNat_inj.1 hcard

lemma get_write {key : UInt32} (h : packKey card record = some key) (v : Option Bytes)
    (card' : UInt16) (record' : UInt32) : (db.write key v).get card' record' =
      if card' = card ∧ record' = record then v else db.get card' record' := by
  rcases hk : packKey card' record' with _ | key'
  · have hne : ¬ (card' = card ∧ record' = record) := by
      rintro ⟨rfl, rfl⟩
      rw [h] at hk
      cases hk
    simp [Records.get, hk, hne]
  · rw [get_of_packKey hk, get_of_packKey hk]
    by_cases hkey : key' = key
    · subst hkey
      simp [packKey_inj h hk]
    · have hne : ¬ (card' = card ∧ record' = record) := by
        rintro ⟨rfl, rfl⟩
        rw [h, some.injEq] at hk
        exact hkey hk.symm
      rw [value_write_of_ne _ hkey, if_neg hne]

lemma mem_liveRecords_of_get (h : db.get card record = some v) : record ∈ db.liveRecords card := by
  obtain ⟨key, hk, hv⟩ := bind_eq_some_iff.1 h
  obtain ⟨-, hc, hr⟩ := packKey_eq_some.1 hk
  have hfind : db.find key = some (some v) := by simpa [value, join_eq_some_iff] using hv
  refine List.mem_map.2 ⟨(key, some v), ?_, hr⟩
  rw [List.mem_filter]
  exact ⟨Table.mem_entries.2 hfind, by simp [hc]⟩

/-- A listing with room for all records of its card has each of them. -/
lemma mem_listRecords {maxRecords : ℕ} (hroom : (db.liveRecords card).length ≤ maxRecords)
    (h : db.get card record = some v) : record ∈ db.listRecords card maxRecords := by
  obtain ⟨key, hk, -⟩ := bind_eq_some_iff.1 h
  have hcard : ¬ card.toNat > cardMax := not_lt.2 (packKey_eq_some.1 hk).1
  rw [listRecords, if_neg hcard, List.take_of_length_le hroom]
  exact mem_liveRecords_of_get h

/-- A write of another card does not show in a listing. -/
lemma listRecords_write {key : UInt32} (h : keyCard key ≠ card.toUInt32) (v : Option Bytes)
    (maxRecords : ℕ) : (db.write key v).listRecords card maxRecords = db.listRecords card maxRecords := by
  have hfilter := Table.filter_entries_upsert (k := key)
    (p := fun e : UInt32 × Option Bytes => e.2.isSome && keyCard e.1 == card.toUInt32)
    (fun w => by simp [h]) db v
  have hlive : (db.write key v).liveRecords card = db.liveRecords card := by
    rw [liveRecords, liveRecords, write, hfilter]
  rw [listRecords, listRecords, hlive]

lemma get_write_of_card_ne {key : UInt32} (h : keyCard key ≠ card.toUInt32) (v : Option Bytes)
    (record : UInt32) : (db.write key v).get card record = db.get card record := by
  rw [Records.get, Records.get]
  rcases hk : packKey card record with _ | key'
  · rw [bind_none, bind_none]
  · rw [bind_some, bind_some, value_write_of_ne]
    rintro rfl
    exact h (packKey_eq_some.1 hk).2.1

end Records

end Picowal
