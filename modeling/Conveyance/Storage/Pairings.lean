import Conveyance.Storage.LogDb

/-!
# The paired phones (conveyance-core, storage/pairings.rs)

One table: a row per identity key, whose handle is derived from that key. `record` is a
single `INSERT … ON CONFLICT(id_pub) DO UPDATE`, so it is refused as a whole where the
new row meets another phone's handle or DH key, which the schema keeps unique.
-/

namespace Conveyance.Storage

open Lib Crypto

structure PairingRecord where
  phoneId : String
  idPub : Octets 32
  dhPub : Octets 32
  pairedAt : Int64
  lastSessionAt : Option Int64
deriving DecidableEq

abbrev PairingsDb := List PairingRecord

/-- Put a row in the place of the one with its identity key, or behind the others. The
time of the last session stays. -/
def PairingsDb.upsert (db : PairingsDb) (row : PairingRecord) : PairingsDb :=
  if db.any (·.idPub = row.idPub) then
    db.map fun old => if old.idPub = row.idPub then { row with lastSessionAt := old.lastSessionAt }
      else old
  else db ++ [row]

/-- Another phone has the handle or the DH key. -/
def PairingsDb.conflicts (db : PairingsDb) (row : PairingRecord) : Bool :=
  db.any fun old => old.idPub ≠ row.idPub ∧ (old.phoneId = row.phoneId ∨ old.dhPub = row.dhPub)

section Record

variable (sha256 : Bytes → Octets 32)

def phoneIdFor (idPub : Octets 32) : String := hexEncode ((sha256 idPub.1).1.take 8)

/-- `record`. `broken` is that the database fails for a reason of its own. -/
def PairingsDb.record (broken : Bool) (db : PairingsDb) (idPub dhPub : Octets 32)
    (pairedAt : Int64) : PairingsDb × Except StorageError PairingRecord :=
  let row : PairingRecord := ⟨phoneIdFor sha256 idPub, idPub, dhPub, pairedAt, none⟩
  if broken ∨ db.conflicts row then (db, .error .db) else (db.upsert row, .ok row)

variable {sha256} {broken : Bool} {db : PairingsDb} {idPub dhPub : Octets 32} {pairedAt : Int64}

theorem PairingsDb.record_refused
    (h : broken = true ∨
      db.conflicts ⟨phoneIdFor sha256 idPub, idPub, dhPub, pairedAt, none⟩ = true) :
    PairingsDb.record sha256 broken db idPub dhPub pairedAt = (db, .error .db) :=
  if_pos h

theorem PairingsDb.record_stored
    (h : ¬ (broken = true ∨
      db.conflicts ⟨phoneIdFor sha256 idPub, idPub, dhPub, pairedAt, none⟩ = true)) :
    PairingsDb.record sha256 broken db idPub dhPub pairedAt =
      (db.upsert ⟨phoneIdFor sha256 idPub, idPub, dhPub, pairedAt, none⟩,
        .ok ⟨phoneIdFor sha256 idPub, idPub, dhPub, pairedAt, none⟩) :=
  if_neg h

theorem PairingsDb.mem_upsert (db : PairingsDb) (row : PairingRecord) :
    ∃ stored ∈ db.upsert row, stored.idPub = row.idPub ∧ stored.dhPub = row.dhPub := by
  unfold PairingsDb.upsert
  split_ifs with hold
  · obtain ⟨old, hmem, hid⟩ := List.any_eq_true.mp hold
    refine ⟨_, List.mem_map.mpr ⟨old, hmem, rfl⟩, ?_⟩
    rw [if_pos (of_decide_eq_true hid)]
    exact ⟨rfl, rfl⟩
  · exact ⟨row, by simp, rfl, rfl⟩

end Record

end Conveyance.Storage
