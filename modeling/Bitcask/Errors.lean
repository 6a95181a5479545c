import Bitcask.Session
import Bitcask.Database.Rollover

set_option autoImplicit false
set_option linter.dupNamespace false

/-! # Failures of the public calls

`validate` relates no size limit to `max_data_file_size`, so a `put` within the limits succeeds
only when the largest row fits in a fresh file. The sticky error is set by failed `put`s and
`drop`s only: `delete` never sets it, and `drop`, `sync` and `stats` never read it. -/

namespace Bitcask

namespace Bitcask

/-! ## Rows that fit -/

/-- **A `put` within the size limits succeeds when the largest row fits in a fresh file**, and
    the store stays healthy. -/
theorem put_ok_of_rows_fit {bc : Bitcask} {key value : Bytes}
    (hfit : fileHeaderSize + dataFileKeyOffset + bc.options.maxKeySize.toNat +
      bc.options.maxValueSize.toNat ≤ bc.options.maxDataFileSize.toNat)
    (hr : bc.database.WriterReady) (hopt : bc.database.options = bc.options.getDatabaseOptions)
    (hok : bc.database.isError = none) (hio : bc.database.io.faults = [])
    (hk : key.length ≤ bc.options.maxKeySize.toNat)
    (hv : value.length ≤ bc.options.maxValueSize.toNat) :
    (bc.put key value).1 = .ok () ∧ (bc.put key value).2.database.isError = none := by
  have hrow : fileHeaderSize + (RowToWrite.new key value bc.database.io.now).toBytes.length ≤
      bc.database.options.maxDataFileSize.toNat := by
    rw [RowToWrite.toBytes_length, hopt]
    simp only [RowToWrite.new, RowToWrite.newWithTimestamp, BitcaskOptions.getDatabaseOptions]
    omega
  obtain ⟨loc, db', hw⟩ := Database.writeWithRetry_of_nil_fits hr hio hrow
  have hmark : db'.isError = none :=
    (congrArg (·.2.isError) hw).symm.trans (Database.writeWithRetry_isError.trans hok)
  simp only [put, if_neg (not_lt.mpr hk), if_neg (not_lt.mpr hv), checkDbError_of_healthy hok]
  rw [show bc.database.write key (TimedValue.immortalValue value) = (.ok loc, db') from hw]
  exact ⟨rfl, hmark⟩

set_option maxRecDepth 20000 in
/-- A `put` on the store `open` leaves on an empty directory. -/
theorem put_ok_of_rows_fit_sample :
    ∃ bc, session ∅ ⟨0, []⟩ sampleOptions [] = some bc ∧
      (bc.put [97] [120]).1 = .ok () ∧ (bc.put [97] [120]).2.database.isError = none := by
  obtain ⟨bc, hs, hfacts⟩ := Option.map_eq_some'.mp (show (session ∅ ⟨0, []⟩ sampleOptions []).map
    (fun bc => decide (bc.options = sampleOptions ∧
      bc.database.options = bc.options.getDatabaseOptions ∧ bc.database.isError = none ∧
      bc.database.io.faults = [])) = some true by decide)
  obtain ⟨ho, hopt, hok, hio⟩ := of_decide_eq_true hfacts
  obtain ⟨bc₀, h₀, h₁⟩ := session_eq_some.mp hs
  obtain rfl : bc₀ = bc := Option.some.inj h₁
  refine ⟨bc₀, hs, put_ok_of_rows_fit ?_ (open'_empty h₀).1.inv.writerReady hopt hok hio ?_ ?_⟩ <;>
    (rw [ho]; decide)

set_option maxRecDepth 20000 in
/-- Options that `validate` accepts, with files of one byte: the first `put`, of an empty key and
    an empty value, overflows a fresh file and marks the store broken. -/
theorem put_overflows_one_byte_files :
    BitcaskOptions.validate ⟨1, 1, 1, 1⟩ = none ∧
      (session ∅ ⟨0, []⟩ ⟨1, 1, 1, 1⟩ []).map
          (fun bc => ((bc.put [] []).1, (bc.put [] []).2.database.isError.isSome)) =
        some (.error (.storageError (.storageOverflow 1)), true) := by
  decide

/-! ## The sticky error -/

/-- `delete` never marks the database broken. -/
theorem delete_isError (bc : Bitcask) (key : Bytes) :
    (bc.delete key).2.database.isError = bc.database.isError := by
  unfold delete
  split
  · rfl
  split_ifs
  · rcases hw : bc.database.write key deletedValue with ⟨_ | _, db⟩ <;>
      exact (congrArg (·.2.isError) hw).symm.trans Database.write_isError
  · rfl

/-- **`delete` does not set the sticky error, and `drop`, `sync` and `stats` do not read it.** -/
theorem sticky_error_not_absorbing (bc : Bitcask) (key : Bytes) (msg : String) :
    (bc.delete key).2.database.isError = bc.database.isError ∧
      let broken : Bitcask := { bc with database := bc.database.markDbError msg }
      broken.drop.1 = bc.drop.1 ∧ broken.drop.2.keydir = bc.drop.2.keydir ∧
        broken.drop.2.database.disk = bc.drop.2.database.disk ∧
        broken.sync.1 = bc.sync.1 ∧ broken.stats = bc.stats := by
  refine ⟨delete_isError bc key, ?_⟩
  unfold drop
  simp only [Database.markDbError, Database.drop_withError]
  rcases bc.database.drop with ⟨_ | ⟨⟩, db⟩ <;> exact ⟨rfl, rfl, rfl, rfl, rfl⟩

set_option maxRecDepth 20000 in
/-- A `delete` whose tombstone overflows a fresh 38-byte file fails without marking the store;
    on a store a failed `put` marked, `drop` succeeds and deletes file `1`. -/
theorem failed_delete_unmarked_broken_drop_ok :
    (session ∅ ⟨0, []⟩ ⟨38, 1, 1, 1⟩ [.put [97] [120]]).map (fun bc =>
        ((bc.delete [97]).1, (bc.delete [97]).2.database.isError, bc.database.stableStorages.keys,
          (bc.delete [97]).2.database.stableStorages.keys)) =
      some (.error (.storageError (.storageOverflow 2)), none, [], [1]) ∧
    ((session ∅ ⟨0, [false, false, false, false, true]⟩ sampleOptions [.put [97] [120]]).map
        (fun bc => (bc.put [98] [121]).2)).map (fun broken =>
          (broken.database.isError.isSome, broken.drop.1, broken.drop.2.database.disk.keys,
            broken.keydir.len, broken.drop.2.keydir.len)) =
      some (true, .ok (), [2], 1, 0) :=
  ⟨by decide, by decide⟩

end Bitcask

end Bitcask
