import Bitcask.Database.Iter

set_option autoImplicit false

/-! # What each database operation can do

One inversion lemma per operation: from its result, the state it leaves, in terms of four named
states. `appendToWriting` is a row appended to the writing file; `rolledOver` is a successful
`do_flush_writing_file` (the next id is the new, empty writing file, and the old writing file is
read-only and in the stable map); `rolloverRefused` is one whose `DataStorage::new` failed (the
id is spent, nothing else moved); `rolloverAbandoned` is one whose `transit_to_readonly` failed
after the new file replaced the writing file, so that the old writing file is held by neither the
writing slot nor the stable map.

The invariants of `Bitcask.Database.Invariant` are proved from these lemmas alone. -/

namespace Bitcask

namespace Database

/-! ## The states an operation leaves -/

/-- The state after `row` is appended to the writing file, whose file on disk is `f`. -/
def appendToWriting (db : Database) (f : DiskFile) (row : RowToWrite) (io : Io) : Database :=
  { db with
    writingStorage := { db.writingStorage with
      writeOffset := db.writingStorage.writeOffset + row.toBytes.length },
    disk := db.disk.insert db.writingStorage.storageId
      { f with bytes := writeAt f.bytes db.writingStorage.writeOffset row.toBytes },
    io := io }

/-- The id the next rollover creates. -/
def nextFileId (db : Database) : FileId := db.fileIdGenerator.generateNextFileId.1

/-- The state after a rollover; `f` is the old writing file on disk. -/
def rolledOver (db : Database) (f : DiskFile) (io : Io) : Database :=
  { db with
    fileIdGenerator := db.fileIdGenerator.generateNextFileId.2,
    writingStorage := ⟨db.nextFileId, false, fileHeaderSize, db.options⟩,
    stableStorages := db.stableStorages.insert db.writingStorage.storageId
      { db.writingStorage with readonly := true, writeOffset := f.bytes.length },
    disk := (db.disk.insert db.nextFileId ⟨fileHeader, false, none⟩).insert
      db.writingStorage.storageId { f with readonly := true },
    hintFileWriter := db.hintFileWriter ++ [db.writingStorage.storageId],
    io := io }

/-- The state after a rollover whose `transit_to_readonly` failed. -/
def rolloverAbandoned (db : Database) (io : Io) : Database :=
  { db with
    fileIdGenerator := db.fileIdGenerator.generateNextFileId.2,
    writingStorage := ⟨db.nextFileId, false, fileHeaderSize, db.options⟩,
    disk := db.disk.insert db.nextFileId ⟨fileHeader, false, none⟩,
    io := io }

/-- The state after `drop` deleted the stable files from `db`. -/
def dropped (db : Database) (io : Io) : Database :=
  { db with
    disk := db.stableStorages.keys.foldl (fun d id => d.erase id) db.disk,
    stableStorages := ∅,
    io := io }

variable {db db' : Database} {row : RowToWrite} {f : DiskFile} {io : Io}

/-! ## Inversion lemmas -/

theorem writeRowToWriting_ok {loc : RowLocation} (h : db.writeRowToWriting row = (.ok loc, db')) :
    ∃ f, db.disk.lookup db.writingStorage.storageId = some f ∧
      db.writingStorage.readonly = false ∧
      db.writingStorage.writeOffset + row.toBytes.length ≤
        db.writingStorage.options.maxDataFileSize.toNat ∧
      loc = ⟨db.writingStorage.storageId, db.writingStorage.writeOffset, row.toBytes.length⟩ ∧
      ∃ io, db' = db.appendToWriting f row io := by
  unfold writeRowToWriting at h
  rcases hw : db.writingStorage.writeRow db.disk db.io row with ⟨r, w, d, io'⟩
  rw [hw, Prod.mk.injEq] at h
  obtain ⟨rfl, rfl⟩ := h
  obtain ⟨f, hf, hr, hfit, rfl, rfl, rfl⟩ := DataStorage.writeRow_ok hw
  exact ⟨f, hf, hr, hfit, rfl, _, rfl⟩

theorem writeRowToWriting_error {e : DataStorageError}
    (h : db.writeRowToWriting row = (.error e, db')) : ∃ io, db' = { db with io := io } := by
  unfold writeRowToWriting at h
  rcases hw : db.writingStorage.writeRow db.disk db.io row with ⟨r, w, d, io'⟩
  rw [hw, Prod.mk.injEq] at h
  obtain ⟨rfl, rfl⟩ := h
  obtain ⟨rfl, rfl⟩ := DataStorage.writeRow_error hw
  exact ⟨_, rfl⟩

theorem doFlushWritingFile_ok (h : db.doFlushWritingFile = (.ok (), db')) :
    (db.writingStorage.fileSize = 0 ∧ db' = db) ∨
    (db.writingStorage.fileSize ≠ 0 ∧
      ∃ f, (db.disk.insert db.nextFileId ⟨fileHeader, false, none⟩).lookup
        db.writingStorage.storageId = some f ∧ ∃ io, db' = db.rolledOver f io) := by
  unfold doFlushWritingFile at h
  split_ifs at h with h0
  · exact .inl ⟨h0, (Prod.mk.inj h).2.symm⟩
  · refine .inr ⟨h0, ?_⟩
    simp only [FileIdGenerator.generateNextFileId] at h
    split at h
    · simp at h
    · rename_i hn
      split at h
      · simp at h
      · rename_i ht
        obtain ⟨rfl, rfl⟩ := DataStorage.new_ok hn
        obtain ⟨f, hf, rfl, rfl⟩ := DataStorage.transitToReadonly_ok ht
        obtain ⟨-, rfl⟩ := Prod.mk.inj h
        exact ⟨f, hf, _, rfl⟩

theorem writeWithRetry_ok {loc : RowLocation} (h : db.writeWithRetry row = (.ok loc, db')) :
    db.writeRowToWriting row = (.ok loc, db') ∨
    ∃ id db₁ db₂, db.writeRowToWriting row = (.error (.storageOverflow id), db₁) ∧
      db₁.doFlushWritingFile = (.ok (), db₂) ∧ db₂.writeRowToWriting row = (.ok loc, db') := by
  unfold writeWithRetry at h
  split at h
  · rename_i id db₁ hw
    split at h
    · simp at h
    · rename_i db₂ hf
      rcases hr : db₂.writeRowToWriting row with ⟨r, db₃⟩
      rw [hr] at h
      obtain ⟨h1, rfl⟩ := Prod.mk.inj h
      cases r with
      | error e => simp [Except.mapError] at h1
      | ok l => exact .inr ⟨id, db₁, db₂, hw, hf, by rw [hr, Except.ok.inj h1]⟩
  · rename_i r db₁ _ hw
    obtain ⟨h1, rfl⟩ := Prod.mk.inj h
    cases r with
    | error e => simp [Except.mapError] at h1
    | ok l => exact .inl (by rw [hw, Except.ok.inj h1])

theorem deleteFiles_ok {disk disk' : Disk} {io' : Io} {ids : List FileId}
    (h : deleteFiles disk io ids = (.ok (), disk', io')) :
    disk' = ids.foldl (fun d id => d.erase id) disk := by
  induction ids generalizing disk io with
  | nil => exact (Prod.mk.inj (Prod.mk.inj h).2).1.symm
  | cons id ids ih =>
    unfold deleteFiles at h
    split at h
    · simp at h
    · exact ih h

theorem drop_ok (h : db.drop = (.ok (), db')) :
    ∃ db₁, db.doFlushWritingFile = (.ok (), db₁) ∧ ∃ io, db' = db₁.dropped io := by
  unfold drop at h
  split at h
  · simp at h
  · rename_i db₁ hf
    split at h
    · simp at h
    · rename_i hd
      obtain ⟨-, rfl⟩ := Prod.mk.inj h
      exact ⟨db₁, hf, _, by rw [deleteFiles_ok hd]; rfl⟩

/-! ## Frame: the sticky error -/

theorem writeRowToWriting_isError : (db.writeRowToWriting row).2.isError = db.isError := by
  unfold writeRowToWriting; split; rfl

theorem doFlushWritingFile_isError : db.doFlushWritingFile.2.isError = db.isError := by
  unfold doFlushWritingFile
  split_ifs
  · rfl
  · simp only [FileIdGenerator.generateNextFileId]
    split
    · rfl
    · split <;> rfl

theorem writeWithRetry_isError : (db.writeWithRetry row).2.isError = db.isError := by
  unfold writeWithRetry
  split
  · rename_i hw
    have h₁ := congrArg (·.2.isError) hw
    simp only [writeRowToWriting_isError] at h₁
    split
    · rename_i hf
      have h₂ := congrArg (·.2.isError) hf
      simp only [doFlushWritingFile_isError] at h₂
      rw [← h₂, h₁]
    · rename_i hf
      have h₂ := congrArg (·.2.isError) hf
      simp only [doFlushWritingFile_isError] at h₂
      rw [writeRowToWriting_isError, ← h₂, h₁]
  · rename_i hw
    have h₁ := congrArg (·.2.isError) hw
    simp only [writeRowToWriting_isError] at h₁
    exact h₁.symm

theorem write_isError {key : Bytes} {value : TimedValue} :
    (db.write key value).2.isError = db.isError :=
  writeWithRetry_isError

theorem drop_isError : db.drop.2.isError = db.isError := by
  unfold drop
  split
  · rename_i hf
    exact (congrArg (·.2.isError) hf).symm.trans doFlushWritingFile_isError
  · rename_i hf
    split <;> exact (congrArg (·.2.isError) hf).symm.trans doFlushWritingFile_isError

/-- `do_flush_writing_file` does not read the sticky error. -/
theorem doFlushWritingFile_withError (x : Option String) :
    ({ db with isError := x } : Database).doFlushWritingFile =
      (db.doFlushWritingFile.1, { db.doFlushWritingFile.2 with isError := x }) := by
  unfold doFlushWritingFile
  split_ifs
  · rfl
  · simp only [FileIdGenerator.generateNextFileId]
    split
    · rfl
    · split <;> rfl

/-- Nor does `Database::drop`. -/
theorem drop_withError (x : Option String) :
    ({ db with isError := x } : Database).drop = (db.drop.1, { db.drop.2 with isError := x }) := by
  unfold drop
  rw [doFlushWritingFile_withError]
  rcases db.doFlushWritingFile with ⟨_ | ⟨⟩, db₁⟩
  · rfl
  · dsimp only
    rcases deleteFiles db₁.disk db₁.io db₁.stableStorages.keys with ⟨_ | ⟨⟩, d, i⟩ <;> rfl

/-! ## When storage I/O succeeds -/

theorem writeRowToWriting_of_nil (hio : db.io.faults = []) (hr : db.writingStorage.readonly = false)
    (hf : db.disk.lookup db.writingStorage.storageId = some f) :
    db.writeRowToWriting row =
      if db.writingStorage.options.maxDataFileSize.toNat <
          db.writingStorage.writeOffset + row.toBytes.length then
        (.error (.storageOverflow db.writingStorage.storageId), db)
      else
        (.ok ⟨db.writingStorage.storageId, db.writingStorage.writeOffset, row.toBytes.length⟩,
          db.appendToWriting f row db.io) := by
  rw [writeRowToWriting, DataStorage.writeRow_of_nil hio hr hf]
  split_ifs <;> rfl

theorem doFlushWritingFile_of_nil (hio : db.io.faults = []) (h0 : db.writingStorage.fileSize ≠ 0)
    (hf : (db.disk.insert db.nextFileId ⟨fileHeader, false, none⟩).lookup
      db.writingStorage.storageId = some f) :
    db.doFlushWritingFile = (.ok (), db.rolledOver f db.io) := by
  unfold doFlushWritingFile
  rw [if_neg h0]
  simp only [FileIdGenerator.generateNextFileId]
  rw [DataStorage.new_of_nil _ _ hio]
  dsimp only
  rw [DataStorage.transitToReadonly_of_nil hio (show (db.disk.insert (db.fileIdGenerator.fileId + 1)
    ⟨fileHeader, false, none⟩).lookup db.writingStorage.storageId = some f from hf)]
  rfl

end Database

end Bitcask
