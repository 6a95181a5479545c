import Bitcask.Codec

set_option autoImplicit false

/-! # Data files and `DataStorage`

A database directory holds its data files by id (`Disk`); a `DataStorage` (`data_storage/mod.rs`)
is an open handle on one of them: its id, whether it was opened read-only, and the offset at which
the next row is written. Reads always go to the bytes on disk, so a second handle on the same file
(the one `DataStorage::iter` opens) sees every row written through the first.

`FileDataStorage`, `create_file` and the formatter are not in the repository; what they do is
modelled from the spec and marked so below: `write_row` appends the row's bytes at the write
offset or reports `StorageOverflow` without writing anything, `read_value` decodes exactly `size`
bytes at an offset, and `transit_to_readonly` marks the file read-only. What `DataStorage::open`
itself does is the code's: a writable file is reopened with its write offset at
`FILE_HEADER_SIZE`. The loop that follows iterates `Result::iter` of the storage just built (one
item), so it does not move that offset.

A data file's hint file (`<id>.hint`) is kept with it, as the records the hint file holds. The
code deletes only the data file (`drop`) and creates only the data file (`create_file`), so a hint
file whose data file was deleted stays on disk; it is read only if a data file with the same id is
created again, which takes the file-id counter to wrap. The model drops it with its data file.

Every fallible primitive consumes one outcome of the environment (`Io.attempt`). -/

namespace Bitcask

/-- `RecoveredRow` (`common.rs`): what the recovery scan yields for one row. -/
structure RecoveredRow where
  fileId : FileId
  timestamp : UInt64
  rowOffset : Nat
  rowSize : Nat
  key : Bytes
  isTombstone : Bool
  deriving DecidableEq, Repr

/-- The `RecoveredRow` that `recovered_iter` makes of a scanned row. -/
def RecoveredRow.ofRow (r : RowToRead) : RecoveredRow :=
  ⟨r.rowPosition.fileId, r.timestamp, r.rowPosition.rowOffset, r.rowPosition.rowSize, r.key,
    Bitcask.isTombstone r.value⟩

/-- A data file: its bytes, its read-only permission, and the records of its hint file when it
    has one. -/
structure DiskFile where
  bytes : Bytes
  readonly : Bool
  hint : Option (List RecoveredRow)
  deriving DecidableEq, Repr

/-- The data files of one database directory, by id. -/
abbrev Disk := AList (fun _ : FileId => DiskFile)

/-- `DataStorage`: an open data file. -/
structure DataStorage where
  storageId : FileId
  readonly : Bool
  writeOffset : Nat
  options : DataStorageOptions
  deriving DecidableEq, Repr

/-- `bs` written over `bytes` at `offset`. -/
def writeAt (bytes : Bytes) (offset : Nat) (bs : Bytes) : Bytes :=
  bytes.take offset ++ bs ++ bytes.drop (offset + bs.length)

theorem writeAt_length_self (bytes bs : Bytes) : writeAt bytes bytes.length bs = bytes ++ bs := by
  simp [writeAt]

/-- Bytes written at an offset the file reaches end by the file's end and read back. -/
theorem writeAt_at {bytes : Bytes} {offset : Nat} (h : offset ≤ bytes.length) (bs : Bytes) :
    offset + bs.length ≤ (writeAt bytes offset bs).length ∧
      ((writeAt bytes offset bs).drop offset).take bs.length = bs := by
  have ht : (bytes.take offset).length = offset := List.length_take_of_le h
  refine ⟨by simp [writeAt, ht], ?_⟩
  rw [writeAt, List.append_assoc, List.drop_left' ht, List.take_left]

/-- Writing at an offset keeps the bytes before it. -/
theorem take_prefix_writeAt (bytes : Bytes) {offset : Nat} (bs : Bytes) :
    bytes.take offset <+: writeAt bytes offset bs :=
  ⟨_, (List.append_assoc _ _ _).symm⟩

namespace DataStorage

/-- `DataStorage::new`: `create_file` (modelled from the spec: write the file header, replacing
    whatever file had that id), then a writable handle whose write offset is `FILE_HEADER_SIZE`.
    The file holds the bytes written to it: the capacity `init_data_file_capacity` that
    `create_file` may pre-size it to is not modelled. -/
def new (disk : Disk) (io : Io) (storageId : FileId) (options : DataStorageOptions) :
    Except DataStorageError DataStorage × Disk × Io :=
  match io.attempt with
  | (true, io) => (.error .ioError, disk, io)
  | (false, io) =>
    (.ok ⟨storageId, false, fileHeaderSize, options⟩,
      disk.insert storageId ⟨fileHeader, false, none⟩, io)

/-- `DataStorage::open`: read and check the file header; a writable file gets the write offset
    `FILE_HEADER_SIZE`, a read-only one the file's length. -/
def open' (disk : Disk) (io : Io) (storageId : FileId) (options : DataStorageOptions) :
    Except DataStorageError DataStorage × Io :=
  match io.attempt with
  | (true, io) => (.error .ioError, io)
  | (false, io) =>
    match disk.lookup storageId with
    | none => (.error .ioError, io)
    | some f =>
      if f.bytes.take fileHeaderSize ≠ fileHeader then
        (.error (.dataStorageFormatter .invalidFileHeader), io)
      else if !f.readonly then
        (.ok ⟨storageId, false, fileHeaderSize, options⟩, io)
      else
        (.ok ⟨storageId, true, f.bytes.length, options⟩, io)

/-- `is_readonly`. -/
def isReadonly (s : DataStorage) : Bool := s.readonly

/-- Modelled from the spec: the size `do_flush_writing_file` compares with `0`, the bytes written
    after the file header (`FileDataStorage` is not in the repository). -/
def fileSize (s : DataStorage) : Nat := s.writeOffset - fileHeaderSize

/-- `DataStorageWriter::write_row`: refused on a read-only handle; otherwise (modelled from the
    spec) `StorageOverflow` when the row would end past `max_data_file_size`, with nothing written,
    else the row's bytes are written at the write offset, which moves past them. -/
def writeRow (s : DataStorage) (disk : Disk) (io : Io) (row : RowToWrite) :
    Except DataStorageError RowLocation × DataStorage × Disk × Io :=
  if s.readonly then (.error (.permissionDenied s.storageId), s, disk, io)
  else if s.options.maxDataFileSize.toNat < s.writeOffset + row.toBytes.length then
    (.error (.storageOverflow s.storageId), s, disk, io)
  else
    match io.attempt, disk.lookup s.storageId with
    | (false, io), some f =>
      (.ok ⟨s.storageId, s.writeOffset, row.toBytes.length⟩,
        { s with writeOffset := s.writeOffset + row.toBytes.length },
        disk.insert s.storageId { f with bytes := writeAt f.bytes s.writeOffset row.toBytes }, io)
    | (_, io), _ => (.error .ioError, s, disk, io)

/-- `DataStorageReader::read_value`: decode exactly `size` bytes at `offset` (modelled from the
    spec). -/
def readValue (s : DataStorage) (disk : Disk) (io : Io) (offset size : Nat) :
    Except DataStorageError TimedValue × Io :=
  match io.attempt, disk.lookup s.storageId with
  | (false, io), some f =>
    let bs := (f.bytes.drop offset).take size
    if bs.length < size then (.error (.readRowFailed s.storageId .rowTruncated), io) else
    match decodeRow bs with
    | .ok r => (.ok ⟨r.value, r.timestamp⟩, io)
    | .error e => (.error (.readRowFailed s.storageId e), io)
  | (_, io), _ => (.error .ioError, io)

/-- `DataStorageWriter::transit_to_readonly` (modelled from the spec): mark the file read-only
    and return a read-only handle on it. -/
def transitToReadonly (s : DataStorage) (disk : Disk) (io : Io) :
    Except DataStorageError DataStorage × Disk × Io :=
  match io.attempt, disk.lookup s.storageId with
  | (false, io), some f =>
    (.ok { s with readonly := true, writeOffset := f.bytes.length },
      disk.insert s.storageId { f with readonly := true }, io)
  | (_, io), _ => (.error (.transitToReadOnlyFailed s.storageId), disk, io)

/-- `DataStorageWriter::flush`: the bytes are already on `Disk`; only the outcome is modelled. -/
def flush (s : DataStorage) (io : Io) : Except DataStorageError Unit × Io :=
  match io.attempt with
  | (true, io) => (.error (.flushStorageFailed s.storageId), io)
  | (false, io) => (.ok (), io)

/-- `DataStorage::iter`: open the file again and scan its rows after the header. -/
def iter (s : DataStorage) (disk : Disk) (io : Io) : Except DataStorageError (List RowToRead) × Io :=
  match io.attempt, disk.lookup s.storageId with
  | (false, io), some f =>
    if f.bytes.take fileHeaderSize ≠ fileHeader then
      (.error (.readFileHeaderError .invalidFileHeader s.storageId), io)
    else (.ok (scanFile s.storageId f.bytes), io)
  | (_, io), _ => (.error .ioError, io)


/-! ## Spec lemmas -/

variable {disk disk' : Disk} {io io' : Io} {s s' : DataStorage} {row : RowToWrite}

theorem new_ok {id : FileId} {o : DataStorageOptions} {w : DataStorage}
    (h : DataStorage.new disk io id o = (.ok w, disk', io')) :
    w = ⟨id, false, fileHeaderSize, o⟩ ∧ disk' = disk.insert id ⟨fileHeader, false, none⟩ := by
  unfold DataStorage.new at h
  split at h <;> simp_all

theorem new_of_nil (id : FileId) (o : DataStorageOptions) (hio : io.faults = []) :
    DataStorage.new disk io id o = (.ok ⟨id, false, fileHeaderSize, o⟩, disk.insert id ⟨fileHeader, false, none⟩, io) := by
  simp [DataStorage.new, Io.attempt_of_nil io hio]

/-- An opened file keeps its permission; a read-only one is positioned at its end, a writable one
    at the end of the file header, whatever rows follow the header. -/
theorem open'_ok {id : FileId} {o : DataStorageOptions} (h : DataStorage.open' disk io id o = (.ok s, io')) :
    ∃ f, disk.lookup id = some f ∧ f.bytes.take fileHeaderSize = fileHeader ∧
      s = ⟨id, f.readonly, if f.readonly then f.bytes.length else fileHeaderSize, o⟩ := by
  unfold DataStorage.open' at h
  split at h
  · simp at h
  split at h
  · simp at h
  rename_i f hf
  refine ⟨f, hf, ?_⟩
  split_ifs at h with hh hw <;> simp_all

theorem writeRow_ok {loc : RowLocation}
    (h : s.writeRow disk io row = (.ok loc, s', disk', io')) :
    ∃ f, disk.lookup s.storageId = some f ∧ s.readonly = false ∧
      s.writeOffset + row.toBytes.length ≤ s.options.maxDataFileSize.toNat ∧
      loc = ⟨s.storageId, s.writeOffset, row.toBytes.length⟩ ∧
      s' = { s with writeOffset := s.writeOffset + row.toBytes.length } ∧
      disk' = disk.insert s.storageId { f with bytes := writeAt f.bytes s.writeOffset row.toBytes } := by
  unfold writeRow at h
  split_ifs at h with hr hov
  · simp at h
  · simp at h
  · split at h
    · rename_i f _ hf
      simp only [Prod.mk.injEq, Except.ok.injEq] at h
      obtain ⟨rfl, rfl, rfl, -⟩ := h
      exact ⟨f, hf, by simpa using hr, by omega, rfl, rfl, rfl⟩
    · simp at h

theorem writeRow_error {e : DataStorageError}
    (h : s.writeRow disk io row = (.error e, s', disk', io')) : s' = s ∧ disk' = disk := by
  unfold writeRow at h
  split_ifs at h <;> (try split at h) <;> simp_all


theorem writeRow_of_nil (hio : io.faults = []) (hr : s.readonly = false) {f : DiskFile}
    (hf : disk.lookup s.storageId = some f) :
    s.writeRow disk io row =
      if s.options.maxDataFileSize.toNat < s.writeOffset + row.toBytes.length then
        (.error (.storageOverflow s.storageId), s, disk, io)
      else
        (.ok ⟨s.storageId, s.writeOffset, row.toBytes.length⟩,
          { s with writeOffset := s.writeOffset + row.toBytes.length },
          disk.insert s.storageId { f with bytes := writeAt f.bytes s.writeOffset row.toBytes }, io) := by
  simp [writeRow, hr, hf, Io.attempt_of_nil io hio]

theorem transitToReadonly_of_nil (hio : io.faults = []) {f : DiskFile}
    (hf : disk.lookup s.storageId = some f) :
    s.transitToReadonly disk io =
      (.ok { s with readonly := true, writeOffset := f.bytes.length },
        disk.insert s.storageId { f with readonly := true }, io) := by
  simp [transitToReadonly, hf, Io.attempt_of_nil io hio]

theorem transitToReadonly_ok {s'' : DataStorage}
    (h : s.transitToReadonly disk io = (.ok s'', disk', io')) :
    ∃ f, disk.lookup s.storageId = some f ∧
      s'' = { s with readonly := true, writeOffset := f.bytes.length } ∧
      disk' = disk.insert s.storageId { f with readonly := true } := by
  unfold transitToReadonly at h
  split at h
  · rename_i f _ hf
    simp only [Prod.mk.injEq, Except.ok.injEq] at h
    exact ⟨f, hf, h.1.symm, h.2.1.symm⟩
  · simp at h

/-- A read of a range that holds a row decodes it, when the read's I/O succeeds. -/
theorem readValue_of_attempt (hio : io.attempt.1 = false) {f : DiskFile} {offset size : Nat}
    (hf : disk.lookup s.storageId = some f) (hlen : offset + size ≤ f.bytes.length) :
    s.readValue disk io offset size =
      match decodeRow ((f.bytes.drop offset).take size) with
      | .ok r => (.ok ⟨r.value, r.timestamp⟩, io.attempt.2)
      | .error e => (.error (.readRowFailed s.storageId e), io.attempt.2) := by
  have : ¬ ((f.bytes.drop offset).take size).length < size := by simp; omega
  rcases hat : io.attempt with ⟨b, io₁⟩
  obtain rfl : b = false := by simpa [hat] using hio
  simp only [readValue, hat, hf, this, if_false]

/-- A read past the end of the file's bytes is `RowTruncated`. -/
theorem readValue_truncated (hio : io.attempt.1 = false) {f : DiskFile} {offset size : Nat}
    (hf : disk.lookup s.storageId = some f) (h : ((f.bytes.drop offset).take size).length < size) :
    s.readValue disk io offset size = (.error (.readRowFailed s.storageId .rowTruncated), io.attempt.2) := by
  rcases hat : io.attempt with ⟨b, io₁⟩
  obtain rfl : b = false := by simpa [hat] using hio
  simp only [readValue, hat, hf, h, if_true]

end DataStorage

end Bitcask
