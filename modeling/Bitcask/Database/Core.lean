import Bitcask.DataStorage
import Mathlib.Data.List.Sort

set_option autoImplicit false

/-! # The database (`database/core.rs`)

`Database` is the struct's fields with what the code reaches through them: the directory's files
(`disk`), the environment (`io`) and the shared file-id counter; the hint writer is its queue of
file ids. Each operation maps the state to a result and the state after it, one `match` per `?`,
keeping the changes made before an error. `read_value` and `reload_data_files` are also given in
the steps between which other threads can run. -/

namespace Bitcask

/-- The stable files: `DashMap<FileId, Mutex<DataStorage>>`. -/
abbrev StableStorages := AList (fun _ : FileId => DataStorage)

/-- `DatabaseStats`; the sizes as `Nat`. -/
structure DatabaseStats where
  numberOfDataFiles : Nat
  totalDataSizeInBytes : Nat
  numberOfPendingHintFiles : Nat
  deriving DecidableEq, Repr

/-- `Database`: see the module docstring for the fields beyond the struct's own. -/
structure Database where
  disk : Disk
  io : Io
  fileIdGenerator : FileIdGenerator
  writingStorage : DataStorage
  stableStorages : StableStorages
  options : DataStorageOptions
  hintFileWriter : List FileId
  isError : Option String
  deriving DecidableEq

namespace Database

/-! ## Opening -/

/-- `DataStorage::open` on each id in turn, stopping at the first error (`collect` into a
    `Result<Vec<_>>`). -/
def openEach (disk : Disk) (options : DataStorageOptions) :
    List FileId → Io → Except DataStorageError (List DataStorage) × Io
  | [], io => (.ok [], io)
  | id :: ids, io =>
    match DataStorage.open' disk io id options with
    | (.error e, io) => (.error e, io)
    | (.ok s, io) =>
      match openEach disk options ids io with
      | (.error e, io) => (.error e, io)
      | (.ok ss, io) => (.ok (s :: ss), io)

/-- `open_storages`: open the given ids in ascending order. -/
def openStorages (disk : Disk) (io : Io) (dataFileIds : List FileId)
    (options : DataStorageOptions) : Except DataStorageError (List DataStorage) × Io :=
  openEach disk options (dataFileIds.insertionSort (· ≤ ·)) io

/-- The first branch of `prepare_load_storages`: a new writing file with the next id. -/
def createWritingStorage (disk : Disk) (io : Io) (gen : FileIdGenerator)
    (options : DataStorageOptions) :
    Except BitcaskError DataStorage × Disk × Io × FileIdGenerator :=
  let (writingFileId, gen) := gen.generateNextFileId
  match DataStorage.new disk io writingFileId options with
  | (.error e, disk, io) => (.error (.storageError e), disk, io, gen)
  | (.ok s, disk, io) => (.ok s, disk, io, gen)

/-- `prepare_load_storages`: open the files; the one with the largest id becomes the writing file
    when it is still writable, otherwise a new writing file is created. -/
def prepareLoadStorages (disk : Disk) (io : Io) (dataFileIds : List FileId)
    (gen : FileIdGenerator) (options : DataStorageOptions) :
    Except BitcaskError (DataStorage × List DataStorage) × Disk × Io × FileIdGenerator :=
  match openStorages disk io dataFileIds options with
  | (.error e, io) => (.error (.storageError e), disk, io, gen)
  | (.ok storages, io) =>
    match storages.getLast? with
    | some s =>
      if s.isReadonly then
        match createWritingStorage disk io gen options with
        | (.error e, disk, io, gen) => (.error e, disk, io, gen)
        | (.ok w, disk, io, gen) => (.ok (w, storages), disk, io, gen)
      else (.ok (s, storages.dropLast), disk, io, gen)
    | none =>
      match createWritingStorage disk io gen options with
      | (.error e, disk, io, gen) => (.error e, disk, io, gen)
      | (.ok w, disk, io, gen) => (.ok (w, storages), disk, io, gen)

/-- The stable map built from a list of storages. -/
def stableMap (storages : List DataStorage) : StableStorages :=
  storages.foldl (fun m s => m.insert s.storageId s) ∅

/-- `Database::open`: sync the generator to the largest id on disk, then load the files. -/
def open' (disk : Disk) (io : Io) (gen : FileIdGenerator) (options : DataStorageOptions) :
    Except BitcaskError Database × Disk × Io × FileIdGenerator :=
  let dataFileIds := disk.keys
  let gen := match dataFileIds.max? with
    | some id => gen.updateFileId id
    | none => gen
  match prepareLoadStorages disk io dataFileIds gen options with
  | (.error e, disk, io, gen) => (.error e, disk, io, gen)
  | (.ok (w, stables), disk, io, gen) =>
    (.ok ⟨disk, io, gen, w, stableMap stables, options, [], none⟩, disk, io, gen)

/-! ## Writing -/

/-- `do_flush_writing_file`: unless the writing file is empty, make the next file the writing
    file and the old one read-only and stable, and queue its hint file. -/
def doFlushWritingFile (db : Database) : Except BitcaskError Unit × Database :=
  if db.writingStorage.fileSize = 0 then (.ok (), db) else
  let (nextFileId, gen) := db.fileIdGenerator.generateNextFileId
  match DataStorage.new db.disk db.io nextFileId db.options with
  | (.error e, disk, io) =>
    (.error (.storageError e), { db with fileIdGenerator := gen, disk := disk, io := io })
  | (.ok next, disk, io) =>
    match db.writingStorage.transitToReadonly disk io with
    | (.error e, disk, io) =>
      (.error (.storageError e),
        { db with fileIdGenerator := gen, writingStorage := next, disk := disk, io := io })
    | (.ok stable, disk, io) =>
      (.ok (),
        { db with
          fileIdGenerator := gen, writingStorage := next, disk := disk, io := io,
          stableStorages := db.stableStorages.insert stable.storageId stable,
          hintFileWriter := db.hintFileWriter ++ [stable.storageId] })

/-- `write_row` on the writing file, its effects written back into the state. -/
def writeRowToWriting (db : Database) (row : RowToWrite) :
    Except DataStorageError RowLocation × Database :=
  match db.writingStorage.writeRow db.disk db.io row with
  | (r, w, disk, io) => (r, { db with writingStorage := w, disk := disk, io := io })

/-- The body of `Database::write` once the row is built: on `StorageOverflow`, flush the
    writing file and retry once. -/
def writeWithRetry (db : Database) (row : RowToWrite) :
    Except BitcaskError RowLocation × Database :=
  match db.writeRowToWriting row with
  | (.error (.storageOverflow _), db) =>
    match db.doFlushWritingFile with
    | (.error e, db) => (.error e, db)
    | (.ok (), db) =>
      match db.writeRowToWriting row with
      | (r, db) => (r.mapError .storageError, db)
  | (r, db) => (r.mapError .storageError, db)

/-- `Database::write`: the row's timestamp is the clock's reading. -/
def write (db : Database) (key : Bytes) (value : TimedValue) :
    Except BitcaskError RowLocation × Database :=
  db.writeWithRetry (RowToWrite.new key value.value db.io.now)

/-- Modelled from the spec: `write_with_timestamp`, used by merge, is `write` with the row's
    original timestamp (it is not in `core.rs`). -/
def writeWithTimestamp (db : Database) (key value : Bytes) (timestamp : UInt64) :
    Except BitcaskError RowLocation × Database :=
  db.writeWithRetry (RowToWrite.newWithTimestamp key value timestamp)

/-- `flush_writing_file`. -/
def flushWritingFile (db : Database) : Except BitcaskError Unit × Database :=
  db.doFlushWritingFile

/-! ## Reading -/

/-- The first step of `read_value`, under the writing file's mutex: the read, when the location
    is in the writing file. -/
def readValueWriting (db : Database) (loc : RowLocation) :
    Option (Except BitcaskError TimedValue × Io) :=
  if loc.fileId = db.writingStorage.storageId then
    match db.writingStorage.readValue db.disk db.io loc.rowOffset loc.rowSize with
    | (r, io) => some (r.mapError .storageError, io)
  else none

/-- `get_file_to_read`. -/
def getFileToRead (db : Database) (fileId : FileId) : Except BitcaskError DataStorage :=
  match db.stableStorages.lookup fileId with
  | some s => .ok s
  | none => .error (.targetFileIdNotFound fileId)

/-- The second step of `read_value`: look the file up in the stable map and read under its
    mutex. -/
def readValueStable (db : Database) (loc : RowLocation) : Except BitcaskError TimedValue × Io :=
  match db.getFileToRead loc.fileId with
  | .error e => (.error e, db.io)
  | .ok s =>
    match s.readValue db.disk db.io loc.rowOffset loc.rowSize with
    | (r, io) => (r.mapError .storageError, io)

/-- `Database::read_value`, both steps on one state. -/
def readValue (db : Database) (loc : RowLocation) : Except BitcaskError TimedValue × Io :=
  match db.readValueWriting loc with
  | some r => r
  | none => db.readValueStable loc

/-! ## Reloading -/

/-- The first step of `reload_data_files`: `prepare_load_storages` on the given ids. -/
def reloadPrepare (db : Database) (dataFileIds : List FileId) :
    Except BitcaskError (DataStorage × List DataStorage) × Database :=
  match prepareLoadStorages db.disk db.io dataFileIds db.fileIdGenerator db.options with
  | (r, disk, io, gen) => (r, { db with disk := disk, io := io, fileIdGenerator := gen })

/-- `mem::replace` of the writing file, under its mutex. -/
def reloadReplaceWriting (db : Database) (writing : DataStorage) : Database :=
  { db with writingStorage := writing }

/-- `stable_storages.clear()`. -/
def reloadClearStable (db : Database) : Database :=
  { db with stableStorages := ∅ }

/-- One insertion of the loop; a file id already loaded is the code's `panic!`, modelled as an
    error of the calling thread. -/
def reloadInsertStable (db : Database) (s : DataStorage) : Except BitcaskError Unit × Database :=
  if s.storageId ∈ db.stableStorages then (.error .ioError, db)
  else (.ok (), { db with stableStorages := db.stableStorages.insert s.storageId s })

/-- The insertion loop of `reload_data_files`. -/
def reloadInsertAll (db : Database) : List DataStorage → Except BitcaskError Unit × Database
  | [] => (.ok (), db)
  | s :: ss =>
    match db.reloadInsertStable s with
    | (.error e, db) => (.error e, db)
    | (.ok (), db) => reloadInsertAll db ss

/-- `Database::reload_data_files`. -/
def reloadDataFiles (db : Database) (dataFileIds : List FileId) :
    Except BitcaskError Unit × Database :=
  match db.reloadPrepare dataFileIds with
  | (.error e, db) => (.error e, db)
  | (.ok (w, stables), db) => (db.reloadReplaceWriting w).reloadClearStable.reloadInsertAll stables

/-! ## Dropping, syncing and the sticky error -/

/-- Modelled from the spec: `fs::delete_file` on each id in turn (the `fs` module is not in the
    repository), stopping at the first failure. -/
def deleteFiles : Disk → Io → List FileId → Except BitcaskError Unit × Disk × Io
  | disk, io, [] => (.ok (), disk, io)
  | disk, io, id :: ids =>
    match io.attempt with
    | (true, io) => (.error .ioError, disk, io)
    | (false, io) => deleteFiles (disk.erase id) io ids

/-- `Database::drop`: flush the writing file, delete every stable file, clear the stable map. -/
def drop (db : Database) : Except BitcaskError Unit × Database :=
  match db.doFlushWritingFile with
  | (.error e, db) => (.error e, db)
  | (.ok (), db) =>
    match deleteFiles db.disk db.io db.stableStorages.keys with
    | (.error e, disk, io) => (.error e, { db with disk := disk, io := io })
    | (.ok (), disk, io) => (.ok (), { db with disk := disk, io := io, stableStorages := ∅ })

/-- `Database::sync` (and `close`): flush the writing file. -/
def sync (db : Database) : Except BitcaskError Unit × Database :=
  match db.writingStorage.flush db.io with
  | (r, io) => (r.mapError .storageError, { db with io := io })

/-- `mark_db_error`. -/
def markDbError (db : Database) (errorString : String) : Database :=
  { db with isError := some errorString }

/-- `check_db_error`. -/
def checkDbError (db : Database) : Except BitcaskError Unit :=
  match db.isError with
  | some msg => .error (.databaseBroken msg)
  | none => .ok ()

/-- `get_max_file_id`: the writing file's id. -/
def getMaxFileId (db : Database) : FileId := db.writingStorage.storageId

/-- `get_file_ids`: the stable ids and the writing file's id. -/
def getFileIds (db : Database) : List FileId × FileId :=
  (db.stableStorages.keys, db.writingStorage.storageId)

/-- `Database::stats`: the held files, the bytes written to them, and the queued hint files. -/
def stats (db : Database) : DatabaseStats :=
  ⟨db.stableStorages.entries.length + 1,
    (db.stableStorages.entries.map fun e => e.2.fileSize).sum + db.writingStorage.fileSize,
    db.hintFileWriter.length⟩

end Database

end Bitcask
