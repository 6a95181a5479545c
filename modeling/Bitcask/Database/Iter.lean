import Bitcask.Database.Core

set_option autoImplicit false

/-! # Iterating over the database's rows

`Database::iter` opens every held data file again, sorts the handles by id and hands their row
iterators to `DatabaseIter` in descending order; `DatabaseIter::new` pops the last one (the
smallest id) as the current iterator, and `next` moves to the next popped iterator whenever the
current one is exhausted. `Database::recovery_iter` does the same with file ids, sorted and
reversed, and opens each file, or its hint file, only when the iteration reaches it
(`DatabaseRecoverIter`).

A `Vec` used as a stack is modelled as a list with its top (the element `pop` returns) first, so
both loops are structural recursions. The row iterator of one file is the list its scan returns
(`StorageIter` never yields an error: it ends at the first row that does not decode). -/

namespace Bitcask

/-- `DatabaseIter`: the current file's remaining rows and the rows of the files still to come
    (top of the stack first). -/
structure DatabaseIter where
  currentIter : Option (List RowToRead)
  remainIters : List (List RowToRead)
  deriving DecidableEq, Repr

namespace DatabaseIter

/-- `DatabaseIter::new`: pop the top iterator as the current one. -/
def new : List (List RowToRead) → DatabaseIter
  | [] => ⟨none, []⟩
  | it :: iters => ⟨some it, iters⟩

/-- The loop of `DatabaseIter::next`, started from the given current iterator. An exhausted
    current iterator is replaced by the popped one; when the stack is empty the pop gives `None`,
    and the next turn breaks. -/
def nextFrom :
    Option (List RowToRead) → List (List RowToRead) → Option (RowToRead × DatabaseIter)
  | none, _ => none
  | some (r :: rs), remain => some (r, ⟨some rs, remain⟩)
  | some [], [] => none
  | some [], it :: remain => nextFrom (some it) remain

/-- `Iterator::next` for `DatabaseIter`. -/
def next (it : DatabaseIter) : Option (RowToRead × DatabaseIter) :=
  nextFrom it.currentIter it.remainIters

/-- The rows a `for` loop over the iterator sees: `next` until it returns `None`, at most `fuel`
    times. -/
def drain : Nat → DatabaseIter → List RowToRead
  | 0, _ => []
  | fuel + 1, it =>
    match it.next with
    | none => []
    | some (r, it) => r :: drain fuel it

/-- Enough fuel to drain the iterator: one `next` per row, plus the final `None`. -/
def size (it : DatabaseIter) : Nat :=
  (it.currentIter.map List.length).getD 0 + (it.remainIters.map List.length).sum + 1

end DatabaseIter

namespace Database

/-- The ids of the held files: the stable ones, then the writing file's (`iter` and
    `recovery_iter` collect them under the writing file's mutex). -/
def heldFileIds (db : Database) : List FileId :=
  db.stableStorages.keys ++ [db.writingStorage.storageId]

/-- `DataStorage::iter` on each opened file in turn. -/
def iterEach (disk : Disk) :
    List DataStorage → Io → Except DataStorageError (List (List RowToRead)) × Io
  | [], io => (.ok [], io)
  | s :: ss, io =>
    match s.iter disk io with
    | (.error e, io) => (.error e, io)
    | (.ok rows, io) =>
      match iterEach disk ss io with
      | (.error e, io) => (.error e, io)
      | (.ok rss, io) => (.ok (rows :: rss), io)

/-- `Database::iter`: open the held files, sort them by id, and build the iterator from their
    row iterators in descending id order (`iter().rev()`), so that `new` pops the smallest id
    first. -/
def iter (db : Database) : Except BitcaskError DatabaseIter × Database :=
  match openEach db.disk db.options db.heldFileIds db.io with
  | (.error e, io) => (.error (.storageError e), { db with io := io })
  | (.ok files, io) =>
    let sorted := files.insertionSort (fun a b => a.storageId ≤ b.storageId)
    match iterEach db.disk sorted io with
    | (.error e, io) => (.error (.storageError e), { db with io := io })
    | (.ok iters, io) =>
      -- `iters` is in ascending id order; reversed it is the `Vec`, whose top is the smallest id.
      (.ok (DatabaseIter.new iters), { db with io := io })

/-! ## Recovery -/

/-- `recovered_iter`: the records of the file's hint file when it has one
    (`HintFile::open_iterator`, modelled from the spec: opening the hint file is one I/O step, and
    it yields its records as written); otherwise open the data file and map its rows. -/
def recoveredIter (disk : Disk) (io : Io) (fileId : FileId) (options : DataStorageOptions) :
    Except BitcaskError (List RecoveredRow) × Io :=
  match (disk.lookup fileId).bind DiskFile.hint with
  | some records =>
    match io.attempt with
    | (true, io) => (.error .ioError, io)
    | (false, io) => (.ok records, io)
  | none =>
    match DataStorage.open' disk io fileId options with
    | (.error e, io) => (.error (.storageError e), io)
    | (.ok s, io) =>
      match s.iter disk io with
      | (.error e, io) => (.error (.storageError e), io)
      | (.ok rows, io) => (.ok (rows.map RecoveredRow.ofRow), io)

end Database

/-- `DatabaseRecoverIter`: the current file's remaining rows and the file ids still to come (top
    of the stack first), with what opening a file needs. -/
structure DatabaseRecoverIter where
  currentIter : Option (List RecoveredRow)
  dataFileIds : List FileId
  disk : Disk
  options : DataStorageOptions
  deriving DecidableEq

namespace DatabaseRecoverIter

/-- `DatabaseRecoverIter::new`: open the file on top of the stack. -/
def new (disk : Disk) (io : Io) (ids : List FileId) (options : DataStorageOptions) :
    Except BitcaskError DatabaseRecoverIter × Io :=
  match ids with
  | [] => (.ok ⟨none, [], disk, options⟩, io)
  | fileId :: ids =>
    match Database.recoveredIter disk io fileId options with
    | (.error e, io) => (.error e, io)
    | (.ok rows, io) => (.ok ⟨some rows, ids, disk, options⟩, io)

/-- One turn of the loop of `DatabaseRecoverIter::next`: when the current file is exhausted,
    open the next one; an error opening it is yielded, and the exhausted iterator stays current. -/
def nextFrom (disk : Disk) (options : DataStorageOptions) :
    Option (List RecoveredRow) → List FileId → Io →
      Option (Except BitcaskError RecoveredRow × DatabaseRecoverIter) × Io
  | none, _, io => (none, io)
  | some (r :: rs), ids, io => (some (.ok r, ⟨some rs, ids, disk, options⟩), io)
  | some [], [], io => (none, io)
  | some [], fileId :: ids, io =>
    match Database.recoveredIter disk io fileId options with
    | (.error e, io) => (some (.error e, ⟨some [], ids, disk, options⟩), io)
    | (.ok (r :: rs), io) => (some (.ok r, ⟨some rs, ids, disk, options⟩), io)
    | (.ok [], io) => nextFrom disk options (some []) ids io

/-- `Iterator::next` for `DatabaseRecoverIter`. -/
def next (it : DatabaseRecoverIter) (io : Io) :
    Option (Except BitcaskError RecoveredRow × DatabaseRecoverIter) × Io :=
  nextFrom it.disk it.options it.currentIter it.dataFileIds io

/-- The items a `for` loop sees: `next` until it returns `None`, at most `fuel` times. -/
def drain : Nat → DatabaseRecoverIter → Io → List (Except BitcaskError RecoveredRow) × Io
  | 0, _, io => ([], io)
  | fuel + 1, it, io =>
    match it.next io with
    | (none, io) => ([], io)
    | (some (r, it), io) =>
      match drain fuel it io with
      | (rs, io) => (r :: rs, io)

end DatabaseRecoverIter

namespace Database

/-- `Database::recovery_iter`: the held ids sorted, reversed (the `Vec`), and handed to
    `DatabaseRecoverIter::new`. As a stack, top first, that is ascending order. -/
def recoveryIter (db : Database) : Except BitcaskError DatabaseRecoverIter × Io :=
  DatabaseRecoverIter.new db.disk db.io (db.heldFileIds.insertionSort (· ≤ ·)) db.options

end Database

end Bitcask
