import Bitcask.KeyDir

set_option autoImplicit false
set_option linter.dupNamespace false

/-! # The `Bitcask` facade (`src/bitcask.rs`)

Option validation and the public calls over the keydir, the options and the database. A call under
the keydir's write lock is one step; `get` is two, the keydir read (`getLookup`) and the row read,
between which other calls may run. `foreach` returns the arguments of its closure's calls. -/

namespace Bitcask

/-! ## Options -/

/-- `BitcaskOptions`; the `usize` fields as `UInt64`, without `sync_interval`. -/
structure BitcaskOptions where
  maxDataFileSize : UInt64
  initDataFileCapacity : UInt64
  maxKeySize : UInt64
  maxValueSize : UInt64
  deriving DecidableEq, Repr

namespace BitcaskOptions

/-- `BitcaskOptions::default()`. -/
def default : BitcaskOptions :=
  ⟨128 * 1024 * 1024, 1024 * 1024, 1024, 100 * 1024⟩

/-- One check of `validate`: a zero option is an `InvalidParameter` under the given name. -/
def checkPositive (value : UInt64) (name : String) : Option BitcaskError :=
  if value = 0 then some (.invalidParameter name "need a positive value") else none

/-- `BitcaskOptions::validate`: the four checks in order, each with the name the code gives it
    (the capacity check reports `max_file_size`). -/
def validate (o : BitcaskOptions) : Option BitcaskError :=
  checkPositive o.maxDataFileSize "max_file_size" <|>
  checkPositive o.initDataFileCapacity "max_file_size" <|>
  checkPositive o.maxKeySize "max_key_size" <|>
  checkPositive o.maxValueSize "max_value_size"

/-- `get_database_options`. -/
def getDatabaseOptions (o : BitcaskOptions) : DataStorageOptions :=
  ⟨o.maxDataFileSize, o.initDataFileCapacity⟩

theorem validate_eq_none_iff (o : BitcaskOptions) :
    o.validate = none ↔
      o.maxDataFileSize ≠ 0 ∧ o.initDataFileCapacity ≠ 0 ∧ o.maxKeySize ≠ 0 ∧
        o.maxValueSize ≠ 0 := by
  simp only [validate, checkPositive]
  split_ifs <;> simp_all

/-- The defaults pass `validate`. -/
theorem validate_default : default.validate = none := by decide

/-- A zero initial capacity is reported under the name of the file-size option. -/
theorem validate_zero_capacity (o : BitcaskOptions) (h : o.maxDataFileSize ≠ 0)
    (h0 : o.initDataFileCapacity = 0) :
    o.validate = some (.invalidParameter "max_file_size" "need a positive value") := by
  simp [validate, checkPositive, h, h0]

end BitcaskOptions

/-- `BitcaskStats`. -/
structure BitcaskStats where
  numberOfDataFiles : Nat
  numberOfKeys : Nat
  numberOfPendingHintFiles : Nat
  deriving DecidableEq, Repr

/-! ## The store -/

/-- `Bitcask`: the keydir, the options, the database. -/
structure Bitcask where
  keydir : KeyDir
  options : BitcaskOptions
  database : Database
  deriving DecidableEq

namespace Bitcask

/-- `Bitcask::open` on a directory's files: validate the options, open the database with a
    fresh file-id generator, rebuild the keydir. -/
def open' (disk : Disk) (io : Io) (options : BitcaskOptions) : Except BitcaskError Bitcask :=
  match options.validate with
  | some e => .error e
  | none =>
    match Database.open' disk io FileIdGenerator.new options.getDatabaseOptions with
    | (.error e, _) => .error e
    | (.ok db, _) =>
      match KeyDir.new db with
      | (.error e, _) => .error e
      | (.ok kd, io) => .ok ⟨kd, options, { db with io := io }⟩

/-- Dropping the store (`Drop for Database` calls `close`, which flushes the writing file and
    logs a failure): the directory's files as they are left. -/
def close (bc : Bitcask) : Disk := (bc.database.sync).2.disk

/-- `Bitcask::put`: the size checks, the sticky error, then the write; a failed write marks the
    database broken. -/
def put (bc : Bitcask) (key value : Bytes) : Except BitcaskError Unit × Bitcask :=
  if bc.options.maxKeySize.toNat < key.length then
    (.error (.invalidParameter "key" "key size overflow"), bc)
  else if bc.options.maxValueSize.toNat < value.length then
    (.error (.invalidParameter "value" "values size overflow"), bc)
  else
    match bc.database.checkDbError with
    | .error e => (.error e, bc)
    | .ok () =>
      match bc.database.write key (TimedValue.immortalValue value) with
      | (.error e, db) => (.error e, { bc with database := db.markDbError e.message })
      | (.ok loc, db) => (.ok (), { bc with database := db, keydir := bc.keydir.put key loc })

/-- The first step of `get`: the sticky error, then a copy of the keydir entry. -/
def getLookup (bc : Bitcask) (key : Bytes) : Except BitcaskError (Option RowLocation) :=
  match bc.database.checkDbError with
  | .error e => .error e
  | .ok () => .ok (bc.keydir.get key)

/-- What `get` returns for a value read back: `None` for the tombstone. -/
def valueOf (v : TimedValue) : Option Bytes :=
  if isTombstone v.value then none else some v.value

/-- `Bitcask::get`, both steps on one state. -/
def get (bc : Bitcask) (key : Bytes) : Except BitcaskError (Option Bytes) × Bitcask :=
  match bc.getLookup key with
  | .error e => (.error e, bc)
  | .ok none => (.ok none, bc)
  | .ok (some loc) =>
    match bc.database.readValue loc with
    | (r, io) => (r.map valueOf, { bc with database := { bc.database with io := io } })

/-- `get` with its steps on the states other threads leave between them: the keydir read on `s₁`,
    the look at the writing file under its mutex on `s₂`, the stable map on `s₃`. -/
def getAcross (s₁ s₂ s₃ : Bitcask) (key : Bytes) : Except BitcaskError (Option Bytes) :=
  match s₁.getLookup key with
  | .error e => .error e
  | .ok none => .ok none
  | .ok (some loc) =>
    match s₂.database.readValueWriting loc with
    | some (r, _) => r.map valueOf
    | none => (s₃.database.readValueStable loc).1.map valueOf

/-- On one state, the interleaved `get` is `get`. -/
theorem getAcross_self (bc : Bitcask) (key : Bytes) : getAcross bc bc bc key = (bc.get key).1 := by
  unfold getAcross get Database.readValue
  split <;> try rfl
  split <;> rename_i h <;> simp [h]

/-- `Bitcask::has`. -/
def has (bc : Bitcask) (key : Bytes) : Except BitcaskError Bool :=
  match bc.database.checkDbError with
  | .error e => .error e
  | .ok () => .ok (bc.keydir.get key).isSome

/-- The accumulation loop `acc = f(x, acc)?`. -/
def foldLoop {α T : Type} (f : α → Option T → Except BitcaskError (Option T)) :
    Option T → List α → Except BitcaskError (Option T)
  | acc, [] => .ok acc
  | acc, x :: xs =>
    match f x acc with
    | .error e => .error e
    | .ok acc => foldLoop f acc xs

/-- The rows `Database::iter` yields, drained. -/
def iterRows (bc : Bitcask) : Except BitcaskError (List RowToRead) × Bitcask :=
  match bc.database.iter with
  | (.error e, db) => (.error e, { bc with database := db })
  | (.ok it, db) => (.ok (it.drain it.size), { bc with database := db })

/-- `Bitcask::foreach`: the `(key, value)` arguments of the calls of `f`, in order. -/
def foreach (bc : Bitcask) : Except BitcaskError (List (Bytes × Bytes)) × Bitcask :=
  match bc.database.checkDbError with
  | .error e => (.error e, bc)
  | .ok () =>
    match bc.iterRows with
    | (r, bc) => (r.map fun rows => rows.map fun row => (row.key, row.value), bc)

/-- `Bitcask::fold`. -/
def fold {T : Type} (bc : Bitcask) (f : Bytes → Bytes → Option T → Except BitcaskError (Option T))
    (init : Option T) : Except BitcaskError (Option T) × Bitcask :=
  match bc.database.checkDbError with
  | .error e => (.error e, bc)
  | .ok () =>
    match bc.iterRows with
    | (.error e, bc) => (.error e, bc)
    | (.ok rows, bc) => (foldLoop (fun row acc => f row.key row.value acc) init rows, bc)

/-- `Bitcask::delete`: a tombstone is written only for a key in the keydir. A failed write is
    returned as it is. -/
def delete (bc : Bitcask) (key : Bytes) : Except BitcaskError Unit × Bitcask :=
  match bc.database.checkDbError with
  | .error e => (.error e, bc)
  | .ok () =>
    if bc.keydir.containsKey key then
      match bc.database.write key deletedValue with
      | (.error e, db) => (.error e, { bc with database := db })
      | (.ok _, db) => (.ok (), { bc with database := db, keydir := bc.keydir.delete key })
    else (.ok (), bc)

/-- `Bitcask::drop`: drop the database's files and clear the keydir; a failure marks the
    database broken. -/
def drop (bc : Bitcask) : Except BitcaskError Unit × Bitcask :=
  match bc.database.drop with
  | (.error e, db) =>
    (.error (.databaseError e),
      { bc with database := db.markDbError ("drop database failed. " ++ e.message) })
  | (.ok (), db) => (.ok (), { bc with database := db, keydir := bc.keydir.clear })

/-- `Bitcask::sync`. -/
def sync (bc : Bitcask) : Except BitcaskError Unit × Bitcask :=
  match bc.database.sync with
  | (r, db) => (r, { bc with database := db })

/-- `Bitcask::stats`: the keydir's size and two of `Database::stats`'s counts. -/
def stats (bc : Bitcask) : Except BitcaskError BitcaskStats :=
  .ok ⟨bc.database.stats.numberOfDataFiles, bc.keydir.len,
    bc.database.stats.numberOfPendingHintFiles⟩

end Bitcask

end Bitcask
