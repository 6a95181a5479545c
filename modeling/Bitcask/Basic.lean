import Mathlib.Algebra.Group.Nat.Basic
import Mathlib.Data.List.AList

set_option autoImplicit false

/-! # Basic data of the store

File ids, byte strings, the on-disk sizes, the error kinds, row locations, options and the
environment of a call. Offsets and sizes are `Nat` (they never pass `max_data_file_size`); the
`usize` options are `UInt64`; the file-id counter is a `UInt32`, whose wrap-around is verified. -/

namespace Bitcask

/-- A data-file id (`FileId = u32`). -/
abbrev FileId := UInt32

/-- A byte string (`Vec<u8>`, `&[u8]`). -/
abbrev Bytes := List UInt8

/-- Modelled from the spec: `DATA_FILE_KEY_OFFSET`, after `crc | timestamp | key_size | value_size`. -/
def dataFileKeyOffset : Nat := 4 + 8 + 8 + 8

/-- Modelled from the spec: `FILE_HEADER_SIZE`, a magic number and a codec version. -/
def fileHeaderSize : Nat := 8

/-- Modelled from the spec: the bytes of the data-file header (magic number, codec version). -/
def fileHeader : Bytes := [0x62, 0x63, 0x73, 0x6b, 0, 0, 0, 1]

@[simp] theorem fileHeader_length : fileHeader.length = fileHeaderSize := rfl

/-- Modelled from the spec: `TOMBSTONE_VALUE`, the bytes of `"bitcask_tombstone"`. -/
def tombstoneValue : Bytes :=
  [98, 105, 116, 99, 97, 115, 107, 95, 116, 111, 109, 98, 115, 116, 111, 110, 101]

/-- Modelled from the spec: `is_tombstone` compares a value with the sentinel. -/
def isTombstone (v : Bytes) : Bool := v == tombstoneValue

/-! ## Errors -/

/-- What decoding a row can report (the formatter's errors). -/
inductive FormatterError
  | crcCheckFailed (expected actual : UInt32)
  | rowTruncated
  | invalidFileHeader
  deriving DecidableEq, Repr

/-- `DataStorageError` (`data_storage/mod.rs`), with an injected I/O failure as `ioError`. -/
inductive DataStorageError
  | readRowFailed (id : FileId) (e : FormatterError)
  | transitToReadOnlyFailed (id : FileId)
  | storageOverflow (id : FileId)
  | permissionDenied (id : FileId)
  | flushStorageFailed (id : FileId)
  | ioError
  | dataStorageFormatter (e : FormatterError)
  | readFileHeaderError (e : FormatterError) (id : FileId)
  deriving DecidableEq, Repr

/-- `BitcaskError` (`error.rs`), restricted to the variants the modelled functions return. -/
inductive BitcaskError
  | ioError
  | databaseBroken (msg : String)
  | invalidParameter (name reason : String)
  | targetFileIdNotFound (id : FileId)
  | storageError (e : DataStorageError)
  | databaseError (e : BitcaskError)
  deriving DecidableEq, Repr

/-- Results of the model's operations are compared by `decide` in the tests. -/
instance decEqExcept {ε α : Type} [DecidableEq ε] [DecidableEq α] : DecidableEq (Except ε α)
  | .error a, .error b =>
    if h : a = b then isTrue (h ▸ rfl) else isFalse fun e => h (Except.error.inj e)
  | .ok a, .ok b => if h : a = b then isTrue (h ▸ rfl) else isFalse fun e => h (Except.ok.inj e)
  | .error _, .ok _ => isFalse Except.noConfusion
  | .ok _, .error _ => isFalse Except.noConfusion

/-- `e.to_string()`, the text `mark_db_error` stores. -/
def BitcaskError.message (e : BitcaskError) : String := reprStr e

/-! ## Locations and values -/

/-- `RowLocation` (`common.rs`): where a row was written. -/
structure RowLocation where
  fileId : FileId
  rowOffset : Nat
  rowSize : Nat
  deriving DecidableEq, Repr

/-- `TimedValue` (`common.rs`): a value with the timestamp of its row. -/
structure TimedValue where
  value : Bytes
  timestamp : UInt64
  deriving DecidableEq, Repr

/-- `TimedValue::immortal_value`. -/
def TimedValue.immortalValue (value : Bytes) : TimedValue := ⟨value, 0⟩

/-- `deleted_value()`: the tombstone written by `delete`. -/
def deletedValue : TimedValue := TimedValue.immortalValue tombstoneValue

/-! ## Options and environment -/

/-- `DataStorageOptions` (`data_storage/mod.rs`); the `usize` fields as `UInt64`. -/
structure DataStorageOptions where
  maxDataFileSize : UInt64
  initDataFileCapacity : UInt64
  deriving DecidableEq, Repr

/-- The environment of a call: the clock reading, and the outcomes (`true` fails) of the storage
    I/O to come, one per fallible primitive; an empty list means every later I/O succeeds. -/
structure Io where
  now : UInt64
  faults : List Bool
  deriving DecidableEq, Repr

/-- Run one fallible I/O primitive: does it fail, and the environment after it. -/
def Io.attempt (io : Io) : Bool × Io :=
  match io.faults with
  | [] => (false, io)
  | b :: rest => (b, { io with faults := rest })

@[simp] theorem Io.attempt_now (io : Io) : (io.attempt).2.now = io.now := by
  unfold Io.attempt; split <;> rfl

theorem Io.attempt_of_nil (io : Io) (h : io.faults = []) : io.attempt = (false, io) := by
  simp [Io.attempt, h]

theorem UInt64.toNat_lt_two_pow (a : UInt64) : a.toNat < 2 ^ 64 := a.toNat_lt_size

/-! ## The file-id generator (`file_id.rs`) -/

/-- `FileIdGenerator`: the `u32` behind its mutex, passed between the main and merge databases. -/
structure FileIdGenerator where
  fileId : UInt32
  deriving DecidableEq, Repr

/-- `FileIdGenerator::new`. -/
def FileIdGenerator.new : FileIdGenerator := ⟨0⟩

/-- `generate_next_file_id`: `id.add(1)` on a `u32`, wrapping past `u32::MAX`. -/
def FileIdGenerator.generateNextFileId (g : FileIdGenerator) : FileId × FileIdGenerator :=
  (g.fileId + 1, ⟨g.fileId + 1⟩)

/-- `update_file_id`: overwrite the counter. -/
def FileIdGenerator.updateFileId (_g : FileIdGenerator) (currentMaxFileId : UInt32) :
    FileIdGenerator :=
  ⟨currentMaxFileId⟩

/-- `get_file_id`. -/
def FileIdGenerator.getFileId (g : FileIdGenerator) : UInt32 := g.fileId

/-- The generated id is one more than the counter, modulo `2 ^ 32`. -/
theorem FileIdGenerator.generateNextFileId_toNat (g : FileIdGenerator) :
    (g.generateNextFileId.1).toNat = (g.fileId.toNat + 1) % 2 ^ 32 := by
  simp [generateNextFileId, UInt32.toNat, UInt32.add_def, BitVec.toNat_add]

/-- Away from the top of the `u32` range the generated id is one more than the counter. -/
theorem FileIdGenerator.generateNextFileId_toNat_of_lt (g : FileIdGenerator)
    (h : g.fileId.toNat + 1 < 2 ^ 32) :
    (g.generateNextFileId.1).toNat = g.fileId.toNat + 1 := by
  rw [generateNextFileId_toNat, Nat.mod_eq_of_lt h]

end Bitcask
