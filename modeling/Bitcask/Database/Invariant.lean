import Bitcask.Database.Spec

set_option autoImplicit false

/-! # The database invariant

`Consistent` is the shape every database keeps along a run while its file-id counter stays below
`u32::MAX`, whatever its writing file holds: the writing file is writable and on disk, reaching
its write offset, every stable file is on disk under its own id, every stable id is below the
writing file's id, and the counter is at least every id on disk. The last two facts are what
make the next generated id fresh; `FileIdGenerator.generateNextFileId` wraps at the top of the
range, which is why each lemma that rolls over assumes `gen + 1 < 2 ^ 32`. `Database::open` on a
directory with a non-empty writable file gives a consistent database whose write offset is the
header's end. `Inv` adds that the writing file ends at the write offset, which a database that
wrote its writing file from the start keeps.

`Holds db loc v` says that the database reads a row with value `v` at `loc`: the file is held
(the writing file or a stable one) and the bytes at `loc` decode to a row with that value.
`Keeps db db'` says that `db'` still serves every file `db` serves, keeps every stable file
stable, and reads every row `db` reads. Each
operation's lemma below is proved from the inversion lemmas of `Bitcask.Database.Spec`. -/

namespace Bitcask

namespace Database

/-- What every database keeps, whatever its writing file holds past the write offset. -/
structure Consistent (db : Database) : Prop where
  writing_writable : db.writingStorage.readonly = false
  writing_options : db.writingStorage.options = db.options
  writing_reaches : ∃ f, db.disk.lookup db.writingStorage.storageId = some f ∧
    db.writingStorage.writeOffset ≤ f.bytes.length
  stable_id : ∀ id s, db.stableStorages.lookup id = some s → s.storageId = id
  stable_lt : ∀ id ∈ db.stableStorages, id.toNat < db.writingStorage.storageId.toNat
  stable_disk : ∀ id ∈ db.stableStorages, id ∈ db.disk
  disk_le : ∀ id ∈ db.disk, id.toNat ≤ db.fileIdGenerator.fileId.toNat

/-- The database invariant: a consistent database whose writing file ends at the write
    offset. -/
structure Inv (db : Database) extends db.Consistent : Prop where
  writing_file : ∃ f, db.disk.lookup db.writingStorage.storageId = some f ∧
    f.bytes.length = db.writingStorage.writeOffset

/-- What a write needs of the writing file: it is writable, on disk, and has the database's
    options. -/
structure WriterReady (db : Database) : Prop where
  writing_writable : db.writingStorage.readonly = false
  writing_options : db.writingStorage.options = db.options
  writing_mem : db.writingStorage.storageId ∈ db.disk

/-- The database `Database::open` creates on an empty directory: one empty writing file with the
    id `id`, which the counter holds. -/
def fresh (id : FileId) (io : Io) (o : DataStorageOptions) : Database :=
  ⟨AList.singleton id ⟨fileHeader, false, none⟩, io, ⟨id⟩, ⟨id, false, fileHeaderSize, o⟩, ∅, o, [],
    none⟩

/-- A file id `read_value` serves: the writing file's or a stable file's. -/
def Serves (db : Database) (id : FileId) : Prop :=
  id = db.writingStorage.storageId ∨ id ∈ db.stableStorages

/-- `loc` is the location of a row with value `v` in a file the database serves. -/
def Holds (db : Database) (loc : RowLocation) (v : Bytes) : Prop :=
  db.Serves loc.fileId ∧
  ∃ f r, db.disk.lookup loc.fileId = some f ∧ loc.rowOffset + loc.rowSize ≤ f.bytes.length ∧
    decodeRow ((f.bytes.drop loc.rowOffset).take loc.rowSize) = .ok r ∧ r.value = v

/-- `db'` serves every file `db` serves, keeps its stable files and reads every row it reads. -/
structure Keeps (db db' : Database) : Prop where
  serves : ∀ id, db.Serves id → db'.Serves id
  stable : ∀ id ∈ db.stableStorages, id ∈ db'.stableStorages
  holds : ∀ loc v, db.Holds loc v → db'.Holds loc v

theorem Keeps.refl (db : Database) : db.Keeps db := ⟨fun _ h => h, fun _ h => h, fun _ _ h => h⟩

theorem Keeps.trans {db₁ db₂ db₃ : Database} (h₁ : db₁.Keeps db₂) (h₂ : db₂.Keeps db₃) :
    db₁.Keeps db₃ :=
  ⟨fun id h => h₂.serves id (h₁.serves id h), fun id h => h₂.stable id (h₁.stable id h),
    fun loc v h => h₂.holds loc v (h₁.holds loc v h)⟩

variable {db : Database} {row : RowToWrite} {f : DiskFile} {io : Io} {loc : RowLocation}
  {v : Bytes}

/-! ## Consequences of the invariant -/

theorem Consistent.writing_mem (hi : db.Consistent) : db.writingStorage.storageId ∈ db.disk := by
  obtain ⟨f, hf, -⟩ := hi.writing_reaches
  exact AList.lookup_isSome.mp (by rw [hf]; rfl)

theorem Consistent.writerReady (hi : db.Consistent) : db.WriterReady :=
  ⟨hi.writing_writable, hi.writing_options, hi.writing_mem⟩

theorem WriterReady.lookup_writing (hr : db.WriterReady) :
    ∃ f, db.disk.lookup db.writingStorage.storageId = some f :=
  Option.isSome_iff_exists.mp (AList.lookup_isSome.mpr hr.writing_mem)

/-- The old writing file is still found once the next file is created, whatever its id. -/
theorem WriterReady.lookup_writing_after_new (hr : db.WriterReady) :
    ∃ f, (db.disk.insert db.nextFileId ⟨fileHeader, false, none⟩).lookup
      db.writingStorage.storageId = some f :=
  Option.isSome_iff_exists.mp (AList.lookup_isSome.mpr ((AList.mem_insert _).mpr (.inr hr.writing_mem)))

theorem Inv.writing_length (hi : db.Inv) (hf : db.disk.lookup db.writingStorage.storageId = some f) :
    f.bytes.length = db.writingStorage.writeOffset := by
  obtain ⟨f', hf', hlen⟩ := hi.writing_file
  rwa [Option.some.inj (hf.symm.trans hf')]

theorem Consistent.serves_mem (hi : db.Consistent) {id : FileId} (h : db.Serves id) : id ∈ db.disk := by
  rcases h with rfl | h
  · exact hi.writing_mem
  · exact hi.stable_disk id h

/-- Below the top of the range, the next id is one past the counter. -/
theorem nextFileId_toNat (hb : db.fileIdGenerator.fileId.toNat + 1 < 2 ^ 32) :
    db.nextFileId.toNat = db.fileIdGenerator.fileId.toNat + 1 :=
  FileIdGenerator.generateNextFileId_toNat_of_lt _ hb

/-- Below the top of the range, the next id is not on disk. -/
theorem Consistent.nextFileId_not_mem (hi : db.Consistent)
    (hb : db.fileIdGenerator.fileId.toNat + 1 < 2 ^ 32) : db.nextFileId ∉ db.disk := fun h => by
  have := hi.disk_le _ h
  rw [nextFileId_toNat hb] at this
  omega

theorem Consistent.ne_nextFileId (hi : db.Consistent) (hb : db.fileIdGenerator.fileId.toNat + 1 < 2 ^ 32)
    {id : FileId} (h : id ∈ db.disk) : id ≠ db.nextFileId :=
  fun e => hi.nextFileId_not_mem hb (e ▸ h)

/-- The invariant does not read the environment. -/
theorem Consistent.withIo (hi : db.Consistent) (io : Io) : ({ db with io := io } : Database).Consistent :=
  ⟨hi.1, hi.2, hi.3, hi.4, hi.5, hi.6, hi.7⟩

theorem Inv.withIo (hi : db.Inv) (io : Io) : ({ db with io := io } : Database).Inv :=
  ⟨hi.toConsistent.withIo io, hi.writing_file⟩

theorem Keeps.withIo : db.Keeps { db with io := io } := ⟨fun _ h => h, fun _ h => h, fun _ _ h => h⟩

theorem lookup_singleton_self (id : FileId) (f : DiskFile) :
    (AList.singleton id f : Disk).lookup id = some f := by
  rw [← AList.insert_empty, AList.lookup_insert]

/-- A database holding one file, its writing file, with no stable file and the counter at the
    file's id, is consistent when the file reaches the write offset. -/
theorem Consistent.single {id : FileId} {f : DiskFile} {off : Nat} {o : DataStorageOptions}
    {hq : List FileId} {e : Option String} (hoff : off ≤ f.bytes.length) :
    (⟨AList.singleton id f, io, ⟨id⟩, ⟨id, false, off, o⟩, ∅, o, hq, e⟩ : Database).Consistent := by
  refine ⟨rfl, rfl, ⟨_, lookup_singleton_self _ _, hoff⟩, fun _ _ hs => by simp at hs, nofun, nofun,
    fun id' h => ?_⟩
  rw [List.mem_singleton.mp h]

theorem Inv.fresh {id : FileId} {o : DataStorageOptions} : (fresh id io o).Inv :=
  ⟨Consistent.single fileHeader_length.ge, ⟨_, lookup_singleton_self _ _, rfl⟩⟩

/-! ## Rows survive when their bytes do -/

theorem take_drop_append {a b : Bytes} {o n : Nat} (h : o + n ≤ a.length) :
    ((a ++ b).drop o).take n = (a.drop o).take n := by
  rw [List.drop_append_of_le_length (by omega), List.take_append_of_le_length (by simp; omega)]

theorem take_isPrefix_self (l : Bytes) (n : Nat) : l.take n <+: l := ⟨_, List.take_append_drop _ _⟩

/-- A row stays readable when its file stays served and its bytes up to the row's end are
    kept. -/
theorem Holds.of_kept {db' : Database} (h : db.Holds loc v)
    (hserves : db'.Serves loc.fileId)
    (hdisk : ∀ f, db.disk.lookup loc.fileId = some f → ∃ f', db'.disk.lookup loc.fileId = some f' ∧
      f.bytes.take (loc.rowOffset + loc.rowSize) <+: f'.bytes) :
    db'.Holds loc v := by
  obtain ⟨-, f, r, hf, hlen, hdec, hv⟩ := h
  obtain ⟨f', hf', rest, hb⟩ := hdisk f hf
  have hlen' : (f.bytes.take (loc.rowOffset + loc.rowSize)).length = loc.rowOffset + loc.rowSize := by
    simp [hlen]
  refine ⟨hserves, f', r, hf', ?_, ?_, hv⟩
  · rw [← hb, List.length_append]; omega
  · rwa [← hb, take_drop_append hlen'.ge, List.drop_take, List.take_take, Nat.add_sub_cancel_left,
      min_self]

/-- A row stays readable when its file stays served and its bytes are only extended. -/
theorem Holds.of_extend {db' : Database} (h : db.Holds loc v)
    (hserves : db'.Serves loc.fileId)
    (hdisk : ∀ f, db.disk.lookup loc.fileId = some f →
      ∃ f' rest, db'.disk.lookup loc.fileId = some f' ∧ f'.bytes = f.bytes ++ rest) :
    db'.Holds loc v :=
  h.of_kept hserves fun f hf =>
    let ⟨f', rest, hf', hb⟩ := hdisk f hf
    ⟨f', hf', (take_isPrefix_self _ _).trans ⟨rest, hb.symm⟩⟩

/-! ## Appending a row -/

theorem lookup_appendToWriting (id : FileId) :
    (db.appendToWriting f row io).disk.lookup id =
      if id = db.writingStorage.storageId then
        some { f with bytes := writeAt f.bytes db.writingStorage.writeOffset row.toBytes }
      else db.disk.lookup id := by
  split_ifs with h
  · subst h; simp [appendToWriting]
  · exact AList.lookup_insert_ne h

theorem appendToWriting_lookup (hi : db.Inv)
    (hf : db.disk.lookup db.writingStorage.storageId = some f) (id : FileId) :
    (db.appendToWriting f row io).disk.lookup id =
      if id = db.writingStorage.storageId then some { f with bytes := f.bytes ++ row.toBytes }
      else db.disk.lookup id := by
  rw [lookup_appendToWriting, ← hi.writing_length hf, writeAt_length_self]

theorem Inv.appendToWriting (hi : db.Inv)
    (hf : db.disk.lookup db.writingStorage.storageId = some f) :
    (db.appendToWriting f row io).Inv where
  writing_writable := hi.writing_writable
  writing_options := hi.writing_options
  writing_reaches := ⟨_, (appendToWriting_lookup hi hf _).trans (if_pos rfl), by
    simp only [List.length_append, hi.writing_length hf]; rfl⟩
  writing_file := ⟨_, (appendToWriting_lookup hi hf _).trans (if_pos rfl), by
    simp only [List.length_append, hi.writing_length hf]; rfl⟩
  stable_id := hi.stable_id
  stable_lt := hi.stable_lt
  stable_disk id h := (AList.mem_insert _).mpr (.inr (hi.stable_disk id h))
  disk_le id h := by
    rcases (AList.mem_insert _).mp h with rfl | h
    · exact hi.disk_le _ hi.writing_mem
    · exact hi.disk_le id h

theorem Keeps.appendToWriting (hi : db.Inv)
    (hf : db.disk.lookup db.writingStorage.storageId = some f) :
    db.Keeps (db.appendToWriting f row io) where
  serves _ h := h
  stable _ h := h
  holds loc v h := h.of_extend h.1 fun f' hf' => by
    rw [appendToWriting_lookup hi hf]
    split_ifs with hw
    · rw [hw, hf] at hf'
      cases hf'
      exact ⟨_, row.toBytes, rfl, rfl⟩
    · exact ⟨f', [], hf', (List.append_nil _).symm⟩

/-- The row just written at the write offset, when the file `f` reaches it, is read back with its
    value. -/
theorem Holds.appendToWriting_self {key value : Bytes} {ts : UInt64}
    (hoff : db.writingStorage.writeOffset ≤ f.bytes.length)
    (hk : key.length < 2 ^ 64) (hv : value.length < 2 ^ 64) :
    (db.appendToWriting f (.newWithTimestamp key value ts) io).Holds
      ⟨db.writingStorage.storageId, db.writingStorage.writeOffset,
        (RowToWrite.newWithTimestamp key value ts).toBytes.length⟩ value := by
  have hw := writeAt_at hoff (RowToWrite.newWithTimestamp key value ts).toBytes
  refine ⟨.inl rfl, _, ⟨ts, key, value, dataFileKeyOffset + key.length + value.length⟩,
    (lookup_appendToWriting _).trans (if_pos rfl), hw.1, ?_, rfl⟩
  rw [hw.2]
  simpa using decodeRow_toBytes_append key value [] ts hk hv

/-! ## Rolling over -/

theorem rolledOver_lookup {id : FileId} (hid : id ≠ db.nextFileId) :
    (db.rolledOver f io).disk.lookup id =
      if id = db.writingStorage.storageId then some { f with readonly := true }
      else db.disk.lookup id := by
  split_ifs with h
  · subst h; simp [rolledOver]
  · simp only [rolledOver]
    rw [AList.lookup_insert_ne h, AList.lookup_insert_ne hid]

/-- A rollover files the old writing storage under its own id. -/
theorem rolledOver_stable_id (hs : ∀ id s, db.stableStorages.lookup id = some s → s.storageId = id) :
    ∀ id s, (db.rolledOver f io).stableStorages.lookup id = some s → s.storageId = id := by
  intro id s h
  simp only [rolledOver] at h
  by_cases he : id = db.writingStorage.storageId
  · subst he; rw [AList.lookup_insert] at h; cases h; rfl
  · rw [AList.lookup_insert_ne he] at h; exact hs id s h

section Rollover

variable (hb : db.fileIdGenerator.fileId.toNat + 1 < 2 ^ 32)
include hb

theorem writing_lt_nextFileId (hi : db.Consistent) :
    db.writingStorage.storageId.toNat < db.nextFileId.toNat := by
  have := hi.disk_le _ hi.writing_mem
  rw [nextFileId_toNat hb]; omega

/-- After a rollover the writing file is the new, empty file. -/
theorem rolledOver_lookup_writing (hi : db.Consistent) :
    (db.rolledOver f io).disk.lookup (db.rolledOver f io).writingStorage.storageId =
      some ⟨fileHeader, false, none⟩ := by
  have hlt := writing_lt_nextFileId hb hi
  simp only [Database.rolledOver]
  rw [AList.lookup_insert_ne (ne_of_apply_ne UInt32.toNat (by omega)), AList.lookup_insert]

theorem Consistent.rolledOver (hi : db.Consistent) : (db.rolledOver f io).Consistent := by
  have hlt := writing_lt_nextFileId hb hi
  have hgen : (db.rolledOver f io).fileIdGenerator.fileId.toNat =
      db.fileIdGenerator.fileId.toNat + 1 := nextFileId_toNat hb
  refine ⟨rfl, rfl, ⟨_, rolledOver_lookup_writing hb hi, fileHeader_length.ge⟩,
    rolledOver_stable_id hi.stable_id, ?_, ?_, ?_⟩
  · intro id h
    rcases (AList.mem_insert _).mp h with rfl | h
    · exact hlt
    · exact (hi.stable_lt id h).trans hlt
  · intro id h
    simp only [Database.rolledOver, AList.mem_insert]
    rcases (AList.mem_insert _).mp h with rfl | h
    · exact .inl rfl
    · exact .inr (.inr (hi.stable_disk id h))
  · intro id h
    rw [hgen]
    simp only [Database.rolledOver, AList.mem_insert] at h
    rcases h with rfl | rfl | h
    · have := hi.disk_le _ hi.writing_mem; omega
    · rw [nextFileId_toNat hb]
    · have := hi.disk_le id h; omega

theorem Inv.rolledOver (hi : db.Inv) : (db.rolledOver f io).Inv :=
  ⟨hi.toConsistent.rolledOver hb, ⟨_, rolledOver_lookup_writing hb hi.toConsistent, rfl⟩⟩

theorem Keeps.rolledOver (hi : db.Consistent)
    (hf : (db.disk.insert db.nextFileId ⟨fileHeader, false, none⟩).lookup
      db.writingStorage.storageId = some f) :
    db.Keeps (db.rolledOver f io) where
  serves _ h := .inr ((AList.mem_insert _).mpr h)
  stable _ h := (AList.mem_insert _).mpr (.inr h)
  holds loc v h := by
    have hmem := hi.serves_mem h.1
    refine h.of_extend (.inr ((AList.mem_insert _).mpr h.1)) fun f' hf' => ?_
    · rw [rolledOver_lookup (hi.ne_nextFileId hb hmem)]
      split_ifs with hw
      · rw [AList.lookup_insert_ne (hi.ne_nextFileId hb hi.writing_mem)] at hf
        rw [hw, hf] at hf'
        cases hf'
        exact ⟨_, [], rfl, (List.append_nil _).symm⟩
      · exact ⟨f', [], hf', (List.append_nil _).symm⟩

theorem Consistent.rolloverAbandoned (hi : db.Consistent) : (db.rolloverAbandoned io).Consistent := by
  have hlt := writing_lt_nextFileId hb hi
  refine ⟨rfl, rfl, ⟨⟨fileHeader, false, none⟩, AList.lookup_insert _, fileHeader_length.ge⟩,
    hi.stable_id, fun id h => (hi.stable_lt id h).trans hlt,
    fun id h => (AList.mem_insert _).mpr (.inr (hi.stable_disk id h)), ?_⟩
  intro id h
  show id.toNat ≤ db.nextFileId.toNat
  rw [nextFileId_toNat hb]
  rcases (AList.mem_insert _).mp h with rfl | h
  · rw [nextFileId_toNat hb]
  · have := hi.disk_le id h; omega

/-- A failed `transit_to_readonly` loses the old writing file, and only it. -/
theorem Holds.rolloverAbandoned (hi : db.Consistent) (h : db.Holds loc v)
    (hw : loc.fileId ≠ db.writingStorage.storageId) : (db.rolloverAbandoned io).Holds loc v := by
  have hmem := hi.serves_mem h.1
  refine h.of_extend (.inr (h.1.resolve_left hw)) fun f' hf' => ⟨f', [], ?_, (List.append_nil _).symm⟩
  rw [← hf']
  exact AList.lookup_insert_ne (hi.ne_nextFileId hb hmem)

end Rollover

/-! ## Each operation -/

theorem writeRowToWriting_ok_spec {key value : Bytes} {ts : UInt64} {db' : Database}
    (hi : db.Inv) (hk : key.length < 2 ^ 64) (hv : value.length < 2 ^ 64)
    (h : db.writeRowToWriting (.newWithTimestamp key value ts) = (.ok loc, db')) :
    db'.Inv ∧ db.Keeps db' ∧ db'.fileIdGenerator = db.fileIdGenerator ∧ db'.Holds loc value := by
  obtain ⟨f, hf, -, -, rfl, io, rfl⟩ := writeRowToWriting_ok h
  exact ⟨hi.appendToWriting hf, Keeps.appendToWriting hi hf, rfl,
    Holds.appendToWriting_self (hi.writing_length hf).ge hk hv⟩

theorem doFlushWritingFile_ok_spec {db' : Database} (hi : db.Inv)
    (hb : db.fileIdGenerator.fileId.toNat + 1 < 2 ^ 32) (h : db.doFlushWritingFile = (.ok (), db')) :
    db'.Inv ∧ db.Keeps db' ∧
      db'.fileIdGenerator.fileId.toNat ≤ db.fileIdGenerator.fileId.toNat + 1 := by
  rcases doFlushWritingFile_ok h with ⟨-, rfl⟩ | ⟨-, f, hf, io, rfl⟩
  · exact ⟨hi, Keeps.refl _, by omega⟩
  · exact ⟨hi.rolledOver hb, Keeps.rolledOver hb hi.toConsistent hf, (nextFileId_toNat hb).le⟩

/-- **A successful write keeps the invariant and every row, and its location reads back its
    value.** -/
theorem writeWithRetry_ok_spec {key value : Bytes} {ts : UInt64} {db' : Database} (hi : db.Inv)
    (hb : db.fileIdGenerator.fileId.toNat + 1 < 2 ^ 32)
    (hk : key.length < 2 ^ 64) (hv : value.length < 2 ^ 64)
    (h : db.writeWithRetry (.newWithTimestamp key value ts) = (.ok loc, db')) :
    db'.Inv ∧ db.Keeps db' ∧
      db'.fileIdGenerator.fileId.toNat ≤ db.fileIdGenerator.fileId.toNat + 1 ∧
      db'.Holds loc value := by
  rcases writeWithRetry_ok h with hw | ⟨id, db₁, db₂, hw, hf, hr⟩
  · obtain ⟨hi', hk', hg, hh⟩ := writeRowToWriting_ok_spec hi hk hv hw
    exact ⟨hi', hk', by rw [hg]; omega, hh⟩
  · obtain ⟨io, rfl⟩ := writeRowToWriting_error hw
    obtain ⟨hi₂, hk₂, hg₂⟩ := doFlushWritingFile_ok_spec (hi.withIo io) hb hf
    obtain ⟨hi', hk', hg, hh⟩ := writeRowToWriting_ok_spec hi₂ hk hv hr
    exact ⟨hi', Keeps.withIo.trans (hk₂.trans hk'), by rw [hg]; exact hg₂, hh⟩

theorem mem_foldl_erase {d : Disk} {ids : List FileId} {id : FileId} :
    id ∈ ids.foldl (fun d i => d.erase i) d ↔ id ∈ d ∧ id ∉ ids := by
  induction ids generalizing d with
  | nil => simp
  | cons i ids ih => rw [List.foldl_cons, ih, AList.mem_erase]; simp; tauto

theorem lookup_foldl_erase {d : Disk} {ids : List FileId} {id : FileId} (h : id ∉ ids) :
    (ids.foldl (fun d i => d.erase i) d).lookup id = d.lookup id := by
  induction ids generalizing d with
  | nil => rfl
  | cons i ids ih =>
    rw [List.foldl_cons, ih (fun h' => h (List.mem_cons.mpr (.inr h'))),
      AList.lookup_erase_ne (fun e => h (List.mem_cons.mpr (.inl e)))]

theorem Inv.dropped (hi : db.Inv) : (db.dropped io).Inv := by
  have hw : db.writingStorage.storageId ∉ db.stableStorages.keys := fun h =>
    (lt_irrefl _) (hi.stable_lt _ (AList.mem_keys.mpr h))
  obtain ⟨f, hf, hlen⟩ := hi.writing_file
  have hf' : (db.dropped io).disk.lookup db.writingStorage.storageId = some f := by
    simp only [Database.dropped]; rw [lookup_foldl_erase hw, hf]
  refine ⟨⟨hi.writing_writable, hi.writing_options, ⟨f, hf', hlen.ge⟩, ?_, ?_, ?_, ?_⟩, ⟨f, hf', hlen⟩⟩
  · intro id s hs; simp [Database.dropped] at hs
  · intro id h; exact absurd h (AList.not_mem_empty _)
  · intro id h; exact absurd h (AList.not_mem_empty _)
  · intro id h; exact hi.disk_le id (mem_foldl_erase.mp h).1

/-- A successful `drop` keeps the invariant and leaves no stable file. -/
theorem drop_ok_spec {db' : Database} (hi : db.Inv) (hb : db.fileIdGenerator.fileId.toNat + 1 < 2 ^ 32)
    (h : db.drop = (.ok (), db')) :
    db'.Inv ∧ db'.stableStorages = ∅ ∧
      db'.fileIdGenerator.fileId.toNat ≤ db.fileIdGenerator.fileId.toNat + 1 := by
  obtain ⟨db₁, hf, io, rfl⟩ := drop_ok h
  obtain ⟨hi₁, -, hg⟩ := doFlushWritingFile_ok_spec hi hb hf
  exact ⟨hi₁.dropped, rfl, hg⟩

/-! ## Reading -/

theorem readValueWriting_of_holds (h : db.Holds loc v)
    (hw : loc.fileId = db.writingStorage.storageId) (hio : db.io.attempt.1 = false) :
    ∃ ts, db.readValueWriting loc = some (.ok ⟨v, ts⟩, db.io.attempt.2) := by
  obtain ⟨-, f, r, hf, hlen, hdec, rfl⟩ := h
  rw [hw] at hf
  refine ⟨r.timestamp, ?_⟩
  simp [readValueWriting, hw, DataStorage.readValue_of_attempt hio hf hlen, hdec, Except.mapError]

theorem readValueWriting_of_ne (hw : loc.fileId ≠ db.writingStorage.storageId) :
    db.readValueWriting loc = none := by
  simp [readValueWriting, hw]

theorem readValueStable_of_holds (hs : ∀ id s, db.stableStorages.lookup id = some s → s.storageId = id)
    (h : db.Holds loc v)
    (hw : loc.fileId ≠ db.writingStorage.storageId) (hio : db.io.attempt.1 = false) :
    ∃ ts, db.readValueStable loc = (.ok ⟨v, ts⟩, db.io.attempt.2) := by
  obtain ⟨hsv, f, r, hf, hlen, hdec, rfl⟩ := h
  obtain ⟨s, hls⟩ := Option.isSome_iff_exists.mp (AList.lookup_isSome.mpr (hsv.resolve_left hw))
  have hsf : s.storageId = loc.fileId := hs _ _ hls
  rw [← hsf] at hf
  refine ⟨r.timestamp, ?_⟩
  simp [readValueStable, getFileToRead, hls, DataStorage.readValue_of_attempt hio hf hlen, hdec,
    Except.mapError]

/-- **Every row the database holds is read back with its value.** -/
theorem readValue_of_holds (hs : ∀ id s, db.stableStorages.lookup id = some s → s.storageId = id)
    (h : db.Holds loc v) (hio : db.io.attempt.1 = false) :
    ∃ ts, db.readValue loc = (.ok ⟨v, ts⟩, db.io.attempt.2) := by
  by_cases hw : loc.fileId = db.writingStorage.storageId
  · obtain ⟨ts, hr⟩ := readValueWriting_of_holds h hw hio
    exact ⟨ts, by rw [readValue, hr]⟩
  · obtain ⟨ts, hr⟩ := readValueStable_of_holds hs h hw hio
    exact ⟨ts, by rw [readValue, readValueWriting_of_ne hw, hr]⟩

/-- A successful read of a location that holds `v` returns `v`. -/
theorem readValue_ok_of_holds {tv : TimedValue} (hi : db.Inv) (hh : db.Holds loc v)
    (h : (db.readValue loc).1 = .ok tv) : tv.value = v := by
  rcases hat : db.io.attempt with ⟨_ | _, io⟩
  · obtain ⟨ts, hr⟩ := readValue_of_holds hi.stable_id hh (by simp [hat])
    rw [hr] at h
    cases h
    rfl
  · have hr (s : DataStorage) : s.readValue db.disk db.io loc.rowOffset loc.rowSize =
        (.error .ioError, io) := by simp [DataStorage.readValue, hat]
    by_cases hw : loc.fileId = db.writingStorage.storageId
    · simp [readValue, readValueWriting, hw, hr, Except.mapError] at h
    · rw [readValue, readValueWriting_of_ne hw] at h
      rcases hl : db.stableStorages.lookup loc.fileId with _ | s <;>
        simp [readValueStable, getFileToRead, hl, hr, Except.mapError] at h

/-- A read of a row in a file the database serves under its own id, when the read's I/O
    succeeds. -/
theorem readValue_of_file {f : DiskFile} {r : DecodedRow} (hf : db.disk.lookup loc.fileId = some f)
    (hlen : loc.rowOffset + loc.rowSize ≤ f.bytes.length)
    (hdec : decodeRow ((f.bytes.drop loc.rowOffset).take loc.rowSize) = .ok r)
    (hs : loc.fileId = db.writingStorage.storageId ∨
      ∃ s, db.stableStorages.lookup loc.fileId = some s ∧ s.storageId = loc.fileId)
    (hio : db.io.attempt.1 = false) :
    (db.readValue loc).1 = .ok ⟨r.value, r.timestamp⟩ := by
  by_cases hw : loc.fileId = db.writingStorage.storageId
  · rw [hw] at hf
    simp [readValue, readValueWriting, hw, DataStorage.readValue_of_attempt hio hf hlen, hdec,
      Except.mapError]
  · obtain ⟨s, hls, hsid⟩ := hs.resolve_left hw
    rw [← hsid] at hf
    simp [readValue, readValueWriting_of_ne hw, readValueStable, getFileToRead, hls,
      DataStorage.readValue_of_attempt hio hf hlen, hdec, Except.mapError]

end Database

end Bitcask
