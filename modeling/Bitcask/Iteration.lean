import Bitcask.Session
import Bitcask.Database.IterOrder

set_option autoImplicit false
set_option linter.dupNamespace false

/-! # What `foreach` and `fold` visit

`Bitcask::foreach` and `Bitcask::fold` drain `Database::iter`, which reads every held data file
from its header to its end, in ascending id order, and yields every row it decodes. Nothing in
that loop looks at the keydir: a value that a later `put` superseded and the tombstone row a
`delete` writes are yielded like any other row.

The development has three layers. The scan of a file made of the header and a list of encoded
rows returns those rows, each at its own location, and it returns the same when the file goes on
with bytes that do not decode as a row, such as the first bytes of a row whose write was cut
short; `Database::iter` on files whose ids ascend reads them in that order
(`Database.iter_of_nil`, in `Database/IterOrder.lean`). Over these, `Database.Logged` records
which rows each held file contains, every successful call keeps it, and so after a session the
loop sees the pairs of every row written since the last `drop`, in the order of the writes
(`Call.log`). -/

namespace Bitcask

/-! ## Scanning a file of written rows -/

/-- A row as `write` puts it on disk: `RowToWrite::new_with_timestamp(key, value, timestamp)`. -/
structure WrittenRow where
  key : Bytes
  value : Bytes
  timestamp : UInt64
  deriving DecidableEq, Repr

namespace WrittenRow

/-- The row's encoding. -/
def bytes (r : WrittenRow) : Bytes := (RowToWrite.newWithTimestamp r.key r.value r.timestamp).toBytes

/-- The arguments a loop over the rows calls its closure with. -/
def pair (r : WrittenRow) : Bytes × Bytes := (r.key, r.value)

/-- Lengths the row header's `u64` fields hold. -/
def Fits (r : WrittenRow) : Prop := r.key.length < 2 ^ 64 ∧ r.value.length < 2 ^ 64

theorem bytes_length (r : WrittenRow) :
    r.bytes.length = dataFileKeyOffset + r.key.length + r.value.length :=
  RowToWrite.toBytes_length _

/-- A row's encoding decodes back to it, whatever follows. -/
theorem decodeRow_bytes_append {r : WrittenRow} (hr : r.Fits) (tail : Bytes) :
    decodeRow (r.bytes ++ tail) = .ok ⟨r.timestamp, r.key, r.value, r.bytes.length⟩ := by
  rw [bytes_length]
  exact decodeRow_toBytes_append r.key r.value tail r.timestamp hr.1 hr.2

theorem length_le_bytes (rows : List WrittenRow) : rows.length ≤ (rows.map bytes).flatten.length := by
  induction rows with
  | nil => rfl
  | cons r rows ih => simp only [List.map_cons, List.flatten_cons, List.length_append,
      List.length_cons, bytes_length, dataFileKeyOffset]; omega

/-- The rows the scan of file `id` reads back from the encodings of `rows` laid out from
    `offset`, each at its own location. -/
def readAt (id : FileId) : Nat → List WrittenRow → List RowToRead
  | _, [] => []
  | offset, r :: rows =>
    ⟨r.key, r.value, ⟨id, offset, r.bytes.length⟩, r.timestamp⟩ ::
      readAt id (offset + r.bytes.length) rows

end WrittenRow

/-- The pair a row read back is passed to `foreach`'s closure as. -/
def RowToRead.pair (row : RowToRead) : Bytes × Bytes := (row.key, row.value)

theorem WrittenRow.readAt_pair (id : FileId) (offset : Nat) (rows : List WrittenRow) :
    (WrittenRow.readAt id offset rows).map RowToRead.pair = rows.map WrittenRow.pair := by
  induction rows generalizing offset with
  | nil => rfl
  | cons r rows ih => simp only [WrittenRow.readAt, List.map_cons, ih]; rfl

/-- From an offset where the encodings of `rows` start, the scan reads back exactly those rows, as
    long as its fuel lasts one turn per row, and then goes on from the end of the last one. -/
theorem scanRows_append_written (id : FileId) (bs : Bytes) {rows : List WrittenRow}
    (hfit : ∀ r ∈ rows, r.Fits) {offset fuel : Nat} {tail : Bytes}
    (hbs : bs.drop offset = (rows.map WrittenRow.bytes).flatten ++ tail)
    (hfuel : rows.length ≤ fuel) :
    scanRows id fuel bs offset = WrittenRow.readAt id offset rows ++
      scanRows id (fuel - rows.length) bs (offset + (rows.map WrittenRow.bytes).flatten.length) := by
  induction rows generalizing offset fuel with
  | nil => simp [WrittenRow.readAt]
  | cons r rows ih =>
    obtain ⟨fuel, rfl⟩ : ∃ n, fuel = n + 1 := ⟨fuel - 1, by simp at hfuel; omega⟩
    rw [List.map_cons, List.flatten_cons, List.append_assoc] at hbs
    have hdec := WrittenRow.decodeRow_bytes_append (hfit r (.head _))
      ((rows.map WrittenRow.bytes).flatten ++ tail)
    have hrest : bs.drop (offset + r.bytes.length) = (rows.map WrittenRow.bytes).flatten ++ tail := by
      rw [← List.drop_drop, hbs, List.drop_left]
    simp only [scanRows, hbs]
    split
    · rename_i he
      have := congrArg List.length he
      simp only [List.length_append, WrittenRow.bytes_length, List.length_nil,
        dataFileKeyOffset] at this
      omega
    · simp only [hdec, WrittenRow.readAt, List.cons_append, List.map_cons, List.flatten_cons,
        List.length_append, List.length_cons, Nat.add_sub_add_right, ← Nat.add_assoc]
      rw [ih (fun r' h => hfit r' (.tail _ h)) hrest (by simp at hfuel; omega)]

/-- A data file made of the header, the encodings of `rows`, then bytes that do not decode as a
    row (none at all included) scans to `rows`, each at its own location. -/
theorem scanFile_append_written (id : FileId) {rows : List WrittenRow} (hfit : ∀ r ∈ rows, r.Fits)
    {tail : Bytes} {e : FormatterError} (htail : decodeRow tail = .error e) :
    scanFile id (fileHeader ++ (rows.map WrittenRow.bytes).flatten ++ tail) =
      WrittenRow.readAt id fileHeaderSize rows := by
  have hbody : (fileHeader ++ (rows.map WrittenRow.bytes).flatten ++ tail).drop fileHeaderSize =
      (rows.map WrittenRow.bytes).flatten ++ tail := by
    rw [List.append_assoc, List.drop_left' fileHeader_length]
  have hlen := WrittenRow.length_le_bytes rows
  rw [scanFile, scanRows_append_written id _ hfit hbody (by simp only [List.length_append]; omega),
    scanRows_of_decodeRow_error (by rwa [← List.drop_drop, hbody, List.drop_left]), List.append_nil]

/-- **A data file made of the header and the encodings of `rows` scans back to `rows`.** -/
theorem scanFile_written (id : FileId) {rows : List WrittenRow} (hfit : ∀ r ∈ rows, r.Fits) :
    (scanFile id (fileHeader ++ (rows.map WrittenRow.bytes).flatten)).map RowToRead.pair =
      rows.map WrittenRow.pair := by
  have h := scanFile_append_written id hfit (show decodeRow [] = .error .rowTruncated from rfl)
  rw [List.append_nil] at h
  rw [h, WrittenRow.readAt_pair]

/-- **A write cut short loses only its own row.** A data file holding the header, the encodings
    of `rows`, and then the first `n` bytes of the encoding of one more row `r`, for any `n` short
    of its length (a write interrupted anywhere), scans exactly as the file without those bytes,
    back to `rows`: the cut row is never read, and no earlier row is lost or moved. -/
theorem scanFile_torn_write (id : FileId) {rows : List WrittenRow} (hfit : ∀ r ∈ rows, r.Fits)
    {r : WrittenRow} (hr : r.Fits) {n : Nat} (hn : n < r.bytes.length) :
    scanFile id (fileHeader ++ (rows.map WrittenRow.bytes).flatten ++ r.bytes.take n) =
        scanFile id (fileHeader ++ (rows.map WrittenRow.bytes).flatten) ∧
      (scanFile id (fileHeader ++ (rows.map WrittenRow.bytes).flatten ++ r.bytes.take n)).map
        RowToRead.pair = rows.map WrittenRow.pair := by
  have hrow := WrittenRow.decodeRow_bytes_append hr []
  rw [List.append_nil] at hrow
  have hcut := scanFile_append_written id hfit (decodeRow_take_lt hrow hn)
  have hclean := scanFile_append_written id hfit (show decodeRow [] = .error .rowTruncated from rfl)
  rw [List.append_nil] at hclean
  exact ⟨hcut.trans hclean.symm, by rw [hcut, WrittenRow.readAt_pair]⟩

/-- A row `a ↦ x` written whole, then eleven bytes of `b ↦ y`. -/
theorem scanFile_torn_write_sample :
    let rows : List WrittenRow := [⟨[97], [120], 7⟩]
    scanFile 1 (fileHeader ++ (rows.map WrittenRow.bytes).flatten ++
        (WrittenRow.bytes ⟨[98], [121], 8⟩).take 11) =
        scanFile 1 (fileHeader ++ (rows.map WrittenRow.bytes).flatten) ∧
      (scanFile 1 (fileHeader ++ (rows.map WrittenRow.bytes).flatten ++
        (WrittenRow.bytes ⟨[98], [121], 8⟩).take 11)).map RowToRead.pair = [([97], [120])] :=
  scanFile_torn_write 1 (fun r hr => by
      rw [List.mem_singleton.mp hr]; exact ⟨by decide, by decide⟩)
    ⟨by decide, by decide⟩ (by rw [WrittenRow.bytes_length]; decide)

/-- A file holding the header and the encodings of `rows` is readable, and scans to them. -/
theorem readable_of_bytes {disk : Disk} {id : FileId} {rows : List WrittenRow}
    (h : (disk.lookup id).map DiskFile.bytes = some (fileHeader ++ (rows.map WrittenRow.bytes).flatten)) :
    Readable disk id ∧ fileRows disk id = scanFile id (fileHeader ++ (rows.map WrittenRow.bytes).flatten) := by
  obtain ⟨f, hf, hb⟩ := Option.map_eq_some'.mp h
  exact ⟨⟨f, hf, by rw [hb]; exact List.take_left' rfl⟩, by simp [fileRows, hf, hb]⟩

/-! ## The rows each held file contains -/

namespace Database

/-- Which rows the held files contain: the stable files, in ascending id order and below the
    writing file, each with the rows written into it, and the rows of the writing file. Every
    held file is the header followed by the encodings of its rows. -/
structure Logged (db : Database) (stable : List (FileId × List WrittenRow))
    (writing : List WrittenRow) : Prop where
  ascending : (stable.map Prod.fst ++ [db.writingStorage.storageId]).Pairwise
    fun a b => a.toNat < b.toNat
  stable_keys : db.stableStorages.keys.Perm (stable.map Prod.fst)
  stable_file : ∀ p ∈ stable, (db.disk.lookup p.1).map DiskFile.bytes =
    some (fileHeader ++ (p.2.map WrittenRow.bytes).flatten)
  writing_file : (db.disk.lookup db.writingStorage.storageId).map DiskFile.bytes =
    some (fileHeader ++ (writing.map WrittenRow.bytes).flatten)
  fits : ∀ r ∈ stable.flatMap Prod.snd ++ writing, r.Fits

/-- The held files contain, in the order `iter` reads them, rows whose pairs are `log`. -/
def Logs (db : Database) (log : List (Bytes × Bytes)) : Prop :=
  ∃ stable writing, db.Logged stable writing ∧
    (stable.flatMap Prod.snd ++ writing).map WrittenRow.pair = log

variable {db db' : Database} {stable : List (FileId × List WrittenRow)} {writing : List WrittenRow}
  {f : DiskFile} {log : List (Bytes × Bytes)}

theorem Logged.lt_writing (hl : db.Logged stable writing) {p : FileId × List WrittenRow}
    (hp : p ∈ stable) : p.1.toNat < db.writingStorage.storageId.toNat :=
  (List.pairwise_append.mp hl.ascending).2.2 _ (List.mem_map_of_mem _ hp) _
    (List.mem_singleton_self _)

theorem Logged.ne_writing (hl : db.Logged stable writing) {p : FileId × List WrittenRow}
    (hp : p ∈ stable) : p.1 ≠ db.writingStorage.storageId :=
  fun e => Nat.lt_irrefl _ (e ▸ hl.lt_writing hp)

theorem Logged.mem_stable (hl : db.Logged stable writing) {p : FileId × List WrittenRow}
    (hp : p ∈ stable) : p.1 ∈ db.stableStorages :=
  AList.mem_keys.mpr (hl.stable_keys.symm.subset (List.mem_map_of_mem _ hp))

theorem Logged.writing_bytes (hl : db.Logged stable writing)
    (hf : db.disk.lookup db.writingStorage.storageId = some f) :
    f.bytes = fileHeader ++ (writing.map WrittenRow.bytes).flatten := by
  simpa [hf] using hl.writing_file

theorem Logged.fresh {id : FileId} {io : Io} {o : DataStorageOptions} :
    (Database.fresh id io o).Logged [] [] where
  ascending := List.pairwise_singleton _ _
  stable_keys := List.Perm.refl _
  stable_file _ h := absurd h (List.not_mem_nil _)
  writing_file := by simp [Database.fresh, lookup_singleton_self]
  fits _ h := absurd h (List.not_mem_nil _)

theorem Logged.withIo (hl : db.Logged stable writing) (io : Io) :
    ({ db with io := io } : Database).Logged stable writing :=
  ⟨hl.1, hl.2, hl.3, hl.4, hl.5⟩

/-- An appended row joins the writing file's rows. -/
theorem Logged.appendToWriting {io : Io} (hi : db.Inv) (hl : db.Logged stable writing)
    (hf : db.disk.lookup db.writingStorage.storageId = some f) {r : WrittenRow} (hr : r.Fits) :
    (db.appendToWriting f (.newWithTimestamp r.key r.value r.timestamp) io).Logged stable
      (writing ++ [r]) where
  ascending := hl.ascending
  stable_keys := hl.stable_keys
  stable_file p hp := by
    rw [appendToWriting_lookup hi hf, if_neg (hl.ne_writing hp)]
    exact hl.stable_file p hp
  writing_file := by
    show ((db.appendToWriting f _ io).disk.lookup db.writingStorage.storageId).map _ = _
    rw [appendToWriting_lookup hi hf, if_pos rfl]
    simp [hl.writing_bytes hf, WrittenRow.bytes]
  fits r' h := by
    rw [← List.append_assoc, List.mem_append, List.mem_singleton] at h
    rcases h with h | rfl
    · exact hl.fits r' h
    · exact hr

/-- A rollover makes the writing file's rows the last stable file's, and starts an empty one. -/
theorem Logged.rolledOver {io : Io} (hi : db.Inv) (hb : db.fileIdGenerator.fileId.toNat + 1 < 2 ^ 32)
    (hl : db.Logged stable writing)
    (hf : (db.disk.insert db.nextFileId ⟨fileHeader, false, none⟩).lookup db.writingStorage.storageId =
      some f) :
    (db.rolledOver f io).Logged (stable ++ [(db.writingStorage.storageId, writing)]) [] where
  ascending := by
    have hlt := writing_lt_nextFileId hb hi.toConsistent
    rw [List.map_append, List.map_singleton]
    refine List.pairwise_append.mpr ⟨hl.ascending, List.pairwise_singleton _ _, ?_⟩
    intro a ha b hb'
    obtain rfl := List.mem_singleton.mp hb'
    rcases List.mem_append.mp ha with ha | ha
    · exact ((List.pairwise_append.mp hl.ascending).2.2 a ha _ (List.mem_singleton_self _)).trans hlt
    · exact List.mem_singleton.mp ha ▸ hlt
  stable_keys := by
    have hW : db.writingStorage.storageId ∉ db.stableStorages.keys := fun h =>
      Nat.lt_irrefl _ (hi.stable_lt _ (AList.mem_keys.mpr h))
    simp only [Database.rolledOver, AList.keys_insert, List.erase_of_not_mem hW, List.map_append,
      List.map_singleton]
    exact (hl.stable_keys.cons _).trans (List.perm_append_singleton _ _).symm
  stable_file p hp := by
    have hne := (writing_lt_nextFileId hb hi.toConsistent).ne
    rcases List.mem_append.mp hp with hp | hp
    · rw [rolledOver_lookup (hi.ne_nextFileId hb (hi.stable_disk _ (hl.mem_stable hp))),
        if_neg (hl.ne_writing hp)]
      exact hl.stable_file p hp
    · obtain rfl := List.mem_singleton.mp hp
      have hne' : db.writingStorage.storageId ≠ db.nextFileId := ne_of_apply_ne UInt32.toNat hne
      rw [rolledOver_lookup hne', if_pos rfl]
      rw [AList.lookup_insert_ne hne'] at hf
      simp [hl.writing_bytes hf]
  writing_file := by
    have hne : db.nextFileId ≠ db.writingStorage.storageId :=
      ne_of_apply_ne UInt32.toNat (writing_lt_nextFileId hb hi.toConsistent).ne'
    show ((db.rolledOver f io).disk.lookup db.nextFileId).map DiskFile.bytes = _
    simp only [Database.rolledOver]
    rw [AList.lookup_insert_ne hne, AList.lookup_insert]
    rfl
  fits r h := hl.fits r (by simpa using h)

/-- Dropping keeps the writing file's rows and no stable file. -/
theorem Logged.dropped {io : Io} (hi : db.Inv) (hl : db.Logged stable writing) :
    (db.dropped io).Logged [] writing where
  ascending := List.pairwise_singleton _ _
  stable_keys := List.Perm.refl _
  stable_file _ h := absurd h (List.not_mem_nil _)
  writing_file := by
    simp only [Database.dropped]
    rw [lookup_foldl_erase fun h => Nat.lt_irrefl _ (hi.stable_lt _ (AList.mem_keys.mpr h))]
    exact hl.writing_file
  fits r h := hl.fits r (List.mem_append_right _ (by simpa using h))

/-- A writing file whose size is zero holds no row. -/
theorem Logged.writing_eq_nil (hi : db.Inv) (hl : db.Logged stable writing)
    (h0 : db.writingStorage.fileSize = 0) : writing = [] := by
  obtain ⟨f, hf, hlen⟩ := hi.writing_file
  have := WrittenRow.length_le_bytes writing
  rw [← List.length_eq_zero]
  simp only [DataStorage.fileSize, ← hlen, hl.writing_bytes hf, List.length_append,
    fileHeader_length, fileHeaderSize] at h0
  omega

/-- After a successful flush the writing file holds no row, and the stable files hold the rows
    held before, in the same order. -/
theorem Logged.doFlushWritingFile (hi : db.Inv) (hb : db.fileIdGenerator.fileId.toNat + 1 < 2 ^ 32)
    (hl : db.Logged stable writing) (h : db.doFlushWritingFile = (.ok (), db')) :
    ∃ stable', db'.Logged stable' [] ∧
      stable'.flatMap Prod.snd = stable.flatMap Prod.snd ++ writing := by
  rcases doFlushWritingFile_ok h with ⟨h0, rfl⟩ | ⟨-, f, hf, io, rfl⟩
  · obtain rfl := hl.writing_eq_nil hi h0
    exact ⟨stable, hl, by simp⟩
  · exact ⟨_, hl.rolledOver hi hb hf, by simp⟩

theorem Logs.withIo (hl : db.Logs log) (io : Io) : ({ db with io := io } : Database).Logs log :=
  let ⟨stable, writing, h, e⟩ := hl
  ⟨stable, writing, h.withIo io, e⟩

/-- **A successful write appends its row's pair to what the files hold.** -/
theorem Logs.writeWithRetry {r : WrittenRow} {loc : RowLocation} (hi : db.Inv)
    (hb : db.fileIdGenerator.fileId.toNat + 1 < 2 ^ 32) (hl : db.Logs log) (hr : r.Fits)
    (h : db.writeWithRetry (.newWithTimestamp r.key r.value r.timestamp) = (.ok loc, db')) :
    db'.Logs (log ++ [r.pair]) := by
  obtain ⟨stable, writing, hl, rfl⟩ := hl
  rcases writeWithRetry_ok h with hw | ⟨id, db₁, db₂, hw, hf, hw₂⟩
  · obtain ⟨f, hf, -, -, -, io, rfl⟩ := writeRowToWriting_ok hw
    exact ⟨stable, writing ++ [r], hl.appendToWriting hi hf hr, by simp⟩
  · obtain ⟨io, rfl⟩ := writeRowToWriting_error hw
    obtain ⟨stable', hl₂, he⟩ := (hl.withIo io).doFlushWritingFile (hi.withIo io) hb hf
    obtain ⟨hi₂, -, -⟩ := doFlushWritingFile_ok_spec (hi.withIo io) hb hf
    obtain ⟨f, hf', -, -, -, io', rfl⟩ := writeRowToWriting_ok hw₂
    exact ⟨stable', [] ++ [r], hl₂.appendToWriting hi₂ hf' hr, by simp [he]⟩

/-- Rolling the writing file over keeps the rows the files hold. -/
theorem Logs.doFlushWritingFile (hi : db.Inv) (hb : db.fileIdGenerator.fileId.toNat + 1 < 2 ^ 32)
    (hl : db.Logs log) (h : db.doFlushWritingFile = (.ok (), db')) : db'.Logs log := by
  obtain ⟨stable, writing, hl, rfl⟩ := hl
  obtain ⟨stable', hl', he⟩ := hl.doFlushWritingFile hi hb h
  exact ⟨stable', [], hl', by rw [List.append_nil, he]⟩

/-- **A successful `drop` leaves files that hold no row.** -/
theorem Logs.drop (hi : db.Inv) (hb : db.fileIdGenerator.fileId.toNat + 1 < 2 ^ 32)
    (hl : db.Logs log) (h : db.drop = (.ok (), db')) : db'.Logs [] := by
  obtain ⟨stable, writing, hl, -⟩ := hl
  obtain ⟨db₁, hf, io, rfl⟩ := drop_ok h
  obtain ⟨stable', hl₁, -⟩ := hl.doFlushWritingFile hi hb hf
  obtain ⟨hi₁, -, -⟩ := doFlushWritingFile_ok_spec hi hb hf
  exact ⟨[], [], hl₁.dropped hi₁, rfl⟩

/-- Every held file of a logged database is readable. -/
theorem Logged.readable (hl : db.Logged stable writing) :
    ∀ id ∈ stable.map Prod.fst ++ [db.writingStorage.storageId], Readable db.disk id := by
  intro id hid
  rcases List.mem_append.mp hid with hid | hid
  · obtain ⟨p, hp, rfl⟩ := List.mem_map.mp hid
    exact (readable_of_bytes (hl.stable_file p hp)).1
  · rw [List.mem_singleton.mp hid]
    exact (readable_of_bytes hl.writing_file).1

theorem flatten_fileRows_pair {disk : Disk} {stable : List (FileId × List WrittenRow)}
    (h : ∀ p ∈ stable, (fileRows disk p.1).map RowToRead.pair = p.2.map WrittenRow.pair) :
    ((stable.map Prod.fst).map (fileRows disk)).flatten.map RowToRead.pair =
      (stable.flatMap Prod.snd).map WrittenRow.pair := by
  induction stable with
  | nil => rfl
  | cons p stable ih =>
    simp only [List.map_cons, List.flatten_cons, List.flatMap_cons, List.map_append,
      h p (.head _), ih fun q hq => h q (.tail _ hq)]

/-- The scan of a stable file of a logged database yields the pairs of the rows it holds. -/
theorem Logged.stable_pairs (hl : db.Logged stable writing) {p : FileId × List WrittenRow}
    (hp : p ∈ stable) : (fileRows db.disk p.1).map RowToRead.pair = p.2.map WrittenRow.pair := by
  rw [(readable_of_bytes (hl.stable_file p hp)).2,
    scanFile_written _ fun r hr => hl.fits r (List.mem_append_left _ (List.mem_flatMap.mpr ⟨p, hp, hr⟩))]

/-- Scans that agree with a logged database's on its stable files and read `rows` from its
    writing file yield the pairs of the stable files' rows, then of `rows`. -/
theorem Logged.fileRows_pair_of (hl : db.Logged stable writing) {disk : Disk} {rows : List WrittenRow}
    (hs : ∀ p ∈ stable, fileRows disk p.1 = fileRows db.disk p.1)
    (hw : (fileRows disk db.writingStorage.storageId).map RowToRead.pair = rows.map WrittenRow.pair) :
    ((stable.map Prod.fst ++ [db.writingStorage.storageId]).map (fileRows disk)).flatten.map
      RowToRead.pair = (stable.flatMap Prod.snd ++ rows).map WrittenRow.pair := by
  rw [List.map_append, List.flatten_append, List.map_append,
    flatten_fileRows_pair fun p hp => by rw [hs p hp]; exact hl.stable_pairs hp,
    List.map_singleton, List.flatten_singleton, hw, List.map_append]

/-- The scans of the held files, in id order, yield the pairs of the rows they hold. -/
theorem Logged.fileRows_pair (hl : db.Logged stable writing) :
    ((stable.map Prod.fst ++ [db.writingStorage.storageId]).map (fileRows db.disk)).flatten.map
      RowToRead.pair = (stable.flatMap Prod.snd ++ writing).map WrittenRow.pair :=
  hl.fileRows_pair_of (fun _ _ => rfl) (by
    rw [(readable_of_bytes hl.writing_file).2,
      scanFile_written _ fun r hr => hl.fits r (List.mem_append_right _ hr)])

end Database

/-! ## What a session leaves for `foreach` -/

namespace Call

/-- The pairs a successful call leaves for `foreach`, given the store before it: `put` appends
    its pair, `delete` of a key the store holds appends the tombstone's, and `drop` clears them. -/
def logRows : Call → Store → List (Bytes × Bytes) → List (Bytes × Bytes)
  | .put key value, _, log => log ++ [(key, value)]
  | .delete key, m, log => if (m key).isSome then log ++ [(key, tombstoneValue)] else log
  | .drop, _, _ => []

/-- The pairs a run of calls leaves, from the store `m` and the pairs `log`. -/
def logFrom (m : Store) (log : List (Bytes × Bytes)) (calls : List Call) : List (Bytes × Bytes) :=
  (calls.foldl (fun p c => (c.apply p.1, c.logRows p.1 p.2)) (m, log)).2

/-- The pairs a session on an empty directory leaves. -/
def log (calls : List Call) : List (Bytes × Bytes) := logFrom (fun _ => none) [] calls

end Call

namespace Bitcask

variable {bc bc' : Bitcask} {m : Store} {log : List (Bytes × Bytes)}

/-- **Each successful call changes what the files hold as `Call.logRows` says.** -/
theorem Models.logs_call {c : Call} (hm : bc.Models m)
    (hb : bc.database.fileIdGenerator.fileId.toNat + 1 < 2 ^ 32) (hl : bc.database.Logs log)
    (h : bc.call c = (.ok (), bc')) : bc'.database.Logs (c.logRows m log) := by
  cases c with
  | put key value =>
    obtain ⟨hk, hv, loc, db', hw, rfl⟩ := put_ok h
    exact hl.writeWithRetry (r := ⟨key, value, bc.database.io.now⟩) hm.inv hb ⟨hk, hv⟩ hw
  | delete key =>
    rcases delete_ok h with ⟨hc, loc, db', hw, rfl⟩ | ⟨hc, rfl⟩
    · obtain ⟨loc₀, hloc₀⟩ := Option.isSome_iff_exists.mp ((KeyDir.containsKey_iff _ _).mp hc)
      obtain ⟨hk, v, hmv, -⟩ := hm.present key loc₀ hloc₀
      rw [Call.logRows, hmv, Option.isSome_some, if_pos rfl]
      exact hl.writeWithRetry (r := ⟨key, tombstoneValue, bc.database.io.now⟩) hm.inv hb
        ⟨hk, show tombstoneValue.length < 2 ^ 64 by decide⟩ hw
    · rw [Call.logRows,
        hm.absent key (by simpa [KeyDir.containsKey_iff] using Bool.eq_false_iff.mp hc)]
      exact hl
  | drop =>
    obtain ⟨db', hd, rfl⟩ := drop_ok h
    exact hl.drop hm.inv hb hd

/-- **A run of successful calls changes what the files hold as `Call.logFrom` says.** -/
theorem Models.logs_runCalls {calls : List Call} (hm : bc.Models m)
    (hb : bc.database.fileIdGenerator.fileId.toNat + calls.length < 2 ^ 32)
    (hl : bc.database.Logs log) (h : bc.runCalls calls = some bc') :
    bc'.database.Logs (Call.logFrom m log calls) := by
  induction calls generalizing bc m log with
  | nil => obtain rfl := Option.some.inj h; exact hl
  | cons c cs ih =>
    simp only [Bitcask.runCalls] at h
    split at h
    · rename_i bc₁ hc
      simp only [List.length_cons] at hb
      obtain ⟨hm₁, hg₁, -⟩ := hm.call (by omega) hc
      exact ih hm₁ (by omega) (hm.logs_call (by omega) hl hc) h
    · simp at h

/-- With storage I/O succeeding, `Database::iter` drained yields the rows the files hold. -/
theorem iterRows_of_logged {stable : List (FileId × List WrittenRow)} {writing : List WrittenRow}
    (hio : bc.database.io.faults = []) (hl : bc.database.Logged stable writing) :
    ∃ rows, bc.iterRows.1 = .ok rows ∧
      rows.map RowToRead.pair = (stable.flatMap Prod.snd ++ writing).map WrittenRow.pair := by
  obtain ⟨it, hit, hdrain⟩ := Database.iter_of_nil hio hl.stable_keys hl.ascending fun id hid =>
    hl.readable id ((hl.stable_keys.append_right _).subset hid)
  refine ⟨it.drain it.size, ?_, by rw [hdrain, hl.fileRows_pair]⟩
  rcases hiter : bc.database.iter with ⟨r, db⟩
  rw [hiter] at hit
  subst hit
  simp only [Bitcask.iterRows, hiter]

theorem foldLoop_map {α β T : Type} (g : β → Option T → Except BitcaskError (Option T))
    (h : α → β) (init : Option T) (xs : List α) :
    foldLoop g init (xs.map h) = foldLoop (fun x acc => g (h x) acc) init xs := by
  induction xs generalizing init with
  | nil => rfl
  | cons x xs ih => cases hx : g (h x) init <;> simp [foldLoop, hx, ih]

/-- **`foreach` and `fold` visit every row written since the last `drop`, in the order of the
    writes.** After a session on an empty directory whose calls all return `Ok`, with the file-id
    counter below `u32::MAX` and storage I/O succeeding when the loop opens the files, `foreach`
    calls its closure with the pairs `Call.log` lists (values a later `put` superseded and
    tombstone rows included), and `fold` is the left fold over the same pairs. -/
theorem foreach_visits_written_rows {io : Io} {o : BitcaskOptions} {calls : List Call}
    (h : session ∅ io o calls = some bc) (hb : calls.length + 1 < 2 ^ 32)
    (hio : bc.database.io.faults = []) :
    bc.foreach.1 = .ok (Call.log calls) ∧
      ∀ {T : Type} (f : Bytes → Bytes → Option T → Except BitcaskError (Option T))
        (init : Option T),
        (bc.fold f init).1 = foldLoop (fun p acc => f p.1 p.2 acc) init (Call.log calls) := by
  obtain ⟨bc₀, h₀, hrun⟩ := session_eq_some.mp h
  obtain ⟨hm₀, hg₀⟩ := open'_empty h₀
  have hb₀ : bc₀.database.fileIdGenerator.fileId.toNat + calls.length < 2 ^ 32 := by
    rw [hg₀]; show 1 + calls.length < 2 ^ 32; omega
  have hl₀ : bc₀.database.Logs [] := by
    obtain ⟨io₁, io₂, rfl⟩ := open'_empty_eq h₀
    exact ⟨[], [], Database.Logged.fresh.withIo io₂, rfl⟩
  have hok := checkDbError_of_healthy (hm₀.runCalls hb₀ hrun).1.healthy
  obtain ⟨stable, writing, hl, hlog⟩ := hm₀.logs_runCalls hb₀ hl₀ hrun
  obtain ⟨rows, hrows, hpairs⟩ := iterRows_of_logged hio hl
  rcases hiter : bc.iterRows with ⟨r, bc₁⟩
  rw [hiter] at hrows
  subst hrows
  refine ⟨?_, fun f init => ?_⟩
  · simp only [foreach, hok, hiter, Except.map]
    rw [Call.log, ← hlog, ← hpairs]
    rfl
  · simp only [fold, hok, hiter]
    rw [Call.log, ← hlog, ← hpairs, foldLoop_map]
    rfl

set_option maxRecDepth 20000 in
/-- Two `put`s of one key: `foreach` sees both values. -/
theorem foreach_visits_written_rows_overwrite :
    ∃ bc, session ∅ ⟨0, []⟩ sampleOptions [.put [97] [49], .put [97] [50]] = some bc ∧
      bc.foreach.1 = .ok [([97], [49]), ([97], [50])] := by
  obtain ⟨bc, hs, hio⟩ := Option.map_eq_some'.mp (show (session ∅ ⟨0, []⟩ sampleOptions
    [.put [97] [49], .put [97] [50]]).map (fun bc => decide (bc.database.io.faults = [])) =
      some true by decide)
  exact ⟨bc, hs, (foreach_visits_written_rows hs (by decide) (of_decide_eq_true hio)).1⟩

set_option maxRecDepth 20000 in
/-- After `put(a, 1)`, `put(a, 2)`, `put(b, 3)`, `delete(b)`, the live pairs are `(a, 2)` alone,
    but `foreach` is called with the superseded `(a, 1)` and with `b`'s tombstone as well. -/
theorem foreach_yields_superseded_and_tombstone_rows :
    (session ∅ ⟨0, []⟩ sampleOptions [.put [97] [49], .put [97] [50], .put [98] [51], .delete [98]]).map
        (fun bc => ((bc.get [97]).1, (bc.get [98]).1)) = some (.ok (some [50]), .ok none) ∧
      (session ∅ ⟨0, []⟩ sampleOptions [.put [97] [49], .put [97] [50], .put [98] [51], .delete [98]]).map
        (fun bc => bc.foreach.1) =
      some (.ok [([97], [49]), ([97], [50]), ([98], [51]), ([98], tombstoneValue)]) :=
  ⟨by decide, by decide⟩

end Bitcask

end Bitcask
