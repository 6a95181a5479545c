import Bitcask.Session

set_option autoImplicit false
set_option linter.dupNamespace false

/-! # Reopening a directory

`prepare_load_storages` opens the data files in ascending id order and keeps the last one as the
writing file when it is still writable. `DataStorage::open` gives a writable file the write offset
`FILE_HEADER_SIZE`, whatever rows follow the header (its loop over `storage.iter()` runs over the
`Result` holding the storage, not over the rows). The recovery scan still finds those rows, so
the keydir points into them, and the next row written lands on top of the first. -/

namespace Bitcask

namespace Database

variable {disk : Disk} {io io' : Io} {o : DataStorageOptions}

/-! ## Opening the files -/

/-- `open_storages` opens exactly the ids it is given, each as `DataStorage::open` does. -/
theorem openEach_ok {ids : List FileId} {ss : List DataStorage}
    (h : openEach disk o ids io = (.ok ss, io')) :
    ss.map (·.storageId) = ids ∧ ∀ s ∈ ss, ∃ f, disk.lookup s.storageId = some f ∧
      s = ⟨s.storageId, f.readonly, if f.readonly then f.bytes.length else fileHeaderSize, o⟩ := by
  induction ids generalizing io io' ss with
  | nil =>
    obtain rfl := (Except.ok.inj (Prod.mk.inj h).1).symm
    simp
  | cons id ids ih =>
    unfold openEach at h
    split at h
    · simp at h
    rename_i s io₁ hs
    split at h
    · simp at h
    rename_i ss' io₂ hss
    obtain rfl := (Except.ok.inj (Prod.mk.inj h).1).symm
    obtain ⟨f, hf, -, rfl⟩ := DataStorage.open'_ok hs
    obtain ⟨hmap, hall⟩ := ih hss
    refine ⟨by simp [hmap], ?_⟩
    simp only [List.mem_cons, forall_eq_or_imp]
    exact ⟨⟨f, hf, rfl⟩, hall⟩

/-- When the file with the largest id is writable, `Database::open` makes it the writing file,
    positioned at the end of its header, and leaves the directory as it is. -/
theorem open'_reuses_newest {gen : FileIdGenerator} {db : Database} {id : FileId} {f : DiskFile}
    (hopen : (Database.open' disk io gen o).1 = .ok db)
    (hlast : (disk.keys.insertionSort (· ≤ ·)).getLast? = some id)
    (hf : disk.lookup id = some f) (hw : f.readonly = false) :
    db.writingStorage = ⟨id, false, fileHeaderSize, o⟩ ∧ db.disk = disk ∧ db.options = o := by
  unfold Database.open' prepareLoadStorages openStorages at hopen
  rcases hs : openEach disk o (disk.keys.insertionSort (· ≤ ·)) io with ⟨_ | ss, io₁⟩
  · simp [hs] at hopen
  obtain ⟨hmap, hall⟩ := openEach_ok hs
  have hl : ss.getLast?.map (·.storageId) = some id := by rw [← List.getLast?_map, hmap, hlast]
  rcases hsl : ss.getLast? with _ | s
  · simp [hsl] at hl
  simp only [hsl, Option.map_some', Option.some.injEq] at hl
  obtain ⟨f', hf', hs'⟩ := hall s (List.mem_of_mem_getLast? hsl)
  rw [hl, hf] at hf'
  obtain rfl := Option.some.inj hf'
  rw [hl, hw] at hs'
  simp only [hs, hsl, hs', DataStorage.isReadonly] at hopen
  obtain rfl := (Except.ok.inj hopen).symm
  exact ⟨rfl, rfl, rfl⟩

/-! ## The first write after a reopen -/

/-- **A reopened writing file takes its next row at the end of its header.** On a directory whose
    newest file is writable, the first row the reopened database writes, with storage I/O
    succeeding, is placed at `FILE_HEADER_SIZE` in that file, over the bytes of the rows an
    earlier session left there. -/
theorem reopen_writes_over_rows {gen : FileIdGenerator} {db : Database} {id : FileId}
    {f : DiskFile} {row : RowToWrite}
    (hopen : (Database.open' disk io gen o).1 = .ok db)
    (hlast : (disk.keys.insertionSort (· ≤ ·)).getLast? = some id)
    (hf : disk.lookup id = some f) (hw : f.readonly = false)
    (hio : db.io.faults = []) (hfit : fileHeaderSize + row.toBytes.length ≤ o.maxDataFileSize.toNat) :
    ∃ db', db.writeWithRetry row = (.ok ⟨id, fileHeaderSize, row.toBytes.length⟩, db') ∧
      db'.disk.lookup id = some { f with bytes := writeAt f.bytes fileHeaderSize row.toBytes } := by
  obtain ⟨hW, hdisk, -⟩ := open'_reuses_newest hopen hlast hf hw
  have hf' : db.disk.lookup db.writingStorage.storageId = some f := by rw [hW, hdisk]; exact hf
  refine ⟨db.appendToWriting f row db.io, ?_, ?_⟩
  · rw [writeWithRetry, writeRowToWriting_of_nil hio (by rw [hW]) hf', hW, if_neg (by simp; omega)]
    rfl
  · simp [appendToWriting, hW]

/-- A directory left by a session that wrote one row into its writing file `1`. -/
def oneRowDirectory : Disk :=
  AList.singleton 1 ⟨fileHeader ++ (RowToWrite.new [97] [120] 0).toBytes, false, none⟩

set_option maxRecDepth 20000 in
/-- Reopening `oneRowDirectory` and writing a row of the same size: the row lands at offset `8`,
    and the file then holds the header and the new row only. -/
theorem reopen_writes_over_rows_sample :
    (∃ db', (⟨oneRowDirectory, ⟨0, []⟩, ⟨1⟩, ⟨1, false, fileHeaderSize, ⟨1024, 64⟩⟩, ∅,
        ⟨1024, 64⟩, [], none⟩ : Database).writeWithRetry (RowToWrite.new [98] [121] 0) =
          (.ok ⟨1, fileHeaderSize, (RowToWrite.new [98] [121] 0).toBytes.length⟩, db') ∧
        db'.disk.lookup 1 = some ⟨writeAt (fileHeader ++ (RowToWrite.new [97] [120] 0).toBytes)
          fileHeaderSize (RowToWrite.new [98] [121] 0).toBytes, false, none⟩) ∧
      writeAt (fileHeader ++ (RowToWrite.new [97] [120] 0).toBytes) fileHeaderSize
        (RowToWrite.new [98] [121] 0).toBytes = fileHeader ++ (RowToWrite.new [98] [121] 0).toBytes := by
  have hopen : (Database.open' oneRowDirectory ⟨0, []⟩ FileIdGenerator.new ⟨1024, 64⟩).1 =
      .ok ⟨oneRowDirectory, ⟨0, []⟩, ⟨1⟩, ⟨1, false, fileHeaderSize, ⟨1024, 64⟩⟩, ∅, ⟨1024, 64⟩,
        [], none⟩ := rfl
  refine ⟨reopen_writes_over_rows hopen (f := ⟨fileHeader ++ (RowToWrite.new [97] [120] 0).toBytes,
    false, none⟩) ?_ ?_ rfl rfl ?_, ?_⟩ <;> decide

end Database

namespace Bitcask

set_option maxRecDepth 20000 in
/-- Three sessions on one directory. The first puts `a ↦ x` and closes; the second reopens,
    reads `a` back, puts `b ↦ y` over `a`'s row and closes: its `get a` now returns `y`. The third
    reopens, and `a` is gone. -/
theorem reopened_put_overwrites_earlier_row :
    ((session ∅ ⟨0, []⟩ sampleOptions [.put [97] [120]]).bind fun s₁ =>
      (session s₁.close ⟨0, []⟩ sampleOptions [.put [98] [121]]).bind fun s₂ =>
        (session s₂.close ⟨0, []⟩ sampleOptions []).map fun s₃ =>
          ((s₁.get [97]).1, (s₂.get [97]).1, (s₃.get [97]).1)) =
      some (.ok (some [120]), .ok (some [121]), .ok none) := by
  decide

end Bitcask

end Bitcask
