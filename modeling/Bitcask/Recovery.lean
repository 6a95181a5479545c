import Bitcask.Iteration
import Bitcask.Reopen
import Bitcask.Database.Hint
import Mathlib.Algebra.Order.BigOperators.Group.List

set_option autoImplicit false
set_option linter.dupNamespace false

/-! # What a reopened store reads

`Bitcask::open` on a directory a session left rebuilds the keydir from `recovery_iter`, which
reads the data files in ascending id order and each file from its header to its end, so the rows
come in the order they were written. `KeyDir::new` keeps the first row it meets of each key
(`KeyDir.rebuild_firstLocation`), and so the reopened store maps every key to the oldest of its
rows since the last `drop`. A key written twice reads back its first value, and a key that was
written and then deleted reads back that first value too; a key whose first row is a tombstone
stays absent, whatever comes after it. The spec's rebuild relies on the scan meeting the newest
row of a key first. `foreach` on the reopened store sees every row, as before.

The proof follows a session from the empty directory. Every call keeps `Database.FilesHeld`: the
directory holds the database's files and no other, and the writing file on disk is writable.
With `Database.Logged` (the rows each held file holds) the directory is `Reopenable`, and
`Database::open` on it opens the same files, in the same order, and keeps the newest file as the
writing file (`Reopened`); the recovery scan yields the written rows file after file
(`recoveredRows`); each row the scan yields decodes where it says it starts (`scanRows_sound`),
so `get` reads the value of the row the keydir points at.

A process that stops while `write_row` appends a row leaves the writing file with a cut row at its
end. The cut row does not decode, the scan stops before it (`scanFile_append_written`), and the
reopened store is the one the directory without it gives. -/

namespace Bitcask

namespace Database

/-! ## The files a session leaves -/

/-- The directory holds the database's files and no other, and the writing file on disk is
    writable. -/
structure FilesHeld (db : Database) : Prop where
  held : ∀ id ∈ db.disk, db.Serves id
  writing_writable : ∀ f, db.disk.lookup db.writingStorage.storageId = some f → f.readonly = false

variable {db db' : Database} {f : DiskFile} {row : RowToWrite} {io : Io}

theorem FilesHeld.withIo (h : db.FilesHeld) (io : Io) : ({ db with io := io } : Database).FilesHeld :=
  ⟨h.1, h.2⟩

theorem FilesHeld.fresh {id : FileId} {o : DataStorageOptions} : (fresh id io o).FilesHeld := by
  refine ⟨fun id' h => .inl ?_, fun g hg => ?_⟩
  · rw [Database.fresh, ← AList.insert_empty, AList.mem_insert] at h
    exact h.resolve_right (AList.not_mem_empty _)
  · rw [Database.fresh, lookup_singleton_self] at hg
    rw [← Option.some.inj hg]

theorem FilesHeld.appendToWriting (h : db.FilesHeld)
    (hf : db.disk.lookup db.writingStorage.storageId = some f) :
    (db.appendToWriting f row io).FilesHeld := by
  refine ⟨fun id hid => ?_, fun g hg => ?_⟩
  · rcases (AList.mem_insert _).mp hid with rfl | hid
    · exact .inl rfl
    · exact h.held id hid
  · simp only [Database.appendToWriting, AList.lookup_insert, Option.some.injEq] at hg
    rw [← hg]
    exact h.writing_writable f hf

theorem FilesHeld.rolledOver (h : db.FilesHeld) (hi : db.Inv)
    (hb : db.fileIdGenerator.fileId.toNat + 1 < 2 ^ 32) : (db.rolledOver f io).FilesHeld := by
  have hne : db.writingStorage.storageId ≠ db.nextFileId := hi.ne_nextFileId hb hi.writing_mem
  refine ⟨fun id hid => ?_, fun g hg => ?_⟩
  · simp only [Database.rolledOver, AList.mem_insert] at hid
    show id = db.nextFileId ∨ id ∈ db.stableStorages.insert _ _
    rw [AList.mem_insert]
    rcases hid with rfl | rfl | hid
    · exact .inr (.inl rfl)
    · exact .inl rfl
    · exact .inr (h.held id hid)
  · simp only [Database.rolledOver] at hg
    rw [AList.lookup_insert_ne hne.symm, AList.lookup_insert] at hg
    rw [← Option.some.inj hg]

theorem FilesHeld.dropped (h : db.FilesHeld) (hi : db.Inv) : (db.dropped io).FilesHeld := by
  have hw : db.writingStorage.storageId ∉ db.stableStorages.keys := fun hm =>
    absurd (hi.stable_lt _ (AList.mem_keys.mpr hm)) (lt_irrefl _)
  refine ⟨fun id hid => ?_, fun g hg => ?_⟩
  · obtain ⟨hd, hk⟩ := mem_foldl_erase.mp hid
    rcases h.held id hd with rfl | hs
    · exact .inl rfl
    · exact absurd (AList.mem_keys.mp hs) hk
  · exact h.writing_writable g (by rwa [Database.dropped, lookup_foldl_erase hw] at hg)

/-! ## What every successful call keeps -/

/-- `P` survives each change a successful `put`, `delete` or `drop` makes to the database: a new
    I/O environment, a row appended to the writing file within its capacity, a rollover, and the
    deletion of the stable files. -/
structure KeptByWrites (P : Database → Prop) : Prop where
  withIo : ∀ (db : Database) (io : Io), P db → P { db with io := io }
  append : ∀ (db : Database) (f : DiskFile) (row : RowToWrite) (io : Io), db.Inv →
    db.disk.lookup db.writingStorage.storageId = some f →
    db.writingStorage.writeOffset + row.toBytes.length ≤
      db.writingStorage.options.maxDataFileSize.toNat → P db → P (db.appendToWriting f row io)
  rolledOver : ∀ (db : Database) (f : DiskFile) (io : Io), db.Inv →
    db.fileIdGenerator.fileId.toNat + 1 < 2 ^ 32 →
    (db.disk.insert db.nextFileId ⟨fileHeader, false, none⟩).lookup db.writingStorage.storageId = some f →
    P db → P (db.rolledOver f io)
  dropped : ∀ (db : Database) (io : Io), db.Inv → P db → P (db.dropped io)

variable {P : Database → Prop}

theorem KeptByWrites.doFlushWritingFile (hP : KeptByWrites P) (hi : db.Inv)
    (hb : db.fileIdGenerator.fileId.toNat + 1 < 2 ^ 32) (hf : db.doFlushWritingFile = (.ok (), db'))
    (h : P db) : P db' := by
  rcases doFlushWritingFile_ok hf with ⟨-, rfl⟩ | ⟨-, f, hf', io, rfl⟩
  · exact h
  · exact hP.rolledOver db f io hi hb hf' h

theorem KeptByWrites.writeRowToWriting (hP : KeptByWrites P) (hi : db.Inv) {loc : RowLocation}
    (hw : db.writeRowToWriting row = (.ok loc, db')) (h : P db) : P db' := by
  obtain ⟨f, hf, -, hfit, -, io, rfl⟩ := writeRowToWriting_ok hw
  exact hP.append db f row io hi hf hfit h

theorem KeptByWrites.writeWithRetry (hP : KeptByWrites P) (hi : db.Inv)
    (hb : db.fileIdGenerator.fileId.toNat + 1 < 2 ^ 32) {loc : RowLocation}
    (hw : db.writeWithRetry row = (.ok loc, db')) (h : P db) : P db' := by
  rcases writeWithRetry_ok hw with hw | ⟨id, db₁, db₂, hw₁, hf, hw₂⟩
  · exact hP.writeRowToWriting hi hw h
  · -- the row overflowed: a rollover, then the row in the new writing file
    obtain ⟨io, rfl⟩ := writeRowToWriting_error hw₁
    exact hP.writeRowToWriting (doFlushWritingFile_ok_spec (hi.withIo io) hb hf).1 hw₂
      (hP.doFlushWritingFile (hi.withIo io) hb hf (hP.withIo db io h))

theorem KeptByWrites.drop (hP : KeptByWrites P) (hi : db.Inv)
    (hb : db.fileIdGenerator.fileId.toNat + 1 < 2 ^ 32) (hd : db.drop = (.ok (), db')) (h : P db) :
    P db' := by
  obtain ⟨db₁, hf, io, rfl⟩ := drop_ok hd
  exact hP.dropped db₁ io (doFlushWritingFile_ok_spec hi hb hf).1 (hP.doFlushWritingFile hi hb hf h)

theorem FilesHeld.keptByWrites : KeptByWrites FilesHeld where
  withIo _ io h := h.withIo io
  append _ _ _ _ _ hf _ h := h.appendToWriting hf
  rolledOver _ _ _ hi hb _ h := h.rolledOver hi hb
  dropped _ _ hi h := h.dropped hi

/-! ## What every file of the directory satisfies -/

/-- Every file of the directory satisfies `p`. -/
def EveryFile (p : DiskFile → Prop) (disk : Disk) : Prop :=
  ∀ id f, disk.lookup id = some f → p f

theorem EveryFile.insert {p : DiskFile → Prop} {disk : Disk} (h : EveryFile p disk) {id : FileId}
    {f : DiskFile} (hf : p f) : EveryFile p (disk.insert id f) := by
  intro id' g hg
  by_cases he : id' = id
  · subst he
    rw [AList.lookup_insert, Option.some.injEq] at hg
    exact hg ▸ hf
  · exact h id' g (by rwa [AList.lookup_insert_ne he] at hg)

theorem EveryFile.erase_foldl {p : DiskFile → Prop} {disk : Disk} (h : EveryFile p disk)
    (ids : List FileId) : EveryFile p (ids.foldl (fun d i => d.erase i) disk) := by
  intro id g hg
  by_cases hid : id ∈ ids
  · exact absurd hid (mem_foldl_erase.mp (AList.lookup_isSome.mp (by rw [hg]; rfl))).2
  · exact h id g (by rwa [lookup_foldl_erase hid] at hg)

/-- A session writes no hint file: the worker runs beside it (`Bitcask.Database.Hint`). -/
theorem EveryFile.keptByWrites_hint :
    KeptByWrites fun db : Database => EveryFile (·.hint = none) db.disk where
  withIo _ _ h := h
  append db f row io _ hf _ h := h.insert (show f.hint = none from h _ f hf)
  rolledOver db f io _ _ hf h := by
    have h₁ : EveryFile (·.hint = none) (db.disk.insert db.nextFileId ⟨fileHeader, false, none⟩) :=
      h.insert rfl
    exact h₁.insert (show f.hint = none from h₁ _ f hf)
  dropped _ _ _ h := h.erase_foldl _

theorem EveryFile.singleton {p : DiskFile → Prop} {id : FileId} {f : DiskFile} (hf : p f) :
    EveryFile p (AList.singleton id f) := by
  rw [← AList.insert_empty]
  exact EveryFile.insert (fun _ _ h => by simp at h) hf

theorem EveryFile.fresh_hint {id : FileId} {o : DataStorageOptions} :
    EveryFile (·.hint = none) (fresh id io o).disk :=
  EveryFile.singleton rfl

/-- The database runs with the options `o`, and each of its files is no longer than the header
    or `max_data_file_size`, whichever is longer. -/
def WithinSize (o : DataStorageOptions) (db : Database) : Prop :=
  db.options = o ∧ EveryFile (·.bytes.length ≤ max fileHeaderSize o.maxDataFileSize.toNat) db.disk

/-- Writes keep the files within size: `write_row` refuses a row that would end past
    `max_data_file_size`, and a rollover starts a file with the header alone. -/
theorem WithinSize.keptByWrites (o : DataStorageOptions) : KeptByWrites (WithinSize o) where
  withIo _ _ h := h
  append db f row io hi hf hfit h := by
    refine ⟨h.1, fun id g hg => ?_⟩
    rw [appendToWriting_lookup hi hf] at hg
    split_ifs at hg
    · rw [Option.some.injEq] at hg
      subst hg
      rw [hi.writing_options, h.1] at hfit
      simp only [List.length_append, hi.writing_length hf]
      omega
    · exact h.2 id g hg
  rolledOver db f io _ _ hf h := by
    have h₁ : EveryFile (·.bytes.length ≤ max fileHeaderSize o.maxDataFileSize.toNat)
        (db.disk.insert db.nextFileId ⟨fileHeader, false, none⟩) :=
      h.2.insert (show fileHeader.length ≤ _ by rw [fileHeader_length]; omega)
    exact ⟨h.1, h₁.insert (h₁ _ f hf)⟩
  dropped _ _ _ h := ⟨h.1, h.2.erase_foldl _⟩

theorem WithinSize.fresh {id : FileId} {o : DataStorageOptions} : (fresh id io o).WithinSize o :=
  ⟨rfl, EveryFile.singleton (show fileHeader.length ≤ _ by rw [fileHeader_length]; omega)⟩

/-! ## Opening the files again -/

theorem foldl_insert_storageId (ss : List DataStorage) (m : StableStorages)
    (hm : ∀ id s, m.lookup id = some s → s.storageId = id) :
    (∀ id s, (ss.foldl (fun m s => m.insert s.storageId s) m).lookup id = some s →
      s.storageId = id) ∧
      ∀ id, id ∈ ss.foldl (fun m s => m.insert s.storageId s) m ↔
        id ∈ m ∨ id ∈ ss.map DataStorage.storageId := by
  induction ss generalizing m with
  | nil => simpa using hm
  | cons s ss ih =>
    refine (ih _ fun id s' h => ?_).imp id fun hmem id => ?_
    · by_cases hid : id = s.storageId
      · subst hid
        rw [AList.lookup_insert] at h
        exact Option.some.inj h ▸ rfl
      · rw [AList.lookup_insert_ne hid] at h
        exact hm id s' h
    · simp only [List.foldl_cons, hmem, AList.mem_insert, List.map_cons, List.mem_cons]
      tauto

/-- Every entry of the stable map `Database::open` builds is filed under its own id, and its ids
    are those of the storages. -/
theorem stableMap_spec (ss : List DataStorage) :
    (∀ id s, (stableMap ss).lookup id = some s → s.storageId = id) ∧
      ∀ id, id ∈ stableMap ss ↔ id ∈ ss.map DataStorage.storageId := by
  have := foldl_insert_storageId ss ∅ fun _ _ h => by simp at h
  simpa [stableMap] using this

/-- Every element of a list of ids is at most its `max?`. -/
theorem toNat_le_of_max? {l : List FileId} {m : FileId} (h : l.max? = some m) {x : FileId}
    (hx : x ∈ l) : x.toNat ≤ m.toNat := by
  have hle (x y : FileId) : x ≤ y ↔ x.toNat ≤ y.toNat := Iff.rfl
  refine (List.max?_le_iff (fun a b c => ?_) h).1 (Nat.le_refl _) x hx
  show (if b ≤ c then c else b) ≤ a ↔ _
  split_ifs <;> simp only [hle] at * <;> omega

/-- A directory `Database::open` opens as the stable files `stable` and the writing file `w`:
    it holds exactly these files, in ascending id order, each readable, the last one writable. -/
structure Reopenable (disk : Disk) (stable : List FileId) (w : FileId) : Prop where
  ascending : (stable ++ [w]).Pairwise fun a b => a.toNat < b.toNat
  keys_perm : disk.keys.Perm (stable ++ [w])
  readable : ∀ id ∈ stable ++ [w], Readable disk id
  writable : ∀ f, disk.lookup w = some f → f.readonly = false

/-- What `Database::open` makes of such a directory: a consistent database with the same files,
    the writing file `w`, the stable files `stable`, each filed under its own id, and no sticky
    error. -/
structure Reopened (db₂ : Database) (disk : Disk) (stable : List FileId) (w : FileId) : Prop where
  disk : db₂.disk = disk
  healthy : db₂.isError = none
  writing : db₂.writingStorage.storageId = w
  stable_keys : db₂.stableStorages.keys.Perm stable
  stable_id : ∀ id s, db₂.stableStorages.lookup id = some s → s.storageId = id
  consistent : db₂.Consistent

namespace Reopenable

variable {disk : Disk} {stable : List FileId} {w : FileId}

theorem nodup (hD : Reopenable disk stable w) : (stable ++ [w]).Nodup :=
  hD.ascending.imp fun h e => by subst e; exact lt_irrefl _ h

theorem keys_sort (hD : Reopenable disk stable w) :
    disk.keys.insertionSort (· ≤ ·) = stable ++ [w] :=
  insertionSort_eq_of_perm hD.keys_perm (hD.ascending.imp Nat.le_of_lt)

/-- **`Database::open` on a reopenable directory**, with storage I/O succeeding, opens its files,
    keeps the newest, still writable, as the writing file and the others as stable files. -/
theorem reopen (hD : Reopenable disk stable w) {io : Io} (hio : io.faults = [])
    (gen : FileIdGenerator) (o : DataStorageOptions) :
    ∃ db₂, (Database.open' disk io gen o).1 = .ok db₂ ∧ db₂.io = io ∧ Reopened db₂ disk stable w := by
  obtain ⟨files, he, hm⟩ := openEach_of_nil (o := o) hio hD.readable
  obtain ⟨-, hall⟩ := openEach_ok he
  -- the last file opened is the writing file, still writable
  have hlast : files.getLast?.map DataStorage.storageId = some w := by
    rw [← List.getLast?_map, hm, List.getLast?_concat]
  obtain ⟨s, hsl, hsw⟩ := Option.map_eq_some'.mp hlast
  obtain ⟨f, hf, hs⟩ := hall s (List.mem_of_getLast?_eq_some hsl)
  have hro : s.isReadonly = false := by
    rw [DataStorage.isReadonly, hs]
    exact hD.writable f (hsw ▸ hf)
  -- the stable files are the others
  have hdrop : files.dropLast.map DataStorage.storageId = stable := by
    rw [List.map_dropLast, hm, List.dropLast_concat]
  obtain ⟨hid, hmem⟩ := stableMap_spec files.dropLast
  rw [hdrop] at hmem
  have hdisk (id : FileId) : id ∈ disk ↔ id ∈ stable ++ [w] := by
    rw [← hD.keys_perm.mem_iff, AList.mem_keys]
  -- the counter is the largest id on disk, the writing file's
  obtain ⟨m, hm⟩ := Option.isSome_iff_exists.mp (List.isSome_max?_of_mem
    (AList.mem_keys.mpr ((hdisk w).mpr (List.mem_append_right _ (List.mem_singleton_self w)))))
  refine ⟨⟨disk, io, match disk.keys.max? with | some id => gen.updateFileId id | none => gen,
    s, stableMap files.dropLast, o, [], none⟩, ?_, rfl, rfl, rfl, hsw, ?_, hid,
    ⟨hro, by rw [hs], ⟨f, hf, ?_⟩, hid, fun id h => ?_, fun id h => ?_, fun id h => ?_⟩⟩
  · simp only [Database.open', prepareLoadStorages, openStorages, hD.keys_sort, he, hsl, hro]
    rfl
  · exact (List.perm_ext_iff_of_nodup (AList.keys_nodup _) (List.nodup_append.mp hD.nodup).1).mpr
      fun id => by rw [← AList.mem_keys, hmem]
  · obtain ⟨f', hf', hhead⟩ := hD.readable w (List.mem_append_right _ (List.mem_singleton_self w))
    rw [← hsw, hf] at hf'
    cases hf'
    have := congrArg List.length hhead
    rw [List.length_take, fileHeader_length] at this
    rw [hs, hD.writable f (hsw ▸ hf)]
    exact this ▸ min_le_right _ _
  · exact hsw ▸ (List.pairwise_append.mp hD.ascending).2.2 id ((hmem id).mp h) w
      (List.mem_singleton_self w)
  · exact (hdisk id).mpr (List.mem_append_left _ ((hmem id).mp h))
  · simp only [hm]
    exact toNat_le_of_max? hm (AList.mem_keys.mpr h)

end Reopenable

namespace Reopened

variable {db₂ : Database} {disk : Disk} {stable : List FileId} {w : FileId}

/-- The reopened database holds its files in ascending id order. -/
theorem heldFileIds_sort (hr : Reopened db₂ disk stable w) (hD : Reopenable disk stable w) :
    db₂.heldFileIds.insertionSort (· ≤ ·) = stable ++ [w] := by
  rw [heldFileIds, hr.writing]
  exact insertionSort_eq_of_perm (hr.stable_keys.append_right _) (hD.ascending.imp Nat.le_of_lt)

/-- The reopened database serves each of its files under its own id. -/
theorem serves (hr : Reopened db₂ disk stable w) {id : FileId} (hid : id ∈ stable ++ [w]) :
    id = db₂.writingStorage.storageId ∨
      ∃ s, db₂.stableStorages.lookup id = some s ∧ s.storageId = id := by
  rcases List.mem_append.mp hid with hid | hid
  · obtain ⟨s, hs⟩ := Option.isSome_iff_exists.mp
      (AList.lookup_isSome.mpr (AList.mem_keys.mp (hr.stable_keys.mem_iff.mpr hid)))
    exact .inr ⟨s, hs, hr.stable_id id s hs⟩
  · exact .inl ((List.mem_singleton.mp hid).trans hr.writing.symm)

theorem withIo (hr : Reopened db₂ disk stable w) (io : Io) :
    Reopened { db₂ with io := io } disk stable w :=
  ⟨hr.1, hr.2, hr.3, hr.4, hr.5, hr.consistent.withIo io⟩

end Reopened

variable {stable : List (FileId × List WrittenRow)} {writing : List WrittenRow}

/-- The directory a logged database leaves is reopenable as its held files. -/
theorem Logged.reopenable (hi : db.Inv) (hh : db.FilesHeld) (hl : db.Logged stable writing) :
    Reopenable db.disk (stable.map Prod.fst) db.writingStorage.storageId := by
  have hnd : (stable.map Prod.fst ++ [db.writingStorage.storageId]).Nodup :=
    hl.ascending.imp fun h e => by subst e; exact lt_irrefl _ h
  refine ⟨hl.ascending, (List.perm_ext_iff_of_nodup db.disk.keys_nodup hnd).mpr fun id => ?_,
    hl.readable, hh.writing_writable⟩
  rw [List.mem_append, List.mem_singleton, ← hl.stable_keys.mem_iff, ← AList.mem_keys,
    ← AList.mem_keys, or_comm]
  exact ⟨hh.held id, hi.serves_mem⟩

/-! ## A write cut short -/

/-- A held file replaced by one with the same header and permission keeps the directory
    reopenable. -/
theorem Reopenable.insert {disk : Disk} {ids : List FileId} {w id : FileId} {f g : DiskFile}
    (hD : Reopenable disk ids w) (hf : disk.lookup id = some f)
    (hg : g.bytes.take fileHeaderSize = f.bytes.take fileHeaderSize) (hro : g.readonly = f.readonly) :
    Reopenable (disk.insert id g) ids w := by
  have hmem : id ∈ disk.keys := AList.mem_keys.mpr (AList.lookup_isSome.mp (by rw [hf]; rfl))
  refine ⟨hD.ascending, ?_, fun id' hid => ?_, fun g' hg' => ?_⟩
  · rw [AList.keys_insert]
    exact (List.perm_cons_erase hmem).symm.trans hD.keys_perm
  · by_cases he : id' = id
    · subst he
      obtain ⟨f', hf', hh⟩ := hD.readable id' hid
      rw [hf, Option.some.injEq] at hf'
      exact ⟨g, AList.lookup_insert _, by rw [hg, hf', hh]⟩
    · obtain ⟨f', hf', hh⟩ := hD.readable id' hid
      exact ⟨f', by rw [AList.lookup_insert_ne he, hf'], hh⟩
  · by_cases he : w = id
    · subst he
      rw [AList.lookup_insert, Option.some.injEq] at hg'
      rw [← hg', hro]
      exact hD.writable f hf
    · exact hD.writable g' (by rwa [AList.lookup_insert_ne he] at hg')

/-- Hint files keep the directory reopenable. -/
theorem Reopenable.writeHintFiles {disk : Disk} {ids : List FileId} {w : FileId}
    (hD : Reopenable disk ids w) (hinted : List FileId) :
    Reopenable (Database.writeHintFiles disk hinted) ids w := by
  induction hinted generalizing disk with
  | nil => exact hD
  | cons id hinted ih =>
    refine ih ?_
    unfold Database.writeHintFile
    rcases hf : disk.lookup id with _ | f
    · exact hD
    · exact hD.insert hf rfl rfl

theorem recoveredRows_length_le (disk : Disk) (id : FileId) :
    (recoveredRows disk id).length ≤
      ((disk.lookup id).map fun f => f.bytes.length + (f.hint.map List.length).getD 0).getD 0 := by
  unfold recoveredRows fileRows
  rcases disk.lookup id with _ | f
  · simp
  rcases hh : f.hint with _ | records
  · simpa [hh, scanFile] using scanRows_length_le id f.bytes.length f.bytes fileHeaderSize
  · simp [hh]

/-- The fuel `KeyDir::new` drains the recovery iterator with, one more than the bytes on disk,
    exceeds the rows the files' scans yield. -/
theorem length_recoveredRows_lt {ids : List FileId} (h : ids.Perm db.disk.keys) :
    (ids.map (recoveredRows db.disk)).flatten.length < db.recoveryFuel := by
  have hbytes : (db.disk.keys.map fun id => ((db.disk.lookup id).map fun f =>
      f.bytes.length + (f.hint.map List.length).getD 0).getD 0).sum =
      (db.disk.entries.map fun e => e.2.bytes.length + (e.2.hint.map List.length).getD 0).sum := by
    rw [AList.keys, List.keys, List.map_map]
    exact congrArg List.sum (List.map_congr_left fun ⟨k, v⟩ he => by
      simp only [Function.comp_apply, Option.mem_def.mp (AList.mem_lookup_iff.mpr he),
        Option.map_some', Option.getD_some])
  calc (ids.map (recoveredRows db.disk)).flatten.length
      = (ids.map fun id => (recoveredRows db.disk id).length).sum := by
        rw [List.length_flatten, List.map_map]; rfl
    _ ≤ (ids.map fun id => ((db.disk.lookup id).map fun f =>
          f.bytes.length + (f.hint.map List.length).getD 0).getD 0).sum :=
        List.sum_le_sum fun id _ => recoveredRows_length_le db.disk id
    _ = (db.disk.entries.map fun e => e.2.bytes.length + (e.2.hint.map List.length).getD 0).sum := by
        rw [(h.map _).sum_eq, hbytes]
    _ < db.recoveryFuel := by unfold recoveryFuel; omega

/-- Over faithful hint files, the keydir entry the rebuild makes of the recovered rows is read
    off the key's first row among the rows recovery reads of each file. -/
theorem firstLocation_recoveredRows {disk : Disk} (hh : HintsFaithful disk) (ids : List FileId)
    (key : Bytes) :
    KeyDir.firstLocation (ids.map (recoveredRows disk)).flatten key =
      ((ids.map (recoveredFileRows disk)).flatten.find? (·.key == key)).bind fun r =>
        if isTombstone r.value then none
        else some ⟨r.rowPosition.fileId, r.rowPosition.rowOffset, r.rowPosition.rowSize⟩ := by
  have hmap : (ids.map (recoveredRows disk)).flatten =
      (ids.map (recoveredFileRows disk)).flatten.map RecoveredRow.ofRow := by
    rw [List.map_flatten, List.map_map]
    exact congrArg List.flatten (List.map_congr_left fun id _ => hh.recoveredRows id)
  rw [KeyDir.firstLocation, KeyDir.firstRow, hmap, List.find?_map]
  simp only [Function.comp_def, RecoveredRow.ofRow]
  cases (ids.map (recoveredFileRows disk)).flatten.find? (·.key == key) <;> rfl

/-- A row the scan of file `id` yields is in that file, where it says, and decodes there. -/
theorem fileRows_sound {disk : Disk} {id : FileId} {r : RowToRead} (hr : r ∈ fileRows disk id) :
    ∃ f, disk.lookup id = some f ∧ r.rowPosition.fileId = id ∧
      r.rowPosition.rowOffset + r.rowPosition.rowSize ≤ f.bytes.length ∧
      decodeRow ((f.bytes.drop r.rowPosition.rowOffset).take r.rowPosition.rowSize) =
        .ok ⟨r.timestamp, r.key, r.value, r.rowPosition.rowSize⟩ := by
  rcases hf : disk.lookup id with _ | f
  · simp [fileRows, hf] at hr
  simp only [fileRows, hf, Option.map_some', Option.getD_some, scanFile] at hr
  exact ⟨f, rfl, scanRows_sound hr⟩

/-- A row the scan of a served file yields reads back, at its location, as its own value. -/
theorem readValue_of_fileRows {id : FileId} {r : RowToRead} (hr : r ∈ fileRows db.disk id)
    (hs : id = db.writingStorage.storageId ∨
      ∃ s, db.stableStorages.lookup id = some s ∧ s.storageId = id)
    (hio : db.io.faults = []) :
    (db.readValue ⟨r.rowPosition.fileId, r.rowPosition.rowOffset, r.rowPosition.rowSize⟩).1 =
      .ok ⟨r.value, r.timestamp⟩ := by
  obtain ⟨f, hf, rfl, hlen, hdec⟩ := fileRows_sound hr
  exact readValue_of_file hf hlen hdec hs (by rw [Io.attempt_of_nil _ hio])

/-! ## The pairs a reopened directory reads -/

theorem EveryFile.hintsFaithful {disk : Disk} (h : EveryFile (·.hint = none) disk) :
    HintsFaithful disk :=
  fun id f _ hf hr => Option.noConfusion ((h id f hf).symm.trans hr)

end Database

/-! ## What the reopened store reads -/

/-- What `get` returns for the first of `key`'s pairs in `log`: its value, or `None` when it is
    a tombstone or there is none. -/
def firstValue (log : List (Bytes × Bytes)) (key : Bytes) : Option Bytes :=
  match log.find? (·.1 == key) with
  | some (_, v) => if isTombstone v then none else some v
  | none => none

theorem firstValue_map_pair (rows : List RowToRead) (key : Bytes) :
    firstValue (rows.map RowToRead.pair) key =
      (rows.find? (·.key == key)).bind fun r => if isTombstone r.value then none else some r.value := by
  rw [firstValue, List.find?_map,
    show (fun p : Bytes × Bytes => p.1 == key) ∘ RowToRead.pair = (·.key == key) from rfl]
  cases rows.find? (·.key == key) <;> rfl

namespace Bitcask

variable {bc bc' : Bitcask} {m : Store}

theorem close_eq (bc : Bitcask) : bc.close = bc.database.disk := by
  unfold close Database.sync
  split
  rfl

theorem validate_of_open' {disk : Disk} {io : Io} {o : BitcaskOptions}
    (h : Bitcask.open' disk io o = .ok bc) : o.validate = none := by
  cases hv : o.validate with
  | none => rfl
  | some e => simp [Bitcask.open', hv] at h

/-- A database invariant that every successful write keeps holds after each successful call. -/
theorem Models.kept_call {P : Database → Prop} (hP : Database.KeptByWrites P) {c : Call}
    (hm : bc.Models m) (hb : bc.database.fileIdGenerator.fileId.toNat + 1 < 2 ^ 32)
    (h₀ : P bc.database) (h : bc.call c = (.ok (), bc')) : P bc'.database := by
  cases c with
  | put key value =>
    obtain ⟨-, -, loc, db', hw, rfl⟩ := put_ok h
    exact hP.writeWithRetry hm.inv hb hw h₀
  | delete key =>
    rcases delete_ok h with ⟨-, loc, db', hw, rfl⟩ | ⟨-, rfl⟩
    · exact hP.writeWithRetry hm.inv hb hw h₀
    · exact h₀
  | drop =>
    obtain ⟨db', hd, rfl⟩ := drop_ok h
    exact hP.drop hm.inv hb hd h₀

/-- **Session invariants.** A database invariant that every successful write keeps holds after
    any run of successful calls, as long as the file-id counter does not wrap. -/
theorem Models.kept_runCalls {P : Database → Prop} (hP : Database.KeptByWrites P)
    {calls : List Call} (hm : bc.Models m)
    (hb : bc.database.fileIdGenerator.fileId.toNat + calls.length < 2 ^ 32)
    (h₀ : P bc.database) (h : bc.runCalls calls = some bc') : P bc'.database := by
  induction calls generalizing bc m with
  | nil => obtain rfl := Option.some.inj h; exact h₀
  | cons c cs ih =>
    simp only [Bitcask.runCalls] at h
    split at h
    · rename_i bc₁ hc
      simp only [List.length_cons] at hb
      obtain ⟨hm₁, hg₁, -⟩ := hm.call (by omega) hc
      exact ih hm₁ (by omega) (hm.kept_call hP (by omega) h₀ hc) h
    · simp at h

/-- What a session on an empty directory leaves: valid options, a store implementing the
    replayed calls, a directory holding its files and no other, no hint file, and files holding
    the rows `Call.log` lists. -/
theorem session_spec {io : Io} {o : BitcaskOptions} {calls : List Call}
    (h : session ∅ io o calls = some bc) (hb : calls.length + 1 < 2 ^ 32) :
    o.validate = none ∧ bc.Models (Call.replay (fun _ => none) calls) ∧ bc.database.FilesHeld ∧
      Database.EveryFile (·.hint = none) bc.database.disk ∧ bc.database.Logs (Call.log calls) := by
  obtain ⟨bc₀, h₀, hrun⟩ := session_eq_some.mp h
  obtain ⟨hm₀, hg₀⟩ := open'_empty h₀
  have hb₀ : bc₀.database.fileIdGenerator.fileId.toNat + calls.length < 2 ^ 32 := by
    rw [hg₀]; show 1 + calls.length < 2 ^ 32; omega
  refine ⟨validate_of_open' h₀, (hm₀.runCalls hb₀ hrun).1, ?_, ?_, ?_⟩ <;>
    obtain ⟨io₁, io₂, rfl⟩ := open'_empty_eq h₀
  · exact hm₀.kept_runCalls Database.FilesHeld.keptByWrites hb₀ (Database.FilesHeld.fresh.withIo io₂) hrun
  · exact hm₀.kept_runCalls Database.EveryFile.keptByWrites_hint hb₀ Database.EveryFile.fresh_hint hrun
  · exact hm₀.logs_runCalls hb₀ ⟨[], [], Database.Logged.fresh.withIo io₂, rfl⟩ hrun

/-- `Bitcask::open` on a reopenable directory: with valid options and storage I/O succeeding, the
    database opens the directory's files, and `KeyDir::new` maps each key to its first row in the
    files read in ascending id order. -/
theorem open'_of_reopenable {disk : Disk} {stable : List FileId} {w : FileId} {io' : Io}
    {o : BitcaskOptions} (hD : Database.Reopenable disk stable w) (hv : o.validate = none)
    (hio : io'.faults = []) :
    ∃ kd db₂, Bitcask.open' disk io' o = .ok ⟨kd, o, db₂⟩ ∧ db₂.io = io' ∧
      Database.Reopened db₂ disk stable w ∧
      ∀ key, kd.get key = KeyDir.firstLocation ((stable ++ [w]).map (recoveredRows disk)).flatten key := by
  obtain ⟨db₂, hopen, hio₂, hr⟩ := hD.reopen hio FileIdGenerator.new o.getDatabaseOptions
  have hread := hD.readable
  have hsort := hr.heldFileIds_sort hD
  rw [← hr.disk] at hread hD
  -- the recovery scan reads the files in id order, and the fuel is enough
  obtain ⟨it, hnew, hdrain⟩ := DatabaseRecoverIter.drain_new (o := db₂.options) hio hread
  obtain ⟨kd, hkd, hget⟩ :=
    KeyDir.rebuild_firstLocation ((stable ++ [w]).map (recoveredRows db₂.disk)).flatten
  have hkdnew : KeyDir.new db₂ = (.ok kd, io') := by
    rw [KeyDir.new, Database.recoveryIter, hsort, hio₂, hnew]
    simp only [hdrain _ (Database.length_recoveredRows_lt hD.keys_perm.symm), hkd]
  rw [hr.disk] at hget
  refine ⟨kd, { db₂ with io := io' }, ?_, rfl, hr.withIo io', hget⟩
  rcases hd : Database.open' disk io' FileIdGenerator.new o.getDatabaseOptions with ⟨r, rest⟩
  rw [hd] at hopen
  obtain rfl : r = .ok db₂ := hopen
  simp only [Bitcask.open', hv, hr.disk, hd, hkdnew]

section Reopened

variable {disk : Disk} {stable : List FileId} {w : FileId} {kd : KeyDir} {o : BitcaskOptions}
  {db₂ : Database}

/-- On the reopened store, over faithful hint files, `get` returns the value of the key's first
    row among the rows recovery reads of the files in id order, and `has` whether it is one. -/
theorem get_of_reopened (hr : Database.Reopened db₂ disk stable w)
    (hh : Database.HintsFaithful disk) (hio : db₂.io.faults = [])
    (hget : ∀ key, kd.get key =
      KeyDir.firstLocation ((stable ++ [w]).map (recoveredRows disk)).flatten key) (key : Bytes) :
    ((⟨kd, o, db₂⟩ : Bitcask).get key).1 = .ok (firstValue
        (((stable ++ [w]).map (Database.recoveredFileRows disk)).flatten.map RowToRead.pair) key) ∧
      (⟨kd, o, db₂⟩ : Bitcask).has key = .ok (firstValue
        (((stable ++ [w]).map (Database.recoveredFileRows disk)).flatten.map RowToRead.pair)
          key).isSome := by
  have hok := checkDbError_of_healthy hr.healthy
  have hkey := hget key
  rw [Database.firstLocation_recoveredRows hh, ← hr.disk] at hkey
  rw [firstValue_map_pair, ← hr.disk]
  -- both sides read the first recovered row of the key
  rcases hfirst : ((stable ++ [w]).map (Database.recoveredFileRows db₂.disk)).flatten.find?
    (·.key == key) with _ | r <;> rw [hfirst] at hkey ⊢
  · rw [Option.none_bind] at hkey
    simp [get, getLookup, has, hok, hkey]
  rw [Option.some_bind] at hkey
  cases ht : isTombstone r.value
  · obtain ⟨l, hl', hrl⟩ := List.mem_flatten.mp (List.mem_of_find?_eq_some hfirst)
    obtain ⟨id, hid, rfl⟩ := List.mem_map.mp hl'
    have hread := Database.readValue_of_fileRows
      ((Database.recoveredFileRows_sublist _ id).subset hrl) (hr.serves hid) hio
    rcases hrv : db₂.readValue
      ⟨r.rowPosition.fileId, r.rowPosition.rowOffset, r.rowPosition.rowSize⟩ with ⟨rv, io₃⟩
    rw [hrv] at hread
    simp [get, getLookup, has, hok, hkey, ht, hrv, hread, valueOf, Except.map]
  · simp [get, getLookup, has, hok, hkey, ht]

/-- On the reopened store, `foreach` is called with the pairs of the files' rows in id order. -/
theorem foreach_of_reopened (hr : Database.Reopened db₂ disk stable w)
    (hD : Database.Reopenable disk stable w) (hio : db₂.io.faults = []) :
    (⟨kd, o, db₂⟩ : Bitcask).foreach.1 =
      .ok (((stable ++ [w]).map (fileRows disk)).flatten.map RowToRead.pair) := by
  have hread (id : FileId) (hid : id ∈ db₂.heldFileIds) : Readable db₂.disk id := by
    rw [Database.heldFileIds, hr.writing] at hid
    exact hr.disk ▸ hD.readable id ((hr.stable_keys.append_right _).subset hid)
  obtain ⟨it, hit, hdrain⟩ :=
    Database.iter_of_nil hio hr.stable_keys (hr.writing ▸ hD.ascending) hread
  rcases hiter : db₂.iter with ⟨r, db₃⟩
  rw [hiter] at hit
  subst hit
  simp only [foreach, checkDbError_of_healthy hr.healthy, iterRows, hiter, Except.map]
  rw [hdrain, hr.writing, hr.disk]
  rfl

end Reopened

/-- **Reopening keeps what `foreach` visits.** After a session on an empty directory whose calls
    all return `Ok`, with the file-id counter below `u32::MAX`, closing the store and opening its
    directory again with the same options, storage I/O succeeding, gives a store whose `foreach`
    is called with the pairs of every row written since the last `drop`, in the order of the
    writes, as the store before it was (`Call.log`). -/
theorem reopen_keeps_foreach {io io' : Io} {o : BitcaskOptions} {calls : List Call}
    (h : session ∅ io o calls = some bc) (hb : calls.length + 1 < 2 ^ 32)
    (hio : io'.faults = []) :
    ∃ bc', Bitcask.open' bc.close io' o = .ok bc' ∧ bc'.foreach.1 = .ok (Call.log calls) := by
  obtain ⟨hv, hm, hh, -, stable, writing, hl, hlog⟩ := session_spec h hb
  have hD := hl.reopenable hm.inv hh
  rw [← close_eq] at hD
  obtain ⟨kd, db₂, hopen, hio₂, hr, -⟩ := open'_of_reopenable hD hv hio
  refine ⟨_, hopen, ?_⟩
  rw [← hlog, ← hl.fileRows_pair, ← close_eq]
  exact foreach_of_reopened hr hD (hio₂ ▸ hio)

set_option maxRecDepth 20000 in
/-- `put(a, x)`, `put(a, y)`, `delete(a)`: the reopened store's `foreach` still sees all three
    rows. -/
theorem reopen_keeps_foreach_put_put_delete :
    ∃ bc bc', session ∅ ⟨0, []⟩ sampleOptions [.put [97] [120], .put [97] [121], .delete [97]] =
        some bc ∧ Bitcask.open' bc.close ⟨0, []⟩ sampleOptions = .ok bc' ∧
      bc'.foreach.1 = .ok [([97], [120]), ([97], [121]), ([97], tombstoneValue)] := by
  obtain ⟨bc, hs, -⟩ := Option.map_eq_some'.mp (show (session ∅ ⟨0, []⟩ sampleOptions
    [.put [97] [120], .put [97] [121], .delete [97]]).map (fun _ => ()) = some () by decide)
  obtain ⟨bc', ho, hf⟩ :=
    reopen_keeps_foreach hs (by decide) (show (⟨0, []⟩ : Io).faults = [] from rfl)
  exact ⟨bc, bc', hs, ho, hf.trans (by decide)⟩

/-! ## A crash in the middle of a write -/

/-- **Data files never grow past `max_data_file_size`.** After a session on an empty directory
    whose calls all return `Ok`, with fewer than `2 ^ 32 - 1` calls, every data file in the
    directory is at most `max_data_file_size` bytes long, or `FILE_HEADER_SIZE` bytes when the
    option is smaller than the header, or `init_data_file_capacity` bytes, the size `create_file`
    may give a new file: rows that would end past the limit go to a new file. -/
theorem data_files_within_max_size {io : Io} {o : BitcaskOptions} {calls : List Call}
    (h : session ∅ io o calls = some bc) (hb : calls.length + 1 < 2 ^ 32) :
    ∀ id f, bc.close.lookup id = some f → f.bytes.length ≤
      max fileHeaderSize (max o.maxDataFileSize.toNat o.initDataFileCapacity.toNat) := by
  obtain ⟨bc₀, h₀, hrun⟩ := session_eq_some.mp h
  obtain ⟨hm₀, hg₀⟩ := open'_empty h₀
  have hb₀ : bc₀.database.fileIdGenerator.fileId.toNat + calls.length < 2 ^ 32 := by
    rw [hg₀]; show 1 + calls.length < 2 ^ 32; omega
  obtain ⟨io₁, io₂, rfl⟩ := open'_empty_eq h₀
  intro id f hf
  rw [close_eq] at hf
  have hle := (hm₀.kept_runCalls (Database.WithinSize.keptByWrites _) hb₀ Database.WithinSize.fresh
    hrun).2 id f hf
  exact hle.trans (max_le_max le_rfl (le_max_left _ _))

set_option maxRecDepth 20000 in
/-- Files of at most 70 bytes and three rows of 30: the third goes to a second file. -/
theorem data_files_within_max_size_three_puts :
    ∃ bc, session ∅ ⟨0, []⟩ ⟨70, 70, 64, 64⟩ [.put [97] [120], .put [98] [121], .put [99] [122]] =
        some bc ∧ bc.close.keys.length = 2 ∧
      ∀ id f, bc.close.lookup id = some f → f.bytes.length ≤ 70 := by
  obtain ⟨bc, hs, hk⟩ := Option.map_eq_some'.mp (show (session ∅ ⟨0, []⟩ ⟨70, 70, 64, 64⟩
    [.put [97] [120], .put [98] [121], .put [99] [122]]).map (·.close.keys.length) = some 2 by decide)
  exact ⟨bc, hs, hk, data_files_within_max_size hs (by decide)⟩

end Bitcask

end Bitcask
