import Bitcask.Database.Invariant

set_option autoImplicit false

/-! # Reloading the data files

`reload_data_files` replaces the writing file under its mutex, then clears the stable map, then
inserts the new stable files one at a time. The map is empty between the second step and the
first insertion, and `read_value` does not hold any lock of `reload_data_files` when it looks up
the stable map: a read of a stable file that runs in that window fails with
`TargetFileIdNotFound`, although the file is served before the reload and after it. -/

namespace Bitcask

namespace Database

variable {db db' : Database} {s : DataStorage} {ss : List DataStorage}

theorem reloadInsertStable_ok (h : db.reloadInsertStable s = (.ok (), db')) :
    db' = { db with stableStorages := db.stableStorages.insert s.storageId s } := by
  unfold reloadInsertStable at h
  split_ifs at h
  · simp at h
  · exact (Prod.mk.inj h).2.symm

/-- The insertion loop keeps the stable files it starts from and adds every file it inserts. -/
theorem reloadInsertAll_mem (h : db.reloadInsertAll ss = (.ok (), db')) {id : FileId}
    (hid : id ∈ db.stableStorages ∨ id ∈ ss.map (·.storageId)) : id ∈ db'.stableStorages := by
  induction ss generalizing db with
  | nil =>
    obtain rfl := (Prod.mk.inj h).2
    simpa using hid
  | cons s ss ih =>
    unfold reloadInsertAll at h
    split at h
    · simp at h
    rename_i db₁ hs
    obtain rfl := reloadInsertStable_ok hs
    refine ih h ?_
    simp only [List.map_cons, List.mem_cons, AList.mem_insert] at hid ⊢
    tauto

/-- **A read in the window of `reload_data_files` loses its file.** Once the writing file is
    replaced and the stable map cleared, `read_value` of a location outside the new writing file
    fails with `TargetFileIdNotFound`; once the reload has inserted its stable files, every one of
    them is served again. -/
theorem reload_window_loses_files {db₁ db₂ : Database} {w : DataStorage}
    {stables : List DataStorage} {loc : RowLocation}
    (hdone : (db₁.reloadReplaceWriting w).reloadClearStable.reloadInsertAll stables = (.ok (), db₂))
    (hw : loc.fileId ≠ w.storageId) (hs : loc.fileId ∈ stables.map (·.storageId)) :
    ((db₁.reloadReplaceWriting w).reloadClearStable.readValue loc).1 =
        .error (.targetFileIdNotFound loc.fileId) ∧
      db₂.Serves loc.fileId := by
  refine ⟨?_, .inr (reloadInsertAll_mem hdone (.inr hs))⟩
  simp [readValue, readValueWriting, reloadReplaceWriting, reloadClearStable, hw, readValueStable,
    getFileToRead]

/-- A reload of a writing file `2` and a stable file `1`, from the state `open` leaves with the
    writing file `2`. -/
theorem reload_window_loses_files_example :
    ∃ db₂, (((fresh 2 ⟨0, []⟩ ⟨64, 1⟩).reloadReplaceWriting ⟨2, false, 8, ⟨64, 1⟩⟩).reloadClearStable
        ).reloadInsertAll [⟨1, true, 38, ⟨64, 1⟩⟩] = (.ok (), db₂) ∧
      (((((fresh 2 ⟨0, []⟩ ⟨64, 1⟩).reloadReplaceWriting ⟨2, false, 8, ⟨64, 1⟩⟩).reloadClearStable
        ).readValue ⟨1, 8, 30⟩).1 = .error (.targetFileIdNotFound 1) ∧ db₂.Serves 1) := by
  obtain ⟨db₂, hdone⟩ : ∃ db₂, (((fresh 2 ⟨0, []⟩ ⟨64, 1⟩).reloadReplaceWriting
      ⟨2, false, 8, ⟨64, 1⟩⟩).reloadClearStable).reloadInsertAll [⟨1, true, 38, ⟨64, 1⟩⟩] =
        (.ok (), db₂) := ⟨_, rfl⟩
  exact ⟨db₂, hdone, reload_window_loses_files hdone (by decide) (by decide)⟩

set_option maxRecDepth 20000 in
/-- One row written and flushed to a stable file, then `reload_data_files [1, 2]`: the row reads
    back before the reload and after it, and a read whose stable-map lookup falls between the
    clearing and the insertions fails. -/
theorem reload_window_read_fails :
    ((Database.open' ∅ ⟨0, []⟩ FileIdGenerator.new ⟨64, 1⟩).1.toOption.bind fun db =>
      match db.write [97] ⟨[120], 0⟩ with
      | (.ok loc, db) =>
        match db.flushWritingFile.2.reloadPrepare [1, 2] with
        | (.ok (w, stables), db₁) =>
          some ((db.flushWritingFile.2.readValue loc).1.map (·.value),
            ((db₁.reloadReplaceWriting w).reloadClearStable.readValue loc).1.map (·.value),
            (((db₁.reloadReplaceWriting w).reloadClearStable.reloadInsertAll stables).2.readValue
              loc).1.map (·.value))
        | (.error _, _) => none
      | (.error _, _) => none) =
    some (.ok [120], .error (.targetFileIdNotFound 1), .ok [120]) := by
  decide

end Database

end Bitcask
