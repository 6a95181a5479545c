import Bitcask.Database.IterOrder

set_option autoImplicit false

/-! # Hint files

`do_flush_writing_file` queues the id of each file it turns read-only (`async_write_hint_file`),
and a worker thread writes that file's hint file. The writer (`hint.rs`) is not in the repository;
modelled from the spec, it scans the data file once and writes one record for the last row of
each key, tombstones included (`hintRecords`), and a task whose I/O fails is dropped.
`recovered_iter` reads a file's hint file in place of the file when it exists.

A directory is `HintsFaithful` when each hint file holds what the writer makes of its data file as
that file is now. The writer is given a file once it is read-only, and no call writes a read-only
file again, so a hint file written during a session is the one written at its end. Over a faithful
directory the rows recovery reads of a file are its scanned rows, or the last row of each key when
the file has a hint file (`recoveredFileRows`). -/

namespace Bitcask

/-- The elements of `l` that no later element of the same key follows: the last of each key, in
    order. -/
def lastPerKey {α : Type} (key : α → Bytes) : List α → List α
  | [] => []
  | a :: l => if l.any (fun b => key b == key a) then lastPerKey key l else a :: lastPerKey key l

theorem lastPerKey_sublist {α : Type} (key : α → Bytes) (l : List α) :
    (lastPerKey key l).Sublist l := by
  induction l with
  | nil => exact .slnil
  | cons a l ih =>
    unfold lastPerKey
    split_ifs
    · exact ih.cons a
    · exact ih.cons₂ a

namespace Database

/-! ## The hint writer -/

/-- Modelled from the spec: the records the hint writer makes of data file `id`'s bytes. -/
def hintRecords (id : FileId) (bytes : Bytes) : List RecoveredRow :=
  (lastPerKey RowToRead.key (scanFile id bytes)).map RecoveredRow.ofRow

/-- Modelled from the spec: the hint file of data file `id` written, when the data file is on
    disk. -/
def writeHintFile (disk : Disk) (id : FileId) : Disk :=
  match disk.lookup id with
  | some f => disk.insert id { f with hint := some (hintRecords id f.bytes) }
  | none => disk

/-- The hint files of the files `ids` written, one after the other. -/
def writeHintFiles (disk : Disk) (ids : List FileId) : Disk :=
  ids.foldl writeHintFile disk

/-- Modelled from the spec: one task of the hint writer's worker, on the first id of the queue. -/
def runHintTask (db : Database) : Database :=
  match db.hintFileWriter with
  | [] => db
  | id :: ids =>
    match db.io.attempt with
    | (true, io) => { db with hintFileWriter := ids, io := io }
    | (false, io) => { db with disk := writeHintFile db.disk id, hintFileWriter := ids, io := io }

theorem writeHintFiles_append (disk : Disk) (ids ids' : List FileId) :
    writeHintFiles disk (ids ++ ids') = writeHintFiles (writeHintFiles disk ids) ids' :=
  List.foldl_append _ _ _ _

theorem runHintTask_disk (db : Database) :
    ∃ ids, db.runHintTask.disk = writeHintFiles db.disk ids := by
  unfold runHintTask
  rcases db.hintFileWriter with _ | ⟨id, _⟩
  · exact ⟨[], rfl⟩
  rcases db.io.attempt with ⟨_ | _, io⟩
  · exact ⟨[id], rfl⟩
  · exact ⟨[], rfl⟩

/-- The worker's tasks, however many run and whichever fail, write the hint files of some files
    and change nothing else on disk. -/
theorem runHintTask_iterate (n : Nat) (db : Database) :
    ∃ ids, (runHintTask^[n] db).disk = writeHintFiles db.disk ids := by
  induction n with
  | zero => exact ⟨[], rfl⟩
  | succ n ih =>
    obtain ⟨ids, hids⟩ := ih
    obtain ⟨ids', hids'⟩ := runHintTask_disk (runHintTask^[n] db)
    exact ⟨ids ++ ids', by rw [Function.iterate_succ_apply', hids', hids, writeHintFiles_append]⟩

/-! ## What a hint file changes -/

variable {disk : Disk} {id id' : FileId}

theorem writeHintFile_lookup (disk : Disk) (id id' : FileId) :
    (writeHintFile disk id).lookup id' = (disk.lookup id').map fun f =>
      if id' = id then { f with hint := some (hintRecords id f.bytes) } else f := by
  unfold writeHintFile
  by_cases h : id' = id
  · subst h
    cases hf : disk.lookup id' <;> simp [hf]
  · split <;> simp [AList.lookup_insert_ne h, h]

@[simp] theorem mem_writeHintFile : id' ∈ writeHintFile disk id ↔ id' ∈ disk := by
  simp only [← AList.lookup_isSome, writeHintFile_lookup, Option.isSome_map']

/-- Every hint file holds what the hint writer makes of its data file. -/
def HintsFaithful (disk : Disk) : Prop :=
  ∀ id f records, disk.lookup id = some f → f.hint = some records →
    records = hintRecords id f.bytes

/-- The rows recovery reads of file `id`: the rows of its scan, or the last of each key when it
    has a hint file. -/
def recoveredFileRows (disk : Disk) (id : FileId) : List RowToRead :=
  if ((disk.lookup id).bind DiskFile.hint).isSome then lastPerKey RowToRead.key (fileRows disk id)
  else fileRows disk id

theorem recoveredFileRows_sublist (disk : Disk) (id : FileId) :
    (recoveredFileRows disk id).Sublist (fileRows disk id) := by
  unfold recoveredFileRows
  split_ifs
  · exact lastPerKey_sublist _ _
  · exact List.Sublist.refl _

/-- Over faithful hint files, what `recovered_iter` yields for a file is made of the rows
    `recoveredFileRows` names. -/
theorem HintsFaithful.recoveredRows (h : HintsFaithful disk) (id : FileId) :
    Bitcask.recoveredRows disk id = (recoveredFileRows disk id).map RecoveredRow.ofRow := by
  unfold Bitcask.recoveredRows recoveredFileRows
  rcases hf : disk.lookup id with _ | f
  · simp [fileRows, hf]
  rcases hh : f.hint with _ | records
  · simp [hh]
  · simp [hh, h id f records hf hh, hintRecords, fileRows, hf]

theorem HintsFaithful.writeHintFile (h : HintsFaithful disk) (id : FileId) :
    HintsFaithful (writeHintFile disk id) := by
  intro id' f records hf hr
  rw [writeHintFile_lookup] at hf
  obtain ⟨g, hg, rfl⟩ := Option.map_eq_some'.mp hf
  split_ifs at hr ⊢ with he
  · subst he
    exact (Option.some.inj hr).symm
  · exact h id' g records hg hr

theorem HintsFaithful.writeHintFiles (h : HintsFaithful disk) (ids : List FileId) :
    HintsFaithful (Database.writeHintFiles disk ids) := by
  induction ids generalizing disk with
  | nil => exact h
  | cons id ids ih => exact ih (h.writeHintFile id)

end Database

end Bitcask
