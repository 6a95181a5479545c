import Bitcask.Database.Iter

set_option autoImplicit false

/-! # The multi-file iterators read the held files in id order

`Database::iter` sorts the opened handles by id and `Database::recovery_iter` sorts the ids; both
then reverse the list into a `Vec` and pop from its end, so the files come out smallest id first.
Each loop moves on to the next file whenever the current one is exhausted, however many empty
files come in a row, and stops only when no file is left.

The development follows the code. `DatabaseIter.nextFrom_some` and
`DatabaseRecoverIter.nextFrom_some` say what one call of `next` yields, and by induction on the
fuel a drain with more fuel than rows yields every row left, file after file. Over readable files
with storage I/O succeeding, opening and scanning a file gives its scan (`fileRows`, and
`recoveredRows` for the recovery iterator), and sorting handles by id is sorting their ids
(`List.map_insertionSort`). -/

namespace Bitcask

/-! ## Draining `DatabaseIter` -/

namespace DatabaseIter

/-- The rows the iterator has still to yield: the current file's rest, then the files to come. -/
def rowsLeft (it : DatabaseIter) : List RowToRead :=
  it.currentIter.getD [] ++ it.remainIters.flatten

/-- One turn of `next` from a current iterator either finds nothing left, or yields the first
    row left and keeps the others, with a current iterator again. -/
theorem nextFrom_some (cur : List RowToRead) (remain : List (List RowToRead)) :
    (nextFrom (some cur) remain = none ∧ cur ++ remain.flatten = []) ∨
      ∃ r it, nextFrom (some cur) remain = some (r, it) ∧ it.currentIter.isSome ∧
        cur ++ remain.flatten = r :: it.rowsLeft := by
  induction remain generalizing cur with
  | nil =>
    cases cur with
    | nil => exact .inl ⟨by simp [nextFrom], rfl⟩
    | cons r rs => exact .inr ⟨r, ⟨some rs, []⟩, by simp [nextFrom], rfl, by simp [rowsLeft]⟩
  | cons it remain ih =>
    cases cur with
    | nil => simpa only [nextFrom, List.flatten_cons, List.nil_append] using ih it
    | cons r rs =>
      exact .inr ⟨r, ⟨some rs, it :: remain⟩, by simp [nextFrom], rfl, by simp [rowsLeft]⟩

/-- With a current iterator and more fuel than rows left, the loop yields every row left. -/
theorem drain_of_isSome {it : DatabaseIter} (h : it.currentIter.isSome) {n : Nat}
    (hn : it.rowsLeft.length < n) : drain n it = it.rowsLeft := by
  induction n generalizing it with
  | zero => exact absurd hn (Nat.not_lt_zero _)
  | succ n ih =>
    obtain ⟨cur', remain⟩ := it
    obtain ⟨cur, rfl⟩ := Option.isSome_iff_exists.mp h
    have hleft : rowsLeft ⟨some cur, remain⟩ = cur ++ remain.flatten := rfl
    rcases nextFrom_some cur remain with ⟨hnone, hnil⟩ | ⟨r, it, hsome, hcur, heq⟩
    · rw [hleft, hnil]; simp only [drain, next, hnone]
    · rw [hleft, heq] at hn ⊢
      simp only [drain, next, hsome]
      rw [ih hcur (by simp at hn; omega)]

/-- The iterator `new` builds, drained with more fuel than its files have rows, yields the rows
    of its files one file after the other. -/
theorem drain_new_of_lt (iters : List (List RowToRead)) {n : Nat}
    (hn : iters.flatten.length < n) : (new iters).drain n = iters.flatten := by
  cases iters with
  | nil => cases n <;> rfl
  | cons it rest =>
    exact drain_of_isSome (show (new (it :: rest)).currentIter.isSome from rfl)
      (by simpa [rowsLeft, new] using hn)

/-- **Drained with the fuel `size` gives it, the iterator `new` builds yields the rows of its
    files one file after the other.** -/
theorem drain_new (iters : List (List RowToRead)) :
    (new iters).drain (new iters).size = iters.flatten :=
  drain_new_of_lt iters (by cases iters <;> simp [size, new, List.length_flatten])

end DatabaseIter

/-! ## Opening and scanning readable files -/

/-- A file `DataStorage::open` and `DataStorage::iter` accept: on disk, with the file header. -/
def Readable (disk : Disk) (id : FileId) : Prop :=
  ∃ f, disk.lookup id = some f ∧ f.bytes.take fileHeaderSize = fileHeader

/-- The rows the scan of file `id` yields (none for a file not on disk). -/
def fileRows (disk : Disk) (id : FileId) : List RowToRead :=
  ((disk.lookup id).map fun f => scanFile id f.bytes).getD []

/-- The rows `recovered_iter` yields for file `id`: its hint file's records when it has one,
    otherwise those it makes of the file's scan. -/
def recoveredRows (disk : Disk) (id : FileId) : List RecoveredRow :=
  match (disk.lookup id).bind DiskFile.hint with
  | some records => records
  | none => (fileRows disk id).map RecoveredRow.ofRow

namespace DataStorage

theorem open'_of_nil {disk : Disk} {io : Io} {id : FileId} {o : DataStorageOptions}
    (hio : io.faults = []) (h : Readable disk id) :
    ∃ s, DataStorage.open' disk io id o = (.ok s, io) ∧ s.storageId = id := by
  obtain ⟨f, hf, hh⟩ := h
  unfold DataStorage.open'
  rw [Io.attempt_of_nil io hio]
  simp only [hf, hh, ne_eq, not_true_eq_false, if_false]
  split <;> exact ⟨_, rfl, rfl⟩

theorem iter_of_nil {disk : Disk} {io : Io} {s : DataStorage} (hio : io.faults = [])
    (h : Readable disk s.storageId) : s.iter disk io = (.ok (fileRows disk s.storageId), io) := by
  obtain ⟨f, hf, hh⟩ := h
  simp [DataStorage.iter, Io.attempt_of_nil io hio, hf, hh, fileRows]

end DataStorage

namespace Database

variable {disk : Disk} {io : Io}

theorem openEach_of_nil {o : DataStorageOptions} (hio : io.faults = []) {ids : List FileId}
    (h : ∀ id ∈ ids, Readable disk id) :
    ∃ files, openEach disk o ids io = (.ok files, io) ∧ files.map DataStorage.storageId = ids := by
  induction ids with
  | nil => exact ⟨[], rfl, rfl⟩
  | cons id ids ih =>
    obtain ⟨s, hs, rfl⟩ := DataStorage.open'_of_nil (o := o) hio (h id (.head _))
    obtain ⟨files, he, hm⟩ := ih fun i hi => h i (.tail _ hi)
    exact ⟨s :: files, by simp [openEach, hs, he], by simp [hm]⟩

theorem iterEach_of_nil (hio : io.faults = []) {ss : List DataStorage}
    (h : ∀ s ∈ ss, Readable disk s.storageId) :
    iterEach disk ss io = (.ok (ss.map fun s => fileRows disk s.storageId), io) := by
  induction ss with
  | nil => rfl
  | cons s ss ih =>
    simp [iterEach, DataStorage.iter_of_nil hio (h s (.head _)), ih fun s' hs => h s' (.tail _ hs)]

theorem recoveredIter_of_nil {o : DataStorageOptions} (hio : io.faults = []) {id : FileId}
    (h : Readable disk id) : recoveredIter disk io id o = (.ok (recoveredRows disk id), io) := by
  unfold recoveredIter recoveredRows
  rcases (disk.lookup id).bind DiskFile.hint with _ | records
  · obtain ⟨s, hs, rfl⟩ := DataStorage.open'_of_nil (o := o) hio h
    simp only [hs, DataStorage.iter_of_nil hio h]
  · simp only [Io.attempt_of_nil io hio]

/-! ## Sorting by id -/

/-- Sorting handles by id, as `Database::iter` does, is sorting their ids. -/
theorem insertionSort_storageId (files : List DataStorage) :
    (files.insertionSort fun a b => a.storageId ≤ b.storageId).map DataStorage.storageId =
      (files.map DataStorage.storageId).insertionSort (· ≤ ·) :=
  List.map_insertionSort _ _ _ files fun _ _ _ _ => Iff.rfl

/-- Ids that are a permutation of the ascending `ids` sort to `ids`. -/
theorem insertionSort_eq_of_perm {l ids : List FileId} (hperm : l.Perm ids)
    (hasc : ids.Sorted (· ≤ ·)) : l.insertionSort (· ≤ ·) = ids := by
  have : IsTotal FileId (· ≤ ·) := ⟨UInt32.le_total⟩
  have : IsTrans FileId (· ≤ ·) := ⟨fun _ _ _ => UInt32.le_trans⟩
  -- compared as numbers, both lists are sorted permutations of each other
  have hs : ((l.insertionSort (· ≤ ·)).map UInt32.toNat).Sorted (· ≤ ·) :=
    (List.sorted_insertionSort (· ≤ ·) l).map _ fun _ _ h => h
  have hi : (ids.map UInt32.toNat).Sorted (· ≤ ·) := hasc.map _ fun _ _ h => h
  have hp := ((List.perm_insertionSort (· ≤ ·) l).trans hperm).map UInt32.toNat
  exact List.map_injective_iff.mpr (fun _ _ => UInt32.toNat.inj) (List.eq_of_perm_of_sorted hp hs hi)

/-! ## `Database::iter` -/

/-- With storage I/O succeeding and every held file readable, `Database::iter` builds the
    iterator over the held files' scans, in ascending id order. -/
theorem iter_eq_new {db : Database} (hio : db.io.faults = [])
    (hread : ∀ id ∈ db.heldFileIds, Readable db.disk id) :
    db.iter.1 = .ok (DatabaseIter.new ((db.heldFileIds.insertionSort (· ≤ ·)).map
      (fileRows db.disk))) := by
  obtain ⟨files, he, hm⟩ := openEach_of_nil (o := db.options) hio hread
  have hie : iterEach db.disk (files.insertionSort fun a b => a.storageId ≤ b.storageId) db.io =
      _ := iterEach_of_nil hio fun s hs =>
      hread _ (hm ▸ List.mem_map_of_mem _ ((List.perm_insertionSort _ files).subset hs))
  simp only [Database.iter, he, hie]
  rw [← hm, ← insertionSort_storageId, List.map_map]
  rfl

/-- **`Database::iter` reads the held files in ascending id order.** With storage I/O
    succeeding and every held file readable, when the stable ids are `ids` and ascend below the
    writing file's id, the loop over the iterator yields the rows of the stable files in the
    order of `ids`, then the writing file's. -/
theorem iter_of_nil {db : Database} (hio : db.io.faults = []) {ids : List FileId}
    (hperm : db.stableStorages.keys.Perm ids)
    (hasc : (ids ++ [db.writingStorage.storageId]).Pairwise fun a b => a.toNat < b.toNat)
    (hread : ∀ id ∈ db.heldFileIds, Readable db.disk id) :
    ∃ it, db.iter.1 = .ok it ∧
      it.drain it.size = ((ids ++ [db.writingStorage.storageId]).map (fileRows db.disk)).flatten := by
  have hsorted : db.heldFileIds.insertionSort (· ≤ ·) = ids ++ [db.writingStorage.storageId] :=
    insertionSort_eq_of_perm (hperm.append_right _) (hasc.imp Nat.le_of_lt)
  exact ⟨_, iter_eq_new hio hread, by rw [DatabaseIter.drain_new, hsorted]⟩

end Database

/-! ## Draining `DatabaseRecoverIter` -/

namespace DatabaseRecoverIter

variable {disk : Disk} {o : DataStorageOptions} {io : Io}

/-- One turn of `next` from a current iterator, with storage I/O succeeding and the files to
    come readable, either finds nothing left, or yields the first row left and keeps the others,
    with a current iterator again and a part of the ids still to come. The I/O is as it was. -/
theorem nextFrom_some (hio : io.faults = []) (cur : List RecoveredRow) {ids : List FileId}
    (hread : ∀ id ∈ ids, Readable disk id) :
    (nextFrom disk o (some cur) ids io = (none, io) ∧
        cur ++ (ids.map (recoveredRows disk)).flatten = []) ∨
      ∃ r rs ids', nextFrom disk o (some cur) ids io = (some (.ok r, ⟨some rs, ids', disk, o⟩), io) ∧
        ids' ⊆ ids ∧
        cur ++ (ids.map (recoveredRows disk)).flatten =
          r :: (rs ++ (ids'.map (recoveredRows disk)).flatten) := by
  induction ids generalizing cur with
  | nil =>
    cases cur with
    | nil => exact .inl ⟨rfl, rfl⟩
    | cons r rs => exact .inr ⟨r, rs, [], rfl, List.Subset.refl _, rfl⟩
  | cons id ids ih =>
    cases cur with
    | cons r rs => exact .inr ⟨r, rs, id :: ids, rfl, List.Subset.refl _, rfl⟩
    | nil =>
      have hrec := Database.recoveredIter_of_nil (o := o) hio (hread id (.head _))
      rcases hrows : recoveredRows disk id with _ | ⟨r, rs⟩
      · -- an empty file: `next` opens the one after it
        rcases ih [] fun i hi => hread i (.tail _ hi) with h | ⟨r, rs, ids', h, hsub, heq⟩
        · exact .inl (by simpa [nextFrom, hrec, hrows] using h)
        · exact .inr ⟨r, rs, ids', by simpa [nextFrom, hrec, hrows] using h,
            hsub.trans (List.subset_cons_self _ _), by simpa [hrows] using heq⟩
      · exact .inr ⟨r, rs, ids, by simp only [nextFrom, hrec, hrows], List.subset_cons_self _ _,
          by simp [hrows]⟩

/-- With storage I/O succeeding, the files to come readable and more fuel than rows left, the
    loop yields every row left, in order, and leaves the I/O as it was. -/
theorem drain_of_some (hio : io.faults = []) {cur : List RecoveredRow} {ids : List FileId}
    (hread : ∀ id ∈ ids, Readable disk id) {n : Nat}
    (hn : (cur ++ (ids.map (recoveredRows disk)).flatten).length < n) :
    drain n ⟨some cur, ids, disk, o⟩ io =
      ((cur ++ (ids.map (recoveredRows disk)).flatten).map .ok, io) := by
  induction n generalizing cur ids with
  | zero => exact absurd hn (Nat.not_lt_zero _)
  | succ n ih =>
    rcases nextFrom_some (o := o) hio cur hread with ⟨hnone, hnil⟩ | ⟨r, rs, ids', hsome, hsub, heq⟩
    · rw [hnil]; simp only [drain, next, hnone]; rfl
    · rw [heq] at hn ⊢
      simp only [drain, next, hsome]
      rw [ih (fun i hi => hread i (hsub hi)) (by simp only [List.length_cons] at hn; omega)]
      rfl

/-- `DatabaseRecoverIter::new` over readable files, drained with more fuel than the files have
    rows, yields their recovered rows one file after the other. -/
theorem drain_new (hio : io.faults = []) {ids : List FileId}
    (hread : ∀ id ∈ ids, Readable disk id) :
    ∃ it, new disk io ids o = (.ok it, io) ∧
      ∀ n, (ids.map (recoveredRows disk)).flatten.length < n →
        it.drain n io = ((ids.map (recoveredRows disk)).flatten.map .ok, io) := by
  cases ids with
  | nil => exact ⟨_, rfl, fun n _ => by cases n <;> rfl⟩
  | cons id ids =>
    refine ⟨_, by simp only [new, Database.recoveredIter_of_nil hio (hread id (.head _))]; rfl,
      fun n hn => ?_⟩
    exact drain_of_some hio (fun i hi => hread i (.tail _ hi)) (by simpa using hn)

end DatabaseRecoverIter

/-! ## Both iterators -/

namespace Database

/-- **The multi-file iterators flatten in file-id order.** With storage I/O succeeding and every
    held file (the stable ones and the writing one) readable, for `ids` the held ids in ascending
    order: `Database::iter` yields the concatenation of the files' scans over `ids`, and
    `Database::recovery_iter` the corresponding recovered rows in the same order, each loop
    ending after its last row given more fuel than there are rows (empty files anywhere
    included). -/
theorem iterators_flatten_in_id_order {db : Database} (hio : db.io.faults = []) {ids : List FileId}
    (hperm : (db.stableStorages.keys ++ [db.writingStorage.storageId]).Perm ids)
    (hasc : ids.Sorted (· ≤ ·))
    (hread : ∀ id ∈ db.stableStorages.keys ++ [db.writingStorage.storageId], Readable db.disk id) :
    (∃ it, db.iter.1 = .ok it ∧ ∀ n, (ids.map (fileRows db.disk)).flatten.length < n →
        it.drain n = (ids.map (fileRows db.disk)).flatten) ∧
      ∃ it, db.recoveryIter = (.ok it, db.io) ∧
        ∀ n, (ids.map (recoveredRows db.disk)).flatten.length < n →
          it.drain n db.io = ((ids.map (recoveredRows db.disk)).flatten.map .ok, db.io) := by
  have hsorted : db.heldFileIds.insertionSort (· ≤ ·) = ids := insertionSort_eq_of_perm hperm hasc
  refine ⟨⟨_, iter_eq_new hio hread, fun n hn => ?_⟩, ?_⟩
  · rw [hsorted]; exact DatabaseIter.drain_new_of_lt _ hn
  · rw [recoveryIter, hsorted]
    exact DatabaseRecoverIter.drain_new hio fun id h => hread id (hperm.symm.subset h)

/-- Stable files `3` (one row) and `1` (empty) and the writing file `2`. -/
def sampleDatabase : Database :=
  let o : DataStorageOptions := ⟨1024, 1024⟩
  let row := (RowToWrite.newWithTimestamp [97] [120] 7).toBytes
  ⟨(((∅ : Disk).insert 3 ⟨fileHeader ++ row, true, none⟩).insert 1 ⟨fileHeader, true, none⟩).insert 2
      ⟨fileHeader ++ row, false, none⟩,
    ⟨0, []⟩, ⟨2⟩, ⟨2, false, fileHeaderSize + row.length, o⟩,
    ((∅ : StableStorages).insert 3 ⟨3, true, fileHeaderSize + row.length, o⟩).insert 1
      ⟨1, true, fileHeaderSize, o⟩,
    o, [], none⟩

/-- Held in the order `1, 3, 2`, the files are read as `1, 2, 3`. -/
theorem iterators_flatten_in_id_order_sample :
    (∃ it, sampleDatabase.iter.1 = .ok it ∧
      ∀ n, (([1, 2, 3] : List FileId).map (fileRows sampleDatabase.disk)).flatten.length < n →
        it.drain n = (([1, 2, 3] : List FileId).map (fileRows sampleDatabase.disk)).flatten) ∧
      ∃ it, sampleDatabase.recoveryIter = (.ok it, sampleDatabase.io) ∧
        ∀ n, (([1, 2, 3] : List FileId).map (recoveredRows sampleDatabase.disk)).flatten.length < n →
          it.drain n sampleDatabase.io =
            ((([1, 2, 3] : List FileId).map (recoveredRows sampleDatabase.disk)).flatten.map .ok,
              sampleDatabase.io) :=
  iterators_flatten_in_id_order rfl (by decide) (by decide)
    (List.forall_mem_cons.2 ⟨⟨_, rfl, rfl⟩, List.forall_mem_cons.2 ⟨⟨_, rfl, rfl⟩,
      List.forall_mem_cons.2 ⟨⟨_, rfl, rfl⟩, fun _ h => absurd h (List.not_mem_nil _)⟩⟩⟩)

end Database

end Bitcask
