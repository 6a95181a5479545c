import Mathlib.Data.UInt
import Bitcask.Database.Rollover

set_option autoImplicit false

/-! # Row locations across a run of writes

`Database::write` returns the location of the row it wrote, and `read_value` reads it later. Over
a run of successful `write` and `flush_writing_file` calls, every location a write returned still
reads back the value it wrote, and no two of them overlap in one file
(`runWrites_locations_read_back`).

A write puts its row at the write offset, which can be short of the file's end (a store reopened
on a non-empty writable file starts at the header's end), so rows of earlier sessions can be
written over; the locations of the run itself all end by the write offset. A rollover gives the new
writing file the counter's next id, and `generateNextFileId` wraps at `u32::MAX`: the new file
replaces any file with that id. The run's files stay clear of the new ids while the counter hands
out fewer ids than separate it from the first writing file's id, going round the range, which the
bound on the run's length states. A store whose counter is its writing file's id, as
`Database::open` and every rollover leave it, may make any run of fewer than `2 ^ 32` calls.

`Tracks db locs n` is what the run keeps of the locations `locs` it returned, with `n` ids left to
hand out; each kind of step keeps it (`Tracks.appendToWriting`, `Tracks.rolledOver`), and so does
every run (`Tracks.runWrites`). -/

namespace Bitcask

namespace Database

/-! ## Runs of writes -/

/-- One call of a run: `Database::write` or `flush_writing_file`. -/
inductive WriteCall where
  | write (key : Bytes) (value : TimedValue)
  | flush

/-- The run of `calls` when each returns `Ok`: the state it leaves and the location each `write`
    returned with the value it wrote, in order; `none` when a call fails. -/
def runWrites (db : Database) : List WriteCall → Option (Database × List (RowLocation × Bytes))
  | [] => some (db, [])
  | .write key value :: calls =>
    match db.write key value with
    | (.ok loc, db) => (runWrites db calls).map fun r => (r.1, (loc, value.value) :: r.2)
    | (.error _, _) => none
  | .flush :: calls =>
    match db.flushWritingFile with
    | (.ok (), db) => runWrites db calls
    | (.error _, _) => none

/-- Two locations in one file do not overlap. -/
def Apart (l l' : RowLocation) : Prop :=
  l.fileId = l'.fileId → l.rowOffset + l.rowSize ≤ l'.rowOffset ∨ l'.rowOffset + l'.rowSize ≤ l.rowOffset

/-! ## Ids behind the counter -/

/-- One more id handed out moves the counter one further from an id it had not gone round to. -/
theorem sub_succ_toNat {c id : FileId} (h : (c - id).toNat + 1 < 2 ^ 32) :
    (c + 1 - id).toNat = (c - id).toNat + 1 := by
  rw [add_sub_right_comm]
  simp only [UInt32.toNat, UInt32.add_def, BitVec.toNat_add] at h ⊢
  simp
  omega

theorem succ_ne_of_behind {c id : FileId} (h : (c - id).toNat + 1 < 2 ^ 32) : c + 1 ≠ id := by
  intro he
  have := sub_succ_toNat h
  rw [he, sub_self] at this
  simp at this

/-! ## What a run keeps -/

/-- What a run keeps of the locations `locs` it returned, with `n` more ids for the counter to
    hand out: each location holds its value, those in the writing file end by the write offset,
    they are pairwise apart, and the counter is less than `2 ^ 32 - n` ids past the writing
    file's id and each location's. -/
structure Tracks (db : Database) (locs : List (RowLocation × Bytes)) (n : Nat) : Prop where
  stable_id : ∀ id s, db.stableStorages.lookup id = some s → s.storageId = id
  writing_reaches : ∃ f, db.disk.lookup db.writingStorage.storageId = some f ∧
    db.writingStorage.writeOffset ≤ f.bytes.length
  holds : ∀ p ∈ locs, db.Holds p.1 p.2
  below : ∀ p ∈ locs, p.1.fileId = db.writingStorage.storageId →
    p.1.rowOffset + p.1.rowSize ≤ db.writingStorage.writeOffset
  apart : locs.Pairwise fun p q => Apart p.1 q.1
  writing_behind : (db.fileIdGenerator.fileId - db.writingStorage.storageId).toNat + n < 2 ^ 32
  behind : ∀ p ∈ locs, (db.fileIdGenerator.fileId - p.1.fileId).toNat + n < 2 ^ 32

variable {db db' : Database} {locs : List (RowLocation × Bytes)} {n : Nat} {f : DiskFile}
  {io : Io}

namespace Tracks

theorem mono (h : Tracks db locs n) {m : Nat} (hm : m ≤ n) : Tracks db locs m :=
  ⟨h.1, h.2, h.3, h.4, h.5, by have := h.6; omega, fun p hp => by have := h.7 p hp; omega⟩

theorem withIo (h : Tracks db locs n) (io : Io) : Tracks { db with io := io } locs n :=
  ⟨h.1, h.2, h.3, h.4, h.5, h.6, h.7⟩

/-- **A row written at the write offset** joins the locations, and the others keep their bytes:
    they end by the offset. -/
theorem appendToWriting (h : Tracks db locs n) {key value : Bytes} {ts : UInt64}
    (hf : db.disk.lookup db.writingStorage.storageId = some f)
    (hk : key.length < 2 ^ 64) (hv : value.length < 2 ^ 64) :
    Tracks (db.appendToWriting f (.newWithTimestamp key value ts) io)
      (locs ++ [(⟨db.writingStorage.storageId, db.writingStorage.writeOffset,
        (RowToWrite.newWithTimestamp key value ts).toBytes.length⟩, value)]) n := by
  obtain ⟨f', hf', hoff⟩ := h.writing_reaches
  rw [hf] at hf'
  cases hf'
  refine ⟨h.stable_id, ⟨_, (lookup_appendToWriting _).trans (if_pos rfl),
    (writeAt_at hoff _).1⟩,
    List.forall_mem_append.mpr ⟨fun p hp => ?_, List.forall_mem_singleton.mpr
      (Holds.appendToWriting_self hoff hk hv)⟩,
    List.forall_mem_append.mpr ⟨fun p hp hw => (h.below p hp hw).trans (Nat.le_add_right _ _),
      List.forall_mem_singleton.mpr fun _ => le_rfl⟩,
    List.pairwise_append.mpr ⟨h.apart, List.pairwise_singleton _ _, fun p hp q hq hpq => ?_⟩,
    h.writing_behind,
    List.forall_mem_append.mpr ⟨h.behind, List.forall_mem_singleton.mpr h.writing_behind⟩⟩
  · refine (h.holds p hp).of_kept (h.holds p hp).1 fun g hg => ?_
    rw [lookup_appendToWriting]
    split_ifs with hw
    · -- a row of the writing file ends by the offset, before the bytes written
      rw [hw, hf] at hg
      cases hg
      refine ⟨_, rfl, ?_⟩
      rw [← min_eq_left (h.below p hp hw), ← List.take_take]
      exact (take_isPrefix_self _ _).trans (take_prefix_writeAt _ _)
    · exact ⟨g, hg, take_isPrefix_self _ _⟩
  · rw [List.mem_singleton.mp hq] at hpq ⊢
    exact .inl (h.below p hp hpq)

/-- **A rollover** keeps every location: the new file's id is none of theirs, and the old writing
    file, stable now, keeps its bytes. -/
theorem rolledOver (h : Tracks db locs (n + 1))
    (hf : (db.disk.insert db.nextFileId ⟨fileHeader, false, none⟩).lookup
      db.writingStorage.storageId = some f) :
    Tracks (db.rolledOver f io) locs n := by
  have hnext : db.nextFileId = db.fileIdGenerator.fileId + 1 := rfl
  have hw : db.writingStorage.storageId ≠ db.nextFileId :=
    (succ_ne_of_behind (by have := h.writing_behind; omega)).symm
  have hp (p) (hp : p ∈ locs) : p.1.fileId ≠ db.nextFileId :=
    (succ_ne_of_behind (by have := h.behind p hp; omega)).symm
  rw [AList.lookup_insert_ne hw] at hf
  refine ⟨rolledOver_stable_id h.stable_id, ⟨⟨fileHeader, false, none⟩, ?_, fileHeader_length.ge⟩,
    fun p hp' => ?_, fun p hp' he => absurd he (hp p hp'), h.apart, ?_, fun p hp' => ?_⟩
  · simp only [Database.rolledOver]
    rw [AList.lookup_insert_ne hw.symm, AList.lookup_insert]
  · refine (h.holds p hp').of_kept ?_ fun g hg => ?_
    · exact .inr ((AList.mem_insert _).mpr ((h.holds p hp').1.imp_left id))
    rw [rolledOver_lookup (hp p hp')]
    split_ifs with he
    · rw [he, hf] at hg
      cases hg
      exact ⟨_, rfl, take_isPrefix_self _ _⟩
    · exact ⟨g, hg, take_isPrefix_self _ _⟩
  · show (db.fileIdGenerator.fileId + 1 - db.nextFileId).toNat + n < 2 ^ 32
    rw [hnext, sub_self]
    have := h.writing_behind
    simp only [UInt32.toNat_zero]
    omega
  · show (db.fileIdGenerator.fileId + 1 - p.1.fileId).toNat + n < 2 ^ 32
    have := h.behind p hp'
    rw [sub_succ_toNat (by omega)]
    omega

theorem doFlushWritingFile (h : Tracks db locs (n + 1)) (hd : db.doFlushWritingFile = (.ok (), db')) :
    Tracks db' locs n := by
  rcases doFlushWritingFile_ok hd with ⟨-, rfl⟩ | ⟨-, f, hf, io, rfl⟩
  · exact h.mono (Nat.le_succ n)
  · exact h.rolledOver hf

/-- A row that fits the file's maximum size has a key and a value whose sizes fit in `u64`. -/
theorem sizes_of_fit {key value : Bytes} {ts : UInt64} {off : Nat} {m : UInt64}
    (hfit : off + (RowToWrite.newWithTimestamp key value ts).toBytes.length ≤ m.toNat) :
    key.length < 2 ^ 64 ∧ value.length < 2 ^ 64 := by
  have : m.toNat < 2 ^ 64 := m.toNat_lt_size
  rw [RowToWrite.toBytes_length] at hfit
  exact ⟨by simp [RowToWrite.newWithTimestamp] at hfit; omega,
    by simp [RowToWrite.newWithTimestamp] at hfit; omega⟩

theorem writeRowToWriting (h : Tracks db locs n) {key value : Bytes} {ts : UInt64}
    {loc : RowLocation} (hw : db.writeRowToWriting (.newWithTimestamp key value ts) = (.ok loc, db')) :
    Tracks db' (locs ++ [(loc, value)]) n := by
  obtain ⟨f, hf, -, hfit, rfl, io, rfl⟩ := writeRowToWriting_ok hw
  obtain ⟨hk, hv⟩ := sizes_of_fit hfit
  exact h.appendToWriting hf hk hv

/-- **A successful write** adds its location, with at most one rollover. -/
theorem writeWithRetry (h : Tracks db locs (n + 1)) {key value : Bytes} {ts : UInt64}
    {loc : RowLocation} (hw : db.writeWithRetry (.newWithTimestamp key value ts) = (.ok loc, db')) :
    Tracks db' (locs ++ [(loc, value)]) n := by
  rcases writeWithRetry_ok hw with hw | ⟨id, db₁, db₂, hw₁, hf, hw₂⟩
  · exact (h.writeRowToWriting hw).mono (Nat.le_succ n)
  · obtain ⟨io, rfl⟩ := writeRowToWriting_error hw₁
    exact ((h.withIo io).doFlushWritingFile hf).writeRowToWriting hw₂

/-- **A run of successful calls** keeps the locations it returned, one id spent per call. -/
theorem runWrites {calls : List WriteCall} (h : Tracks db locs (calls.length + n))
    {locs' : List (RowLocation × Bytes)} (hr : db.runWrites calls = some (db', locs')) :
    Tracks db' (locs ++ locs') n := by
  induction calls generalizing db locs locs' with
  | nil =>
    obtain ⟨rfl, rfl⟩ := Prod.mk.inj (Option.some.inj hr)
    simpa using h
  | cons c calls ih =>
    rw [List.length_cons, Nat.add_right_comm] at h
    cases c with
    | write key value =>
      simp only [Database.runWrites] at hr
      rcases hw : db.write key value with ⟨_ | loc, db₁⟩
      · simp [hw] at hr
      simp only [hw] at hr
      obtain ⟨r, hr', he⟩ := Option.map_eq_some'.mp hr
      obtain ⟨rfl, rfl⟩ := Prod.mk.inj he
      have := ih (h.writeWithRetry hw) hr'
      rwa [List.append_assoc, List.singleton_append] at this
    | flush =>
      simp only [Database.runWrites] at hr
      rcases hd : db.flushWritingFile with ⟨_ | ⟨⟩, db₁⟩
      · simp [hd] at hr
      simp only [hd] at hr
      exact ih (h.doFlushWritingFile hd) hr

end Tracks

/-! ## Locations read back -/

/-- **Every location a run returned reads back its value, and no two overlap.** From a database
    whose stable map files each storage under its own id and whose writing file reaches its write
    offset, let a run of `write` and `flush_writing_file` calls all return `Ok`, with fewer calls
    than the ids the counter hands out before it comes round to the writing file's id. Then
    `read_value` of each location a `write` of the run returned, with its I/O succeeding, returns
    the value that write wrote, and no two of these locations overlap in one file. -/
theorem runWrites_locations_read_back {calls : List WriteCall}
    (hs : ∀ id s, db.stableStorages.lookup id = some s → s.storageId = id)
    (hw : ∃ f, db.disk.lookup db.writingStorage.storageId = some f ∧
      db.writingStorage.writeOffset ≤ f.bytes.length)
    (hb : (db.fileIdGenerator.fileId - db.writingStorage.storageId).toNat + calls.length < 2 ^ 32)
    (h : db.runWrites calls = some (db', locs)) :
    (∀ p ∈ locs, db'.io.attempt.1 = false → ∃ ts, (db'.readValue p.1).1 = .ok ⟨p.2, ts⟩) ∧
      locs.Pairwise fun p q => Apart p.1 q.1 := by
  have h₀ : Tracks db [] (calls.length + 0) :=
    ⟨hs, hw, nofun, nofun, .nil, hb, nofun⟩
  have ht := h₀.runWrites h
  refine ⟨fun p hp hio => ?_, ht.apart⟩
  obtain ⟨ts, hr⟩ := readValue_of_holds ht.stable_id (ht.holds p hp) hio
  exact ⟨ts, by rw [hr]⟩

set_option maxRecDepth 20000 in
/-- On an empty directory whose files hold one row each: `a ↦ x`, then `b ↦ y`, which rolls over,
    a flush, and `a ↦ z`: three locations in three files, each read back. -/
theorem runWrites_locations_read_back_rollovers :
    ∃ db' locs, (fresh 1 ⟨0, []⟩ ⟨38, 38⟩).runWrites [.write [97] ⟨[120], 0⟩,
        .write [98] ⟨[121], 0⟩, .flush, .write [97] ⟨[122], 0⟩] = some (db', locs) ∧
      locs.map (·.1.fileId) = [1, 2, 3] ∧
      (∀ p ∈ locs, db'.io.attempt.1 = false → ∃ ts, (db'.readValue p.1).1 = .ok ⟨p.2, ts⟩) ∧
      locs.Pairwise fun p q => Apart p.1 q.1 := by
  obtain ⟨r, hr, hl⟩ := Option.map_eq_some'.mp (show ((fresh 1 ⟨0, []⟩ ⟨38, 38⟩).runWrites
    [.write [97] ⟨[120], 0⟩, .write [98] ⟨[121], 0⟩, .flush, .write [97] ⟨[122], 0⟩]).map
      (fun r => r.2.map (·.1.fileId)) = some [1, 2, 3] by decide)
  exact ⟨r.1, r.2, hr, hl, runWrites_locations_read_back Inv.fresh.stable_id
    Inv.fresh.writing_reaches (by decide) hr⟩

end Database

end Bitcask
