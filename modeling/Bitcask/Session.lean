import Bitcask.Database.Invariant
import Bitcask.Facade

set_option autoImplicit false
set_option linter.dupNamespace false

/-! # Sessions and the store they implement

A session opens a directory and makes a sequence of `put`, `delete` and `drop` calls, each of
which holds the keydir's write lock for its whole run and so is one atomic step; `runCalls` runs
them as long as each returns `Ok`. The store such a session implements is a map from keys to
values (`Store`), changed by each call as `Call.apply` says.

`Models bc m` ties a `Bitcask` to the store: the database invariant holds, the database is not
marked broken, and the keydir maps exactly the keys of `m` to locations that read back their
values. It holds after `open` on an empty directory and is kept by every successful call while the
file-id counter stays below `u32::MAX`; a call that does not drop also keeps every row the
database holds (`Database.Keeps`), which is what a `get` that runs concurrently with it needs. -/

namespace Bitcask

/-- A call of a session that changes the store. -/
inductive Call where
  | put (key value : Bytes)
  | delete (key : Bytes)
  | drop
  deriving DecidableEq, Repr

/-- A key-value store: the value of each key, if any. -/
abbrev Store := Bytes → Option Bytes

namespace Call

/-- What a call does to the store. -/
def apply : Call → Store → Store
  | .put key value, m => Function.update m key (some value)
  | .delete key, m => Function.update m key none
  | .drop, _ => fun _ => none

/-- The store after a sequence of calls. -/
def replay (m : Store) (calls : List Call) : Store := calls.foldl (fun m c => c.apply m) m

end Call

/-- What `get` returns for a key of the store: its value, read as absent when it is the
    tombstone's bytes (`is_tombstone` compares the value read back with the sentinel). -/
def Store.get (m : Store) (key : Bytes) : Option Bytes :=
  match m key with
  | some v => if isTombstone v then none else some v
  | none => none

theorem Store.get_eq_some {m : Store} {key v : Bytes} :
    Store.get m key = some v ↔ m key = some v ∧ isTombstone v = false := by
  unfold Store.get
  split <;> simp_all
  exact ⟨fun ⟨h, e⟩ => ⟨e, e ▸ h⟩, fun ⟨e, h⟩ => ⟨e ▸ h, e⟩⟩

namespace Bitcask

/-- One call of a session. -/
def call (bc : Bitcask) : Call → Except BitcaskError Unit × Bitcask
  | .put key value => bc.put key value
  | .delete key => bc.delete key
  | .drop => bc.drop

/-- The calls in order, as long as each returns `Ok`. -/
def runCalls (bc : Bitcask) : List Call → Option Bitcask
  | [] => some bc
  | c :: cs =>
    match bc.call c with
    | (.ok (), bc) => bc.runCalls cs
    | (.error _, _) => none

/-- A session on a directory's files: open, then the calls. -/
def session (disk : Disk) (io : Io) (options : BitcaskOptions) (calls : List Call) :
    Option Bitcask :=
  match Bitcask.open' disk io options with
  | .ok bc => bc.runCalls calls
  | .error _ => none

theorem session_eq_some {disk : Disk} {io : Io} {o : BitcaskOptions} {calls : List Call}
    {bc' : Bitcask} :
    session disk io o calls = some bc' ↔
      ∃ bc, Bitcask.open' disk io o = .ok bc ∧ bc.runCalls calls = some bc' := by
  unfold session
  split <;> simp_all

/-- The store `bc` implements is `m`. -/
structure Models (bc : Bitcask) (m : Store) : Prop where
  inv : bc.database.Inv
  healthy : bc.database.isError = none
  present : ∀ key loc, bc.keydir.get key = some loc →
    key.length < 2 ^ 64 ∧ ∃ v, m key = some v ∧ bc.database.Holds loc v
  absent : ∀ key, bc.keydir.get key = none → m key = none

end Bitcask

/-! ## Opening an empty directory -/

theorem take_fileHeader : fileHeader.take fileHeaderSize = fileHeader := rfl

theorem scanFile_fileHeader (id : FileId) : scanFile id fileHeader = [] := rfl

theorem DatabaseRecoverIter.drain_exhausted (n : Nat) (d : Disk) (o : DataStorageOptions) (io : Io) :
    DatabaseRecoverIter.drain n ⟨some [], [], d, o⟩ io = ([], io) := by
  cases n <;> rfl

/-- `Database::open` on an empty directory creates the first writing file and nothing else. -/
theorem Database.open'_empty {io io' : Io} {gen gen' : FileIdGenerator} {o : DataStorageOptions}
    {db : Database} {d : Disk} (h : Database.open' ∅ io gen o = (.ok db, d, io', gen')) :
    ∃ io₁, db = Database.fresh gen.generateNextFileId.1 io₁ o := by
  simp [Database.open', Database.prepareLoadStorages, Database.openStorages, Database.openEach,
    Database.createWritingStorage, DataStorage.new] at h
  rcases hat : io.attempt with ⟨_ | _, io₁⟩ <;> simp [hat, Database.stableMap] at h
  exact ⟨io₁, h.1.symm⟩

/-- The keydir rebuilt from a database whose only file is an empty writing file is empty. -/
theorem KeyDir.new_fresh {id : FileId} {io io' : Io}
    {o : DataStorageOptions} {kd : KeyDir}
    (h : KeyDir.new (Database.fresh id io o) = (.ok kd, io')) : kd = KeyDir.empty := by
  rcases h₁ : io.attempt with ⟨_ | _, io₁⟩
  · rcases h₂ : io₁.attempt with ⟨_ | _, io₂⟩
    · simp [Database.fresh, KeyDir.new, Database.recoveryIter, Database.heldFileIds, DatabaseRecoverIter.new,
        Database.recoveredIter, DataStorage.open', DataStorage.iter, h₁, h₂, Database.lookup_singleton_self,
        take_fileHeader, scanFile_fileHeader, DatabaseRecoverIter.drain_exhausted,
        KeyDir.rebuild] at h
      exact h.1.symm
    · simp [Database.fresh, KeyDir.new, Database.recoveryIter, Database.heldFileIds, DatabaseRecoverIter.new,
        Database.recoveredIter, DataStorage.open', DataStorage.iter, h₁, h₂, Database.lookup_singleton_self,
        take_fileHeader] at h
  · simp [Database.fresh, KeyDir.new, Database.recoveryIter, Database.heldFileIds, DatabaseRecoverIter.new,
      Database.recoveredIter, DataStorage.open', h₁, Database.lookup_singleton_self] at h

namespace Bitcask

/-- `open` on an empty directory: the empty keydir over a fresh database. -/
theorem open'_empty_eq {io : Io} {o : BitcaskOptions} {bc : Bitcask}
    (h : Bitcask.open' ∅ io o = .ok bc) :
    ∃ io₁ io₂, bc = ⟨KeyDir.empty, o, { Database.fresh FileIdGenerator.new.generateNextFileId.1 io₁
      o.getDatabaseOptions with io := io₂ }⟩ := by
  unfold Bitcask.open' at h
  split at h
  · simp at h
  split at h
  · simp at h
  rename_i db _ hdb
  obtain ⟨io₁, rfl⟩ := Database.open'_empty hdb
  split at h
  · simp at h
  rename_i kd io₂ hkd
  obtain rfl := KeyDir.new_fresh hkd
  exact ⟨io₁, io₂, (Except.ok.inj h).symm⟩

/-- **Opening an empty directory gives the empty store**, with the file-id counter at `1`. -/
theorem open'_empty {io : Io} {o : BitcaskOptions} {bc : Bitcask}
    (h : Bitcask.open' ∅ io o = .ok bc) :
    bc.Models (fun _ => none) ∧ bc.database.fileIdGenerator.fileId = 1 := by
  obtain ⟨io₁, io₂, rfl⟩ := open'_empty_eq h
  refine ⟨⟨Database.Inv.fresh, rfl, ?_, fun _ _ => rfl⟩, rfl⟩
  intro key loc h; simp [KeyDir.get, KeyDir.empty] at h

/-! ## Each call -/

variable {bc bc' : Bitcask} {m : Store}

theorem checkDbError_of_healthy {db : Database} (h : db.isError = none) :
    db.checkDbError = .ok () := by
  simp [Database.checkDbError, h]

/-- What a successful `put` did: both sizes within the limits, and the row, stamped with the
    clock's time, written where the keydir now points. -/
theorem put_ok {key value : Bytes} (h : bc.put key value = (.ok (), bc')) :
    key.length < 2 ^ 64 ∧ value.length < 2 ^ 64 ∧ ∃ loc db',
      bc.database.writeWithRetry (.newWithTimestamp key value bc.database.io.now) = (.ok loc, db') ∧
      bc' = { bc with database := db', keydir := bc.keydir.put key loc } := by
  unfold Bitcask.put at h
  split_ifs at h with hk hv
  · simp at h
  · simp at h
  split at h
  · simp at h
  split at h
  · simp at h
  rename_i loc db' hw
  obtain ⟨-, rfl⟩ := Prod.mk.inj h
  exact ⟨by have := UInt64.toNat_lt_two_pow bc.options.maxKeySize; omega,
    by have := UInt64.toNat_lt_two_pow bc.options.maxValueSize; omega, loc, db', hw, rfl⟩

/-- What a successful `delete` did: for a key in the keydir, the tombstone, stamped with the
    clock's time, written and the key removed; for any other key, nothing. -/
theorem delete_ok {key : Bytes} (h : bc.delete key = (.ok (), bc')) :
    (bc.keydir.containsKey key = true ∧ ∃ loc db',
      bc.database.writeWithRetry (.newWithTimestamp key tombstoneValue bc.database.io.now) =
        (.ok loc, db') ∧
      bc' = { bc with database := db', keydir := bc.keydir.delete key }) ∨
    (bc.keydir.containsKey key = false ∧ bc' = bc) := by
  unfold Bitcask.delete at h
  split at h
  · simp at h
  split_ifs at h with hc
  · split at h
    · simp at h
    rename_i loc db' hw
    obtain ⟨-, rfl⟩ := Prod.mk.inj h
    exact .inl ⟨hc, loc, db', hw, rfl⟩
  · exact .inr ⟨by simpa using hc, (Prod.mk.inj h).2.symm⟩

/-- What a successful `drop` did: the database dropped, and the keydir cleared. -/
theorem drop_ok (h : bc.drop = (.ok (), bc')) :
    ∃ db', bc.database.drop = (.ok (), db') ∧
      bc' = { bc with database := db', keydir := bc.keydir.clear } := by
  unfold Bitcask.drop at h
  split at h
  · simp at h
  rename_i db' hd
  obtain ⟨-, rfl⟩ := Prod.mk.inj h
  exact ⟨db', hd, rfl⟩

theorem Models.put {key value : Bytes} (hm : bc.Models m)
    (hb : bc.database.fileIdGenerator.fileId.toNat + 1 < 2 ^ 32)
    (h : bc.put key value = (.ok (), bc')) :
    bc'.Models (Function.update m key (some value)) ∧
      bc'.database.fileIdGenerator.fileId.toNat ≤ bc.database.fileIdGenerator.fileId.toNat + 1 ∧
      bc.database.Keeps bc'.database := by
  obtain ⟨hk', hv', loc, db', hw, rfl⟩ := put_ok h
  obtain ⟨hi, hkeep, hg, hh⟩ := Database.writeWithRetry_ok_spec hm.inv hb hk' hv' hw
  refine ⟨⟨hi, ?_, ?_, ?_⟩, hg, hkeep⟩
  · exact (congrArg (·.2.isError) hw).symm.trans (Database.writeWithRetry_isError.trans hm.healthy)
  · intro k loc' hget
    by_cases hkk : k = key
    · subst hkk
      obtain rfl : loc = loc' := Option.some.inj ((KeyDir.get_put_self _ _ _).symm.trans hget)
      exact ⟨hk', value, Function.update_same _ _ _, hh⟩
    · obtain ⟨hl, v, hmv, hhv⟩ := hm.present k loc' ((KeyDir.get_put_ne _ _ hkk).symm.trans hget)
      exact ⟨hl, v, (Function.update_noteq hkk _ _).trans hmv, hkeep.holds _ _ hhv⟩
  · intro k hget
    by_cases hkk : k = key
    · subst hkk; exact absurd ((KeyDir.get_put_self _ _ _).symm.trans hget) (by simp)
    · exact (Function.update_noteq hkk _ _).trans
        (hm.absent k ((KeyDir.get_put_ne _ _ hkk).symm.trans hget))

theorem Models.delete {key : Bytes} (hm : bc.Models m)
    (hb : bc.database.fileIdGenerator.fileId.toNat + 1 < 2 ^ 32)
    (h : bc.delete key = (.ok (), bc')) :
    bc'.Models (Function.update m key none) ∧
      bc'.database.fileIdGenerator.fileId.toNat ≤ bc.database.fileIdGenerator.fileId.toNat + 1 ∧
      bc.database.Keeps bc'.database := by
  rcases delete_ok h with ⟨hc, loc, db', hw, rfl⟩ | ⟨hc, rfl⟩
  · obtain ⟨loc₀, hloc₀⟩ := Option.isSome_iff_exists.mp ((KeyDir.containsKey_iff _ _).mp hc)
    obtain ⟨hi, hkeep, hg, -⟩ :=
      Database.writeWithRetry_ok_spec hm.inv hb (hm.present key loc₀ hloc₀).1 (by decide) hw
    refine ⟨⟨hi, ?_, ?_, ?_⟩, hg, hkeep⟩
    · exact (congrArg (·.2.isError) hw).symm.trans (Database.writeWithRetry_isError.trans hm.healthy)
    · intro k loc' hget
      by_cases hkk : k = key
      · subst hkk; exact absurd ((KeyDir.get_delete_self _ _).symm.trans hget) (by simp)
      · obtain ⟨hl, v, hmv, hhv⟩ := hm.present k loc' ((KeyDir.get_delete_ne _ hkk).symm.trans hget)
        exact ⟨hl, v, (Function.update_noteq hkk _ _).trans hmv, hkeep.holds _ _ hhv⟩
    · intro k hget
      by_cases hkk : k = key
      · subst hkk; exact Function.update_same _ _ _
      · exact (Function.update_noteq hkk _ _).trans
          (hm.absent k ((KeyDir.get_delete_ne _ hkk).symm.trans hget))
  · have hnone : bc'.keydir.get key = none := by
      simpa [KeyDir.containsKey_iff] using Bool.eq_false_iff.mp hc
    rw [← hm.absent key hnone, Function.update_eq_self]
    exact ⟨hm, by omega, Database.Keeps.refl _⟩

theorem Models.drop (hm : bc.Models m) (hb : bc.database.fileIdGenerator.fileId.toNat + 1 < 2 ^ 32)
    (h : bc.drop = (.ok (), bc')) :
    bc'.Models (fun _ => none) ∧
      bc'.database.fileIdGenerator.fileId.toNat ≤ bc.database.fileIdGenerator.fileId.toNat + 1 := by
  obtain ⟨db', hd, rfl⟩ := drop_ok h
  obtain ⟨hi, -, hg⟩ := Database.drop_ok_spec hm.inv hb hd
  refine ⟨⟨hi, ?_, fun k loc h => by simp at h, fun _ _ => rfl⟩, hg⟩
  exact (congrArg (·.2.isError) hd).symm.trans (Database.drop_isError.trans hm.healthy)

/-- One successful call keeps the model, moves the counter by at most one, and, unless it drops,
    keeps every row the database holds. -/
theorem Models.call {c : Call} (hm : bc.Models m)
    (hb : bc.database.fileIdGenerator.fileId.toNat + 1 < 2 ^ 32)
    (h : bc.call c = (.ok (), bc')) :
    bc'.Models (c.apply m) ∧
      bc'.database.fileIdGenerator.fileId.toNat ≤ bc.database.fileIdGenerator.fileId.toNat + 1 ∧
      (c ≠ .drop → bc.database.Keeps bc'.database) := by
  cases c with
  | put key value =>
    obtain ⟨hm', hg, hk⟩ := hm.put hb h
    exact ⟨hm', hg, fun _ => hk⟩
  | delete key =>
    obtain ⟨hm', hg, hk⟩ := hm.delete hb h
    exact ⟨hm', hg, fun _ => hk⟩
  | drop =>
    obtain ⟨hm', hg⟩ := hm.drop hb h
    exact ⟨hm', hg, fun h => absurd rfl h⟩

/-- **A run of successful calls keeps the model**, while the counter stays below `u32::MAX`. -/
theorem Models.runCalls {calls : List Call} (hm : bc.Models m)
    (hb : bc.database.fileIdGenerator.fileId.toNat + calls.length < 2 ^ 32)
    (h : bc.runCalls calls = some bc') :
    bc'.Models (Call.replay m calls) ∧
      bc'.database.fileIdGenerator.fileId.toNat ≤
        bc.database.fileIdGenerator.fileId.toNat + calls.length ∧
      ((∀ c ∈ calls, c ≠ .drop) → bc.database.Keeps bc'.database) := by
  induction calls generalizing bc m with
  | nil =>
    obtain rfl := Option.some.inj h
    exact ⟨hm, by simp, fun _ => Database.Keeps.refl _⟩
  | cons c cs ih =>
    simp only [Bitcask.runCalls] at h
    split at h
    · rename_i bc₁ hc
      simp only [List.length_cons] at hb
      obtain ⟨hm₁, hg₁, hk₁⟩ := hm.call (by omega) hc
      obtain ⟨hm', hg', hk'⟩ := ih hm₁ (by omega) h
      refine ⟨hm', by simp only [List.length_cons]; omega, fun hd => ?_⟩
      exact (hk₁ (hd c (.head _))).trans (hk' fun c' hc' => hd c' (.tail _ hc'))
    · simp at h

/-- The options the examples of the following modules run with. -/
def sampleOptions : BitcaskOptions := ⟨1024, 1024, 64, 64⟩

end Bitcask

end Bitcask
