import Bitcask.Errors
import Bitcask.Iteration

set_option autoImplicit false
set_option linter.dupNamespace false

/-! # Merge

`Bitcask::merge` of `bitcask/src/bitcask.rs`. `flush_writing_file` rolls the writing file over and
copies the keydir, under the keydir's write lock. `write_merged_files` opens a second database on
the merge directory with the shared file-id generator, reads the value of every entry of the copy
from the main database and appends each one that is not a tombstone to the merge database, with
a new keydir of the merged locations. `commit_merge_files` moves the merged files into the
database directory; the overlay `put`s every merged entry into the live keydir, under its write
lock; `load_files` adds the merged files to the stable map.

`create_merge_file_dir`, `commit_merge_files`, `load_files` and `purge_outdated_files` are not in
the repository. The first three are modelled from the spec; the purge, which deletes files older
than the merge, is left out, so a merge here ends with `load_files`.

The overlay puts the merged location of every key of the copy, whatever happened to the key
after the copy was taken: a `put` or a `delete` that runs between the copy and the overlay is
undone, and the key reads back its value at the time of the copy. -/

namespace Bitcask

/-! ## The model -/

namespace Database

/-- Modelled from the spec: `load_files` opens each file of the list in the database directory
    and adds it to the stable map. -/
def loadFiles (db : Database) : List FileId → Except BitcaskError Unit × Database
  | [] => (.ok (), db)
  | id :: ids =>
    match DataStorage.open' db.disk db.io id db.options with
    | (.error e, io) => (.error (.storageError e), { db with io := io })
    | (.ok s, io) =>
      loadFiles { db with io := io, stableStorages := db.stableStorages.insert id s } ids

variable {db db' : Database}

/-- `load_files` adds a storage under each id it opens, and changes nothing else the reads
    use. -/
theorem loadFiles_ok {ids : List FileId} (h : db.loadFiles ids = (.ok (), db')) :
    db'.disk = db.disk ∧ db'.writingStorage = db.writingStorage ∧ db'.isError = db.isError ∧
      (∀ id ∈ ids, ∃ s, db'.stableStorages.lookup id = some s ∧ s.storageId = id) ∧
      ∀ id ∉ ids, db'.stableStorages.lookup id = db.stableStorages.lookup id := by
  induction ids generalizing db with
  | nil =>
    obtain rfl := (Prod.mk.inj h).2.symm
    simp
  | cons id ids ih =>
    unfold loadFiles at h
    split at h
    · simp at h
    rename_i s io hs
    obtain ⟨f, -, -, rfl⟩ := DataStorage.open'_ok hs
    obtain ⟨hd, hw, he, hin, hout⟩ := ih h
    refine ⟨hd, hw, he, ?_, ?_⟩
    · simp only [List.mem_cons, forall_eq_or_imp]
      refine ⟨?_, hin⟩
      by_cases hid : id ∈ ids
      · exact hin id hid
      · exact ⟨_, (hout id hid).trans (AList.lookup_insert _), rfl⟩
    · intro id' hid'
      simp only [List.mem_cons, not_or] at hid'
      exact (hout id' hid'.2).trans (AList.lookup_insert_ne hid'.1)

end Database

namespace Bitcask

/-- `Bitcask::flush_writing_file`, under the keydir's write lock: roll the writing file over,
    then copy the keydir and read the new writing file's id (`get_max_file_id`). -/
def flushWritingFile (bc : Bitcask) : Except BitcaskError (KeyDir × FileId) × Bitcask :=
  match bc.database.flushWritingFile with
  | (.error e, db) => (.error e, { bc with database := db })
  | (.ok (), db) => (.ok (bc.keydir, db.getMaxFileId), { bc with database := db })

/-- The loop of `write_merged_files` over the keydir copy: read the entry's value from the main
    database, skip a tombstone, append any other value to the merge database with the row's
    timestamp, and record the new location with `checked_put`. The two databases draw on one I/O
    environment, carried by the merge database. -/
def writeMergedRows (main : Database) :
    List (Bytes × RowLocation) → Database → KeyDir → Except BitcaskError KeyDir × Database
  | [], mdb, newKd => (.ok newKd, mdb)
  | (key, loc) :: rest, mdb, newKd =>
    match ({ main with io := mdb.io } : Database).readValue loc with
    | (.error e, io) => (.error e, { mdb with io := io })
    | (.ok v, io) =>
      if isTombstone v.value then writeMergedRows main rest { mdb with io := io } newKd
      else
        match ({ mdb with io := io } : Database).writeWithTimestamp key v.value v.timestamp with
        | (.error e, mdb) => (.error e, mdb)
        | (.ok pos, mdb) => writeMergedRows main rest mdb (newKd.checkedPut key pos)

/-- The main store once the merge database has moved the shared generator and the I/O
    environment on. -/
def withMergeEnv (bc : Bitcask) (mdb : Database) : Bitcask :=
  { bc with database := { bc.database with io := mdb.io, fileIdGenerator := mdb.fileIdGenerator } }

/-- `write_merged_files`: open a database on the empty merge directory (`create_merge_file_dir`
    makes it, modelled from the spec) with the shared generator, rewrite the entries of the copy,
    flush the merge database's writing file. The merge database returned stands for the merge
    directory; its file ids are what `get_file_ids` returns. -/
def writeMergedFiles (bc : Bitcask) (kd : KeyDir) :
    Except BitcaskError (KeyDir × Database) × Bitcask :=
  match Database.open' ∅ bc.database.io bc.database.fileIdGenerator
      bc.options.getDatabaseOptions with
  | (.error e, _, io, gen) =>
    (.error e, { bc with database := { bc.database with io := io, fileIdGenerator := gen } })
  | (.ok mdb, _, _, _) =>
    match writeMergedRows bc.database kd.iter mdb KeyDir.empty with
    | (.error e, mdb) => (.error e, bc.withMergeEnv mdb)
    | (.ok newKd, mdb) =>
      match mdb.flushWritingFile with
      | (.error e, mdb) => (.error e, bc.withMergeEnv mdb)
      | (.ok (), mdb) => (.ok (newKd, mdb), bc.withMergeEnv mdb)

/-- Modelled from the spec: `commit_merge_files` moves the merge directory's files into the
    database directory. -/
def commitMergeFiles (bc : Bitcask) (mergeFiles : Disk) : Bitcask :=
  { bc with database := { bc.database with disk := mergeFiles ∪ bc.database.disk } }

/-- The overlay of `merge`, under the keydir's write lock: `put` every merged entry. -/
def overlayMergedKeyDir (bc : Bitcask) (newKd : KeyDir) : Bitcask :=
  { bc with keydir := newKd.iter.foldl (fun kd e => kd.put e.1 e.2) bc.keydir }

/-- The steps of `merge` before any other call can see its effect: `flush_writing_file` and
    `write_merged_files`. -/
def prepareMerge (bc : Bitcask) : Except BitcaskError (KeyDir × Database) × Bitcask :=
  match bc.flushWritingFile with
  | (.error e, bc) => (.error e, bc)
  | (.ok (kd, _), bc) => bc.writeMergedFiles kd

/-- The steps of `merge` after `write_merged_files`: commit, overlay, `load_files` of the ids
    `get_file_ids` gave. -/
def finishMerge (bc : Bitcask) (newKd : KeyDir) (mdb : Database) :
    Except BitcaskError Unit × Bitcask :=
  let bc := (bc.commitMergeFiles mdb.disk).overlayMergedKeyDir newKd
  match bc.database.loadFiles (mdb.getFileIds.1 ++ [mdb.getFileIds.2]) with
  | (r, db) => (r, { bc with database := db })

/-- `Bitcask::merge`, its steps one after the other. -/
def merge (bc : Bitcask) : Except BitcaskError Unit × Bitcask :=
  match bc.prepareMerge with
  | (.error e, bc) => (.error e, bc)
  | (.ok (newKd, mdb), bc) => bc.finishMerge newKd mdb

/-- `merge` with the calls of other threads run between `write_merged_files` and the commit. -/
def mergeAcross (bc : Bitcask) (calls : List Call) : Option (Except BitcaskError Unit × Bitcask) :=
  match bc.prepareMerge with
  | (.error e, bc) => some (.error e, bc)
  | (.ok (newKd, mdb), bc) => (bc.runCalls calls).map fun bc => bc.finishMerge newKd mdb

/-- With no other call, the interleaved merge is `merge`. -/
theorem mergeAcross_nil (bc : Bitcask) : bc.mergeAcross [] = some bc.merge := by
  unfold mergeAcross merge
  split <;> rfl

/-! ## The steps of a merge -/

variable {bc bc₁ bc' : Bitcask} {m : Store}

/-- The copy `flush_writing_file` takes is the keydir, and the store still implements `m`. -/
theorem Models.flushWritingFile_ok {kd : KeyDir} {known : FileId} (hm : bc.Models m)
    (hb : bc.database.fileIdGenerator.fileId.toNat + 1 < 2 ^ 32)
    (h : bc.flushWritingFile = (.ok (kd, known), bc₁)) :
    bc₁.Models m ∧ kd = bc.keydir ∧ bc₁.keydir = bc.keydir ∧
      bc₁.database.fileIdGenerator.fileId.toNat ≤ bc.database.fileIdGenerator.fileId.toNat + 1 := by
  unfold flushWritingFile at h
  split at h
  · simp at h
  rename_i db hf
  simp only [Prod.mk.injEq, Except.ok.injEq] at h
  obtain ⟨⟨rfl, -⟩, rfl⟩ := h
  obtain ⟨hi, hk, hg⟩ := Database.doFlushWritingFile_ok_spec hm.inv hb hf
  refine ⟨⟨hi, ?_, fun k loc hl => ?_, hm.absent⟩, rfl, rfl, hg⟩
  · exact (congrArg (·.2.isError) hf).symm.trans (Database.doFlushWritingFile_isError.trans hm.healthy)
  · obtain ⟨hk', v, hv, hh⟩ := hm.present k loc hl
    exact ⟨hk', v, hv, hk.holds _ _ hh⟩

/-- The pairs `write_merged_files` rewrites from the entries `es` of a keydir copy of a store
    implementing `m`: each entry's key with its value in `m`, when that value is live. -/
def livePairs (m : Store) (es : List (Bytes × RowLocation)) : List (Bytes × Bytes) :=
  es.filterMap fun e => (Store.get m e.1).map fun v => (e.1, v)

/-- **The loop of `write_merged_files`.** Every entry it records points at a merged row of the
    entry's value in `m`, every key of the copy whose value in `m` is live is recorded, and the
    merge files gain the rows of `livePairs`. -/
theorem writeMergedRows_ok {main mdb mdb' : Database} {es : List (Bytes × RowLocation)}
    {newKd newKd' : KeyDir} {log : List (Bytes × Bytes)} (hmain : main.Inv)
    (hes : ∀ e ∈ es, e.1.length < 2 ^ 64 ∧ ∃ v, m e.1 = some v ∧ main.Holds e.2 v)
    (hi : mdb.Inv) (hb : mdb.fileIdGenerator.fileId.toNat + es.length < 2 ^ 32)
    (hkd : ∀ k loc, newKd.get k = some loc → ∃ v, Store.get m k = some v ∧ mdb.Holds loc v)
    (hl : mdb.Logs log) (h : writeMergedRows main es mdb newKd = (.ok newKd', mdb')) :
    mdb'.Inv ∧ mdb'.fileIdGenerator.fileId.toNat ≤ mdb.fileIdGenerator.fileId.toNat + es.length ∧
      (∀ k loc, newKd'.get k = some loc → ∃ v, Store.get m k = some v ∧ mdb'.Holds loc v) ∧
      (∀ k, ((newKd.get k).isSome ∨ (∃ loc, (k, loc) ∈ es) ∧ (Store.get m k).isSome) →
        (newKd'.get k).isSome) ∧ mdb'.Logs (log ++ livePairs m es) := by
  induction es generalizing mdb newKd log with
  | nil =>
    simp only [writeMergedRows, Prod.mk.injEq, Except.ok.injEq] at h
    obtain ⟨rfl, rfl⟩ := h
    exact ⟨hi, by simp, hkd, fun k hk => by simpa using hk, by simpa [livePairs] using hl⟩
  | cons e es ih =>
    obtain ⟨key, loc⟩ := e
    obtain ⟨hkey, v, hmv, hh⟩ := hes _ (.head _)
    have hes' := fun e he => hes e (.tail _ he)
    simp only [List.length_cons] at hb
    unfold writeMergedRows at h
    split at h
    · simp at h
    rename_i tv io hr
    have htv : tv.value = v := Database.readValue_ok_of_holds (hmain.withIo mdb.io) hh
      (by rw [hr])
    split_ifs at h with ht
    · -- a tombstone is skipped
      have hdead : Store.get m key = none := by simp [Store.get, hmv, ← htv, ht]
      obtain ⟨hi', hg, hkd', hlive, hl'⟩ :=
        ih hes' (hi.withIo io) (by dsimp only; omega) hkd (hl.withIo io) h
      dsimp only at hg
      refine ⟨hi', by simp only [List.length_cons]; omega, hkd', fun k hk => ?_,
        by simpa [livePairs, hdead] using hl'⟩
      refine hlive k (hk.imp id fun ⟨⟨l, hl⟩, hs⟩ => ⟨⟨l, ?_⟩, hs⟩)
      rcases List.mem_cons.mp hl with he | he
      · obtain rfl := (Prod.mk.inj he).1
        simp [hdead] at hs
      · exact he
    · -- any other value is appended and recorded
      split at h
      · simp at h
      rename_i pos mdb₁ hw
      have hvlen : tv.value.length < 2 ^ 64 := by
        obtain ⟨-, f, r, -, -, hdec, hrv⟩ := hh
        rw [htv, ← hrv]
        exact decodeRow_value_length hdec
      obtain ⟨hi₁, hk₁, hg₁, hh₁⟩ :=
        Database.writeWithRetry_ok_spec (hi.withIo io) (by dsimp only; omega) hkey hvlen hw
      dsimp only at hg₁
      have hlive : Store.get m key = some v := by simp [Store.get, hmv, ← htv, ht]
      have hkd₁ (k : Bytes) (l : RowLocation) (hl : (newKd.checkedPut key pos).get k = some l) :
          ∃ v, Store.get m k = some v ∧ mdb₁.Holds l v := by
        rcases KeyDir.get_checkedPut_eq hl with hl | ⟨rfl, rfl⟩
        · obtain ⟨v', hv', hh'⟩ := hkd k l hl
          exact ⟨v', hv', hk₁.holds _ _ hh'⟩
        · exact ⟨v, hlive, htv ▸ hh₁⟩
      have hl₁ := (hl.withIo io).writeWithRetry (r := ⟨key, tv.value, tv.timestamp⟩)
        (hi.withIo io) (by dsimp only; omega) ⟨hkey, hvlen⟩ hw
      obtain ⟨hi', hg, hkd', hlive', hl'⟩ := ih hes' hi₁ (by omega) hkd₁ hl₁ h
      refine ⟨hi', by simp only [List.length_cons]; omega, hkd', fun k hk => hlive' k ?_,
        by simpa [livePairs, hlive, htv] using hl'⟩
      rcases hk with hk | ⟨⟨l, hl⟩, hs⟩
      · exact .inl (Option.isSome_iff_exists.mpr
          ⟨_, KeyDir.get_checkedPut_of_some (Option.get_mem hk)⟩)
      · rcases List.mem_cons.mp hl with he | he
        · obtain rfl := (Prod.mk.inj he).1
          exact .inl (KeyDir.get_checkedPut_self _ _ _)
        · exact .inr ⟨⟨l, he⟩, hs⟩

/-- **`write_merged_files` on the keydir's copy.** The new keydir points every key whose value in
    `m` is live at a merged row of that value, and has no other key; the merge files hold the rows
    of `livePairs` of the copy. -/
theorem writeMergedFiles_spec {newKd : KeyDir} {mdb : Database} (hm : bc.Models m)
    (hb : bc.database.fileIdGenerator.fileId.toNat + bc.keydir.len + 2 < 2 ^ 32)
    (h : bc.writeMergedFiles bc.keydir = (.ok (newKd, mdb), bc')) :
    bc' = bc.withMergeEnv mdb ∧
      (∀ k loc, newKd.get k = some loc → ∃ v, Store.get m k = some v ∧ mdb.Holds loc v) ∧
      (∀ k, (Store.get m k).isSome → (newKd.get k).isSome) ∧
      mdb.Logs (livePairs m bc.keydir.iter) := by
  unfold writeMergedFiles at h
  split at h
  · simp at h
  rename_i mdb₀ d io gen hopen
  obtain ⟨io₁, rfl⟩ := Database.open'_empty hopen
  have hg₀ := FileIdGenerator.generateNextFileId_toNat_of_lt bc.database.fileIdGenerator (by omega)
  split at h
  · simp at h
  rename_i newKd₁ mdb₁ hrows
  have hes (e) (he : e ∈ bc.keydir.iter) :
      e.1.length < 2 ^ 64 ∧ ∃ v, m e.1 = some v ∧ bc.database.Holds e.2 v :=
    hm.present e.1 e.2 (KeyDir.mem_iter.mp he)
  obtain ⟨hi₁, hg₁, hkd₁, hlive₁, hl₁⟩ := writeMergedRows_ok hm.inv hes Database.Inv.fresh
    (by simp only [Database.fresh, KeyDir.iter_length]; omega)
    (fun k l hl => by simp [KeyDir.get, KeyDir.empty] at hl) ⟨[], [], Database.Logged.fresh, rfl⟩ hrows
  split at h
  · simp at h
  rename_i mdb₂ hflush
  simp only [Prod.mk.injEq, Except.ok.injEq] at h
  obtain ⟨⟨rfl, rfl⟩, rfl⟩ := h
  simp only [Database.fresh, KeyDir.iter_length] at hg₁
  obtain ⟨-, hk₂, -⟩ := Database.doFlushWritingFile_ok_spec hi₁ (by omega) hflush
  refine ⟨rfl, fun k l hl => ?_, fun k hk => hlive₁ k (.inr ⟨?_, hk⟩),
    by simpa using hl₁.doFlushWritingFile hi₁ (by omega) hflush⟩
  · obtain ⟨v, hv, hh⟩ := hkd₁ k l hl
    exact ⟨v, hv, hk₂.holds _ _ hh⟩
  · obtain ⟨l, hl⟩ := Option.ne_none_iff_exists'.mp fun hn : bc.keydir.get k = none => by
      simp [Store.get, hm.absent k hn] at hk
    exact ⟨l, KeyDir.mem_iter.mpr hl⟩

theorem writeMergedFiles_ok {newKd : KeyDir} {mdb : Database} (hm : bc.Models m)
    (hb : bc.database.fileIdGenerator.fileId.toNat + bc.keydir.len + 2 < 2 ^ 32)
    (h : bc.writeMergedFiles bc.keydir = (.ok (newKd, mdb), bc')) :
    bc' = bc.withMergeEnv mdb ∧
      (∀ k loc, newKd.get k = some loc → ∃ v, Store.get m k = some v ∧ mdb.Holds loc v) ∧
      ∀ k, (Store.get m k).isSome → (newKd.get k).isSome :=
  let ⟨he, hkd, hlive, _⟩ := writeMergedFiles_spec hm hb h
  ⟨he, hkd, hlive⟩

/-- A call that returns `Ok` leaves the sticky error as it was. -/
theorem call_isError {c : Call} (h : bc.call c = (.ok (), bc')) :
    bc'.database.isError = bc.database.isError := by
  cases c with
  | put key value =>
    obtain ⟨-, -, loc, db', hw, rfl⟩ := put_ok h
    exact (congrArg (·.2.isError) hw).symm.trans Database.writeWithRetry_isError
  | delete key =>
    obtain rfl := congrArg Prod.snd h
    exact delete_isError bc key
  | drop =>
    obtain ⟨db', hd, rfl⟩ := drop_ok h
    exact (congrArg (·.2.isError) hd).symm.trans Database.drop_isError

theorem runCalls_isError {calls : List Call} (h : bc.runCalls calls = some bc') :
    bc'.database.isError = bc.database.isError := by
  induction calls generalizing bc with
  | nil => obtain rfl := Option.some.inj h; rfl
  | cons c cs ih =>
    simp only [runCalls] at h
    split at h
    · rename_i bc₁ hc
      exact (ih h).trans (call_isError hc)
    · simp at h

/-- The ids `get_file_ids` gives name every file the database serves. -/
theorem mem_getFileIds_of_serves {db : Database} {id : FileId} (h : db.Serves id) :
    id ∈ db.getFileIds.1 ++ [db.getFileIds.2] := by
  rcases h with h | h
  · simp [Database.getFileIds, h]
  · simp [Database.getFileIds, AList.mem_keys.mp h]

/-! ## Merge and the calls it runs with -/

/-- **Merge undoes the calls that run between its copy of the keydir and its overlay.** From a
    store that implements `m`, a merge that succeeds, with any calls of other threads run between
    `write_merged_files` and the commit, leaves every key whose value in `m` is live reading that
    value, whatever the calls did to the key. -/
theorem merge_reverts_concurrent_calls {calls : List Call} (hm : bc.Models m)
    (hb : bc.database.fileIdGenerator.fileId.toNat + bc.keydir.len + 3 < 2 ^ 32)
    (h : bc.mergeAcross calls = some (.ok (), bc')) (hio : bc'.database.io.attempt.1 = false)
    {key v : Bytes} (hv : Store.get m key = some v) :
    (bc'.get key).1 = .ok (some v) := by
  unfold mergeAcross at h
  rcases hp : bc.prepareMerge with ⟨_ | ⟨newKd, mdb⟩, bc₂⟩
  · simp [hp] at h
  rw [hp] at h
  obtain ⟨bc₃, hcalls, hfin⟩ := Option.map_eq_some'.mp h
  -- the copy and the merged rows
  unfold prepareMerge at hp
  rcases hs : bc.flushWritingFile with ⟨_ | ⟨kd, known⟩, bc₁⟩
  · simp [hs] at hp
  rw [hs] at hp
  obtain ⟨hm₁, rfl, hkd₁, hg₁⟩ := Models.flushWritingFile_ok hm (by omega) hs
  rw [← hkd₁] at hp
  obtain ⟨rfl, hkd, hlive⟩ := writeMergedFiles_ok hm₁ (by rw [hkd₁]; omega) hp
  obtain ⟨loc, hloc⟩ := Option.isSome_iff_exists.mp (hlive key (by simp [hv]))
  obtain ⟨v', hv', hserv, f, r, hf, hlen, hdec, hrv⟩ := hkd key loc hloc
  obtain rfl : v' = v := Option.some.inj (hv'.symm.trans hv)
  -- commit, overlay and `load_files`
  rcases hl : ((bc₃.commitMergeFiles mdb.disk).overlayMergedKeyDir newKd).database.loadFiles
    (mdb.getFileIds.1 ++ [mdb.getFileIds.2]) with ⟨r₄, db₄⟩
  simp only [finishMerge, hl, Prod.mk.injEq] at hfin
  obtain ⟨rfl, rfl⟩ := hfin
  obtain ⟨hd, -, he, hin, -⟩ := Database.loadFiles_ok hl
  have hf₄ : db₄.disk.lookup loc.fileId = some f := by
    rw [hd]
    exact (AList.lookup_union_left (AList.lookup_isSome.mp (by simp [hf]))).trans hf
  have hread := Database.readValue_of_file hf₄ hlen hdec
    (.inr (hin _ (mem_getFileIds_of_serves hserv))) hio
  have hok : db₄.isError = none :=
    he.trans ((runCalls_isError hcalls).trans hm₁.healthy)
  have hget : (newKd.iter.foldl (fun kd e => kd.put e.1 e.2) bc₃.keydir).get key = some loc := by
    rw [KeyDir.get_overlay, hloc]
    rfl
  simp only [get, getLookup, checkDbError_of_healthy hok]
  simp only [overlayMergedKeyDir, commitMergeFiles, hget, hread, Except.map, valueOf, hrv,
    (Store.get_eq_some.mp hv).2]
  rfl

set_option maxRecDepth 20000 in
/-- A store of `a ↦ x` and `b ↦ y`, merged while another thread puts `a ↦ z`. -/
theorem merge_reverts_concurrent_calls_put :
    ∃ bc bc', session ∅ ⟨0, []⟩ sampleOptions [.put [97] [120], .put [98] [121]] = some bc ∧
      bc.mergeAcross [.put [97] [122]] = some (.ok (), bc') ∧
      (bc'.get [97]).1 = .ok (some [120]) := by
  obtain ⟨bc, hs, hres⟩ := Option.map_eq_some'.mp (show (session ∅ ⟨0, []⟩ sampleOptions
      [.put [97] [120], .put [98] [121]]).map (fun bc =>
        (decide (bc.database.fileIdGenerator.fileId.toNat + bc.keydir.len + 3 < 2 ^ 32),
          (bc.mergeAcross [.put [97] [122]]).map fun r => (r.1, r.2.database.io.attempt.1))) =
      some (true, some (.ok (), false)) by decide)
  simp only [Prod.mk.injEq] at hres
  obtain ⟨hb, hres⟩ := hres
  obtain ⟨⟨r, bc'⟩, hmerge, hr⟩ := Option.map_eq_some'.mp hres
  simp only [Prod.mk.injEq] at hr
  obtain ⟨rfl, hio⟩ := hr
  obtain ⟨bc₀, h₀, h₁⟩ := session_eq_some.mp hs
  obtain ⟨hm₀, hg₀⟩ := open'_empty h₀
  obtain ⟨hm, -, -⟩ := hm₀.runCalls (by rw [hg₀]; decide) h₁
  exact ⟨bc, bc', hs, hmerge,
    merge_reverts_concurrent_calls hm (of_decide_eq_true hb) hmerge hio (by decide)⟩

set_option maxRecDepth 20000 in
/-- `a ↦ x` and `b ↦ y`, merged while another thread puts `a ↦ z`, and again while it deletes
    `a`: once the merge has finished, `a` reads `x` in both runs. -/
theorem merge_undoes_put_and_delete :
    (session ∅ ⟨0, []⟩ sampleOptions [.put [97] [120], .put [98] [121]]).map
        (fun bc => (bc.mergeAcross [.put [97] [122]]).map fun r => (r.1, (r.2.get [97]).1)) =
      some (some (.ok (), .ok (some [120]))) ∧
    (session ∅ ⟨0, []⟩ sampleOptions [.put [97] [120], .put [98] [121]]).map
        (fun bc => (bc.mergeAcross [.delete [97]]).map fun r => (r.1, (r.2.get [97]).1)) =
      some (some (.ok (), .ok (some [120]))) :=
  ⟨by decide, by decide⟩

/-! ## What the merge files hold -/

/-- The pairs to rewrite are the live bindings of the store. -/
theorem mem_livePairs (hm : bc.Models m) {key v : Bytes} :
    (key, v) ∈ livePairs m bc.keydir.iter ↔ Store.get m key = some v := by
  simp only [livePairs, List.mem_filterMap, Option.map_eq_some', Prod.mk.injEq]
  constructor
  · rintro ⟨e, -, v', hv', rfl, rfl⟩
    exact hv'
  · intro hv
    obtain ⟨loc, hloc⟩ := Option.ne_none_iff_exists'.mp fun hn : bc.keydir.get key = none => by
      simp [Store.get, hm.absent key hn] at hv
    exact ⟨(key, loc), KeyDir.mem_iter.mpr hloc, v, hv, rfl, rfl⟩

theorem livePairs_keys_sublist (m : Store) (es : List (Bytes × RowLocation)) :
    ((livePairs m es).map Prod.fst).Sublist (es.map Prod.fst) := by
  induction es with
  | nil => exact .slnil
  | cons e es ih =>
    cases h : Store.get m e.1 with
    | none => simpa [livePairs, h] using ih.cons e.1
    | some v => simpa [livePairs, h] using ih.cons₂ e.1

/-- **A merge rewrites exactly the live pairs.** From a store implementing `m`, the steps of a
    merge before its commit (`flush_writing_file` and `write_merged_files`), when they succeed with
    the counter below `u32::MAX`, leave merge files from which `Database::iter`, storage I/O
    succeeding, yields one row for each key whose value in `m` is live, with that value, and no
    other row: no tombstone, no superseded value, no key twice. -/
theorem merge_rewrites_live_pairs {newKd : KeyDir} {mdb : Database} (hm : bc.Models m)
    (hb : bc.database.fileIdGenerator.fileId.toNat + bc.keydir.len + 3 < 2 ^ 32)
    (h : bc.prepareMerge = (.ok (newKd, mdb), bc')) (hio : mdb.io.faults = []) :
    ∃ it, mdb.iter.1 = .ok it ∧ ((it.drain it.size).map RowToRead.key).Nodup ∧
      ∀ key v, (key, v) ∈ (it.drain it.size).map RowToRead.pair ↔ Store.get m key = some v := by
  unfold prepareMerge at h
  rcases hs : bc.flushWritingFile with ⟨_ | ⟨kd, known⟩, bc₁⟩
  · simp [hs] at h
  rw [hs] at h
  obtain ⟨hm₁, rfl, hkd₁, hg₁⟩ := Models.flushWritingFile_ok hm (by omega) hs
  rw [← hkd₁] at h
  obtain ⟨-, -, -, stable, writing, hl, hpairs⟩ :=
    writeMergedFiles_spec hm₁ (by rw [hkd₁]; omega) h
  obtain ⟨it, hit, hdrain⟩ := Database.iter_of_nil hio hl.stable_keys hl.ascending fun id hid =>
    hl.readable id ((hl.stable_keys.append_right _).subset hid)
  have hrows : (it.drain it.size).map RowToRead.pair = livePairs m bc₁.keydir.iter := by
    rw [hdrain, hl.fileRows_pair, hpairs]
  have hkeys : (it.drain it.size).map RowToRead.key = (livePairs m bc₁.keydir.iter).map Prod.fst := by
    rw [← hrows, List.map_map]; rfl
  refine ⟨it, hit, ?_, fun key v => by rw [hrows]; exact mem_livePairs hm₁⟩
  rw [hkeys]
  exact (livePairs_keys_sublist m _).nodup bc₁.keydir.iter_keys_nodup

set_option maxRecDepth 20000 in
/-- `put(a, x)`, `put(a, y)`, then the steps of a merge. -/
theorem merge_rewrites_live_pairs_sample :
    ∃ bc newKd mdb bc', session ∅ ⟨0, []⟩ sampleOptions
        [.put [97] [120], .put [97] [121]] = some bc ∧
      bc.prepareMerge = (.ok (newKd, mdb), bc') ∧
      ∃ it, mdb.iter.1 = .ok it ∧ ((it.drain it.size).map RowToRead.key).Nodup ∧
        ∀ key v, (key, v) ∈ (it.drain it.size).map RowToRead.pair ↔
          Store.get (Call.replay (fun _ => none)
            [.put [97] [120], .put [97] [121]]) key = some v := by
  obtain ⟨bc, hs, hres⟩ := Option.map_eq_some'.mp (show (session ∅ ⟨0, []⟩ sampleOptions
      [.put [97] [120], .put [97] [121]]).map (fun bc =>
        (decide (bc.database.fileIdGenerator.fileId.toNat + bc.keydir.len + 3 < 2 ^ 32),
          match bc.prepareMerge with
          | (.ok (_, mdb), _) => decide (mdb.io.faults = [])
          | (.error _, _) => false)) =
      some (true, true) by decide)
  simp only [Prod.mk.injEq] at hres
  obtain ⟨hb, hres⟩ := hres
  rcases hp : bc.prepareMerge with ⟨_ | ⟨newKd, mdb⟩, bc'⟩
  · simp [hp] at hres
  simp only [hp] at hres
  obtain ⟨bc₀, h₀, h₁⟩ := session_eq_some.mp hs
  obtain ⟨hm₀, hg₀⟩ := open'_empty h₀
  obtain ⟨hm, -, -⟩ := hm₀.runCalls (by rw [hg₀]; decide) h₁
  exact ⟨bc, newKd, mdb, bc', hs, hp,
    merge_rewrites_live_pairs hm (of_decide_eq_true hb) hp (of_decide_eq_true hres)⟩

end Bitcask

end Bitcask
