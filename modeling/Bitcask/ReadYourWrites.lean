import Bitcask.Session

set_option autoImplicit false
set_option linter.dupNamespace false

/-! # Read-your-writes

A session that opens an empty directory and makes successful `put`, `delete` and `drop` calls
implements the store `Call.replay (fun _ => none) calls`. A `get` linearized after those calls
(its keydir read) sees that store even when other `put` and `delete` calls, with any rollovers,
run between the keydir read and the two steps of `read_value`: every row the keydir pointed to
is still held by the database, and a file that has left the writing slot is already in the stable
map. `has` reports exactly the keys of the store.

What `get` returns for a key is `Store.get`: a value equal to the tombstone's bytes is stored and
reported by `has`, but read back as absent. -/

namespace Bitcask

namespace Bitcask

/-- **`get` and `has` see the store of the calls linearized before them.** The keydir read of
    `get` is on `s₁`, reached by `calls₁` from the opening of an empty directory; its look at the
    writing file is on `s₂` and its look at the stable map on `s₃`, after concurrent `put` and
    `delete` calls. The counter bound keeps the file ids from wrapping. -/
theorem get_has_read_your_writes {io : Io} {o : BitcaskOptions} {s₁ s₂ s₃ : Bitcask}
    {calls₁ calls₂ calls₃ : List Call} (key : Bytes)
    (h₁ : session ∅ io o calls₁ = some s₁) (h₂ : s₁.runCalls calls₂ = some s₂)
    (h₃ : s₂.runCalls calls₃ = some s₃)
    (hconc : ∀ c ∈ calls₂ ++ calls₃, c ≠ .drop)
    (hb : calls₁.length + calls₂.length + calls₃.length + 1 < 2 ^ 32)
    (hio₂ : s₂.database.io.attempt.1 = false) (hio₃ : s₃.database.io.attempt.1 = false) :
    getAcross s₁ s₂ s₃ key = .ok (Store.get (Call.replay (fun _ => none) calls₁) key) ∧
      s₁.has key = .ok (Call.replay (fun _ => none) calls₁ key).isSome := by
  obtain ⟨bc₀, h₀, h₁⟩ := session_eq_some.mp h₁
  obtain ⟨hm₀, hg₀⟩ := open'_empty h₀
  have hg₀' : bc₀.database.fileIdGenerator.fileId.toNat = 1 := by rw [hg₀]; rfl
  obtain ⟨hm₁, hg₁, -⟩ := hm₀.runCalls (by omega) h₁
  obtain ⟨hm₂, hg₂, hk₂⟩ := hm₁.runCalls (by omega) h₂
  obtain ⟨hm₃, -, hk₃⟩ := hm₂.runCalls (by omega) h₃
  replace hk₂ := hk₂ fun c hc => hconc c (List.mem_append_left _ hc)
  replace hk₃ := hk₃ fun c hc => hconc c (List.mem_append_right _ hc)
  constructor
  · unfold getAcross getLookup
    rw [checkDbError_of_healthy hm₁.healthy]
    rcases hget : s₁.keydir.get key with _ | loc
    · simp [Store.get, hm₁.absent key hget]
    obtain ⟨-, v, hmv, hh⟩ := hm₁.present key loc hget
    have hh₂ := hk₂.holds _ _ hh
    by_cases hw : loc.fileId = s₂.database.writingStorage.storageId
    · obtain ⟨ts, hr⟩ := Database.readValueWriting_of_holds hh₂ hw hio₂
      simp [hr, Store.get, hmv, valueOf, Except.map]
    · -- the file left the writing slot before `s₂`, so it is in the stable map from `s₂` on
      have hs := hk₃.stable _ (hh₂.1.resolve_left hw)
      have hw₃ : loc.fileId ≠ s₃.database.writingStorage.storageId := fun e =>
        lt_irrefl _ (e ▸ hm₃.inv.stable_lt _ hs)
      obtain ⟨ts, hr⟩ := Database.readValueStable_of_holds hm₃.inv.stable_id (hk₃.holds _ _ hh₂) hw₃ hio₃
      simp [Database.readValueWriting_of_ne hw, hr, Store.get, hmv, valueOf, Except.map]
  · simp only [has, checkDbError_of_healthy hm₁.healthy]
    rcases hget : s₁.keydir.get key with _ | loc
    · simp [hm₁.absent key hget]
    · obtain ⟨-, v, hmv, -⟩ := hm₁.present key loc hget
      simp [hmv]

set_option maxRecDepth 20000 in
/-- A session of one `put`, read back on one state. -/
theorem get_has_read_your_writes_one_put :
    ∃ s, session ∅ ⟨0, []⟩ sampleOptions [.put [97] [120]] = some s ∧
      getAcross s s s [97] = .ok (some [120]) ∧ s.has [97] = .ok true := by
  obtain ⟨s, hs, hio⟩ := Option.map_eq_some'.mp (show (session ∅ ⟨0, []⟩ sampleOptions
    [.put [97] [120]]).map (·.database.io.attempt.1) = some false by decide)
  have h := get_has_read_your_writes [97] hs (show s.runCalls [] = some s from rfl)
    (show s.runCalls [] = some s from rfl) (by simp)
    (by decide) hio hio
  exact ⟨s, hs, h.1.trans (by decide), h.2.trans (by decide)⟩

set_option maxRecDepth 20000 in
/-- A value equal to the tombstone's bytes: the `put` succeeds, `has` reports the key, and `get`
    reads it as absent. -/
theorem put_tombstone_value_reads_absent :
    (Bitcask.session ∅ ⟨0, []⟩ sampleOptions [.put [97] tombstoneValue]).map
      (fun bc => ((bc.get [97]).1, bc.has [97])) = some (.ok none, .ok true) := by
  decide

/-! ## A `drop` between the steps of `get` -/

variable {bc bc' : Bitcask} {m : Store}

/-- After a `drop`, a location the keydir held is in no file the database serves: the writing
    file has moved on to a fresh id if it held any row, and the stable map is empty. -/
theorem Models.drop_not_serves (hm : bc.Models m)
    (hb : bc.database.fileIdGenerator.fileId.toNat + 1 < 2 ^ 32) {key : Bytes} {loc : RowLocation}
    (hk : bc.keydir.get key = some loc) {db' : Database} (hd : bc.database.drop = (.ok (), db')) :
    loc.fileId ≠ db'.writingStorage.storageId ∧ db'.stableStorages = ∅ := by
  obtain ⟨-, v, -, hh⟩ := hm.present key loc hk
  refine ⟨?_, (Database.drop_ok_spec hm.inv hb hd).2.1⟩
  obtain ⟨db₁, hf, io, rfl⟩ := Database.drop_ok hd
  rcases Database.doFlushWritingFile_ok hf with ⟨h0, rfl⟩ | ⟨-, f, -, io', rfl⟩
  · -- an empty writing file holds no row
    rintro hw
    obtain ⟨-, f, r, hf', hlen, hdec, -⟩ := hh
    rw [hw] at hf'
    have h28 := decodeRow_ok_length hdec
    have hoff := hm.inv.writing_length hf'
    simp only [List.length_take, List.length_drop] at h28
    simp only [DataStorage.fileSize, fileHeaderSize, dataFileKeyOffset] at h0 h28
    omega
  · exact hm.inv.ne_nextFileId hb (hm.inv.serves_mem hh.1)

/-- **A `drop` between the two steps of `get` makes it fail.** From a store implementing `m`,
    with the file-id counter below `u32::MAX`, let `get(k)` read the keydir entry of a key it holds
    and another thread's `drop` succeed before `get` reads the value. Then `get` returns
    `Err(TargetFileIdNotFound)` of the file the entry names: neither the answer of a `get` run
    wholly before the `drop` nor that of one run wholly after it, which is `Ok(None)`. -/
theorem get_across_drop_fails (hm : bc.Models m)
    (hb : bc.database.fileIdGenerator.fileId.toNat + 1 < 2 ^ 32) {key : Bytes} {loc : RowLocation}
    (hk : bc.keydir.get key = some loc) (hd : bc.drop = (.ok (), bc')) :
    getAcross bc bc' bc' key = .error (.targetFileIdNotFound loc.fileId) ∧
      (bc'.get key).1 = .ok none := by
  obtain ⟨db', hdd, rfl⟩ := drop_ok hd
  obtain ⟨hne, hempty⟩ := hm.drop_not_serves hb hk hdd
  have hok : db'.isError = none :=
    (congrArg (·.2.isError) hdd).symm.trans (Database.drop_isError.trans hm.healthy)
  constructor
  · simp [getAcross, getLookup, checkDbError_of_healthy hm.healthy, hk,
      Database.readValueWriting_of_ne hne, Database.readValueStable, Database.getFileToRead,
      hempty, Except.map]
  · simp [get, getLookup, checkDbError_of_healthy hok]

set_option maxRecDepth 20000 in
/-- After `put(a, x)`, a `drop` between the two steps of `get(a)`. -/
theorem get_across_drop_fails_put :
    ∃ bc, session ∅ ⟨0, []⟩ sampleOptions [.put [97] [120]] = some bc ∧
      getAcross bc bc.drop.2 bc.drop.2 [97] = .error (.targetFileIdNotFound 1) := by
  obtain ⟨bc, hs, hres⟩ := Option.map_eq_some'.mp (show (session ∅ ⟨0, []⟩ sampleOptions
    [.put [97] [120]]).map (fun bc => (bc.drop.1, bc.keydir.get [97])) =
      some (.ok (), some ⟨1, 8, 30⟩) by decide)
  obtain ⟨bc₀, h₀, h₁⟩ := session_eq_some.mp hs
  obtain ⟨hm₀, hg₀⟩ := open'_empty h₀
  obtain ⟨hm, hg, -⟩ := hm₀.runCalls (by rw [hg₀]; decide) h₁
  simp only [Prod.mk.injEq] at hres
  exact ⟨bc, hs, (get_across_drop_fails hm (by rw [hg₀] at hg; simp at hg; omega) hres.2
    (Prod.ext hres.1 rfl)).1⟩

end Bitcask

end Bitcask
