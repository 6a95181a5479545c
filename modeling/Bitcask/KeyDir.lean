import Bitcask.Database.Iter

set_option autoImplicit false

/-! # The keydir

Modelled from the spec: the `keydir` module is not in the repository. The keydir maps every live
key to the location of its most recent row. `put` is unconditional, `checked_put` inserts only
an absent key, and `KeyDir::new` rebuilds the map from the database's recovery iterator with the
spec's algorithm: a key already present is skipped (an earlier row of the scan wins), a tombstone
records its key in a tombstone set, and any other row is inserted unless its key is in that set.

The spec states that this algorithm relies on the scan visiting newer rows first; the code's
`recovery_iter` visits the files in ascending id order. -/

namespace Bitcask

/-- Modelled from the spec: `KeyDir`, a map from keys to row locations. -/
structure KeyDir where
  index : AList (fun _ : Bytes => RowLocation)
  deriving DecidableEq

namespace KeyDir

/-- An empty keydir (`new_empty_key_dir`). -/
def empty : KeyDir := ⟨∅⟩

/-- `put`: last write wins. -/
def put (kd : KeyDir) (key : Bytes) (loc : RowLocation) : KeyDir := ⟨kd.index.insert key loc⟩

/-- `checked_put`: insert only when the key is absent. -/
def checkedPut (kd : KeyDir) (key : Bytes) (loc : RowLocation) : KeyDir :=
  if key ∈ kd.index then kd else kd.put key loc

/-- `delete`. -/
def delete (kd : KeyDir) (key : Bytes) : KeyDir := ⟨kd.index.erase key⟩

/-- `get`: a copy of the entry. -/
def get (kd : KeyDir) (key : Bytes) : Option RowLocation := kd.index.lookup key

/-- `contains_key`. -/
def containsKey (kd : KeyDir) (key : Bytes) : Bool := decide (key ∈ kd.index)

/-- `clear`. -/
def clear (_kd : KeyDir) : KeyDir := empty

/-- `len`. -/
def len (kd : KeyDir) : Nat := kd.index.entries.length

/-- `iter`: the entries, in the map's order. -/
def iter (kd : KeyDir) : List (Bytes × RowLocation) := kd.index.entries.map fun e => (e.1, e.2)

@[simp] theorem get_put_self (kd : KeyDir) (key : Bytes) (loc : RowLocation) :
    (kd.put key loc).get key = some loc := AList.lookup_insert _

@[simp] theorem get_put_ne (kd : KeyDir) {key key' : Bytes} (loc : RowLocation) (h : key' ≠ key) :
    (kd.put key loc).get key' = kd.get key' := AList.lookup_insert_ne h

@[simp] theorem get_delete_self (kd : KeyDir) (key : Bytes) : (kd.delete key).get key = none :=
  AList.lookup_erase _ _

@[simp] theorem get_delete_ne (kd : KeyDir) {key key' : Bytes} (h : key' ≠ key) :
    (kd.delete key).get key' = kd.get key' := AList.lookup_erase_ne h

@[simp] theorem get_clear (kd : KeyDir) (key : Bytes) : kd.clear.get key = none := rfl

theorem containsKey_iff (kd : KeyDir) (key : Bytes) :
    kd.containsKey key = true ↔ (kd.get key).isSome := by
  simp [containsKey, get, AList.lookup_isSome]

theorem get_foldl_put (l : List (Sigma fun _ : Bytes => RowLocation)) (hl : l.NodupKeys)
    (kd : KeyDir) (key : Bytes) :
    (l.foldl (fun kd e => kd.put e.1 e.2) kd).get key = (l.dlookup key).or (kd.get key) := by
  induction l generalizing kd with
  | nil => rfl
  | cons e l ih =>
    obtain ⟨he, hl⟩ := List.nodupKeys_cons.mp hl
    rw [List.foldl_cons, ih hl]
    by_cases hk : key = e.1
    · subst hk
      rw [List.dlookup_eq_none.mpr he, List.dlookup_cons_eq]
      simp
    · rw [List.dlookup_cons_ne _ _ hk, get_put_ne _ _ hk]

/-- After the overlay, a merged key has its merged location and any other key keeps its own. -/
theorem get_overlay (newKd kd : KeyDir) (key : Bytes) :
    (newKd.iter.foldl (fun kd e => kd.put e.1 e.2) kd).get key = (newKd.get key).or (kd.get key) := by
  rw [iter, List.foldl_map]
  exact get_foldl_put _ newKd.index.nodupKeys kd key

theorem mem_iter {kd : KeyDir} {key : Bytes} {loc : RowLocation} :
    (key, loc) ∈ kd.iter ↔ kd.get key = some loc := by
  rw [iter, get, AList.lookup, ← Option.mem_def, List.mem_dlookup_iff kd.index.nodupKeys]
  simp only [List.mem_map, Prod.mk.injEq]
  constructor
  · rintro ⟨⟨k, l⟩, h, rfl, rfl⟩
    exact h
  · exact fun h => ⟨_, h, rfl, rfl⟩

theorem iter_length (kd : KeyDir) : kd.iter.length = kd.len := by simp [iter, len]

/-- `iter` visits each key once. -/
theorem iter_keys_nodup (kd : KeyDir) : (kd.iter.map Prod.fst).Nodup := by
  simpa [iter, List.map_map, AList.keys, List.keys, Function.comp_def] using kd.index.keys_nodup

/-- `checked_put` keeps every entry it finds. -/
theorem get_checkedPut_of_some {kd : KeyDir} {key key' : Bytes} {loc loc' : RowLocation}
    (h : kd.get key' = some loc') : (kd.checkedPut key loc).get key' = some loc' := by
  unfold checkedPut
  split_ifs
  · exact h
  · by_cases hk : key' = key
    · subst hk
      exact absurd (AList.lookup_isSome.mp (Option.isSome_iff_exists.mpr ⟨_, h⟩)) ‹_›
    · rwa [get_put_ne _ _ hk]

theorem get_checkedPut_self (kd : KeyDir) (key : Bytes) (loc : RowLocation) :
    ((kd.checkedPut key loc).get key).isSome := by
  unfold checkedPut
  split_ifs with h
  · exact AList.lookup_isSome.mpr h
  · simp

theorem get_checkedPut_eq {kd : KeyDir} {key key' : Bytes} {loc loc' : RowLocation}
    (h : (kd.checkedPut key loc).get key' = some loc') :
    kd.get key' = some loc' ∨ (key' = key ∧ loc' = loc) := by
  unfold checkedPut at h
  split_ifs at h
  · exact .inl h
  · by_cases hk : key' = key
    · subst hk
      simp only [get_put_self, Option.some.injEq] at h
      exact .inr ⟨rfl, h.symm⟩
    · rw [get_put_ne _ _ hk] at h
      exact .inl h

/-! ## Rebuilding on open -/

/-- One row of the rebuild; the tombstone set is carried alongside. -/
def rebuildStep (acc : KeyDir × List Bytes) (row : RecoveredRow) : KeyDir × List Bytes :=
  let (kd, tombstones) := acc
  if row.key ∈ kd.index then (kd, tombstones)
  else if row.isTombstone then (kd, row.key :: tombstones)
  else if row.key ∈ tombstones then (kd, tombstones)
  else (kd.put row.key ⟨row.fileId, row.rowOffset, row.rowSize⟩, tombstones)

/-- The rebuild over the recovery iterator's items; an error item fails it. -/
def rebuild : KeyDir × List Bytes → List (Except BitcaskError RecoveredRow) →
    Except BitcaskError KeyDir
  | (kd, _), [] => .ok kd
  | _, .error e :: _ => .error e
  | acc, .ok row :: rows => rebuild (rebuildStep acc row) rows

/-! ## What the rebuild keeps -/

/-- The first row of `key` among `rows`. -/
def firstRow (rows : List RecoveredRow) (key : Bytes) : Option RecoveredRow :=
  rows.find? (·.key == key)

/-- The location the rebuild gives `key` after `rows`: its first row's, unless that row is a
    tombstone. -/
def firstLocation (rows : List RecoveredRow) (key : Bytes) : Option RowLocation :=
  (firstRow rows key).bind fun row =>
    if row.isTombstone then none else some ⟨row.fileId, row.rowOffset, row.rowSize⟩

/-- The rebuild's accumulator after the rows `seen`: the keydir gives each key its first location,
    and the tombstone set holds the keys whose first row is a tombstone. -/
def Rebuilt (seen : List RecoveredRow) (acc : KeyDir × List Bytes) : Prop :=
  ∀ key, acc.1.get key = firstLocation seen key ∧
    (key ∈ acc.2 ↔ (firstRow seen key).any (·.isTombstone))

theorem firstRow_append_of_isSome {seen : List RecoveredRow} {row : RecoveredRow}
    (h : (firstRow seen row.key).isSome) (key : Bytes) :
    firstRow (seen ++ [row]) key = firstRow seen key := by
  simp only [firstRow, List.find?_append, List.find?_singleton]
  by_cases hk : row.key = key
  · subst hk
    obtain ⟨r, hr⟩ := Option.isSome_iff_exists.mp h
    simp [firstRow] at hr
    simp [hr]
  · simp [hk]

theorem firstRow_append_of_none {seen : List RecoveredRow} {row : RecoveredRow}
    (h : firstRow seen row.key = none) (key : Bytes) :
    firstRow (seen ++ [row]) key = if row.key = key then some row else firstRow seen key := by
  simp only [firstRow, List.find?_append, List.find?_singleton, beq_iff_eq]
  by_cases hk : row.key = key
  · subst hk
    simp only [firstRow] at h
    simp [h]
  · simp [hk]

theorem mem_index_iff {kd : KeyDir} {key : Bytes} : key ∈ kd.index ↔ (kd.get key).isSome :=
  AList.lookup_isSome.symm

/-- A row of a key already seen changes neither the keydir nor which keys are in the tombstone
    set. -/
theorem rebuildStep_of_isSome {seen : List RecoveredRow} {kd : KeyDir} {ts : List Bytes}
    (h : Rebuilt seen (kd, ts)) {row : RecoveredRow} (hs : (firstRow seen row.key).isSome) :
    (rebuildStep (kd, ts) row).1 = kd ∧ ∀ key, key ∈ (rebuildStep (kd, ts) row).2 ↔ key ∈ ts := by
  obtain ⟨r, hr⟩ := Option.isSome_iff_exists.mp hs
  have hloc := (h row.key).1
  have hts := (h row.key).2
  simp only [firstLocation, hr, Option.bind_some, Option.any_some] at hloc hts
  simp only [rebuildStep]
  split_ifs with h1 h2 h3
  · exact ⟨rfl, fun _ => Iff.rfl⟩
  · refine ⟨rfl, fun key => ?_⟩
    have : row.key ∈ ts := hts.mpr (by
      by_contra hr'
      simp only [Bool.not_eq_true] at hr'
      exact h1 (mem_index_iff.mpr (by simp [hloc, hr'])))
    simp only [List.mem_cons]
    exact ⟨fun h => h.elim (· ▸ this) id, .inr⟩
  · exact ⟨rfl, fun _ => Iff.rfl⟩
  · exfalso
    cases ht : r.isTombstone
    · exact h1 (mem_index_iff.mpr (by simp [hloc, ht]))
    · exact h3 (hts.mpr ht)

/-- **One row of the rebuild.** -/
theorem Rebuilt.step {seen : List RecoveredRow} {acc : KeyDir × List Bytes} (h : Rebuilt seen acc)
    (row : RecoveredRow) : Rebuilt (seen ++ [row]) (rebuildStep acc row) := by
  obtain ⟨kd, ts⟩ := acc
  rcases hfirst : firstRow seen row.key with _ | r
  · -- the first row of its key
    have hkd : row.key ∉ kd.index := fun hm => by
      have := (h row.key).1
      simp only [firstLocation, hfirst, Option.bind_none] at this
      simpa [this] using mem_index_iff.mp hm
    have hts : row.key ∉ ts := fun hm => by simpa [hfirst] using (h row.key).2.mp hm
    intro key
    simp only [firstLocation, firstRow_append_of_none hfirst, rebuildStep, hkd, hts, if_false]
    have hnone : kd.get row.key = none := Option.not_isSome_iff_eq_none.mp (mt mem_index_iff.mpr hkd)
    by_cases hk : row.key = key
    · subst hk
      cases ht : row.isTombstone <;> simp [hts, hnone, ht]
    · have hne : key ≠ row.key := Ne.symm hk
      obtain ⟨hget, hmem⟩ := h key
      cases ht : row.isTombstone <;> simpa [hk, hne, ht, firstLocation] using ⟨hget, hmem⟩
  · -- a later row of its key
    have hs : (firstRow seen row.key).isSome := by rw [hfirst]; rfl
    obtain ⟨hkd, hts⟩ := rebuildStep_of_isSome h hs
    intro key
    rw [hkd, hts, firstLocation, firstRow_append_of_isSome hs]
    exact h key

/-- The rebuild, continued over `rows` from an accumulator built from `seen`. -/
theorem Rebuilt.rebuild {seen : List RecoveredRow} {acc : KeyDir × List Bytes}
    (h : Rebuilt seen acc) (rows : List RecoveredRow) :
    ∃ kd, KeyDir.rebuild acc (rows.map .ok) = .ok kd ∧
      ∀ key, kd.get key = firstLocation (seen ++ rows) key := by
  induction rows generalizing seen acc with
  | nil => exact ⟨acc.1, rfl, fun key => by simpa using (h key).1⟩
  | cons row rows ih =>
    obtain ⟨kd, hkd, hget⟩ := ih (h.step row)
    exact ⟨kd, hkd, fun key => by simpa using hget key⟩

/-- **The rebuild keeps the first row of each key.** Over any recovered rows, `KeyDir::new`'s
    algorithm maps every key to the location of its first row, unless that row is a tombstone, and
    then has no entry for it: a later row of a key, tombstone or not, is never looked at. -/
theorem rebuild_firstLocation (rows : List RecoveredRow) :
    ∃ kd, KeyDir.rebuild (empty, []) (rows.map .ok) = .ok kd ∧
      ∀ key, kd.get key = firstLocation rows key :=
  (show Rebuilt [] (empty, []) from fun _ => ⟨rfl, by simp [firstRow]⟩).rebuild rows

end KeyDir

/-- Enough fuel to drain the recovery iterator: every row is at least `dataFileKeyOffset` bytes,
    so one step per byte of the directory, per hint record and per file, plus the final `None`. -/
def Database.recoveryFuel (db : Database) : Nat :=
  (db.disk.entries.map fun e => e.2.bytes.length + (e.2.hint.map List.length).getD 0).sum +
    db.heldFileIds.length + 1

/-- Modelled from the spec: `KeyDir::new(&database)`, the rebuild over `recovery_iter`. -/
def KeyDir.new (db : Database) : Except BitcaskError KeyDir × Io :=
  match db.recoveryIter with
  | (.error e, io) => (.error e, io)
  | (.ok it, io) =>
    match it.drain db.recoveryFuel io with
    | (rows, io) => (KeyDir.rebuild (KeyDir.empty, []) rows, io)

end Bitcask
