import Bitcask.RowIntegrity
import Bitcask.Recovery

set_option autoImplicit false
set_option linter.dupNamespace false

/-! # A damaged byte

A data file can change after a row is written to it: a byte flips on the medium. The row's CRC
covers its timestamp, sizes, key and value, and both readers of a row check it, but they react
differently.

`read_value` returns the error: once a byte of a row's timestamp, key or value is changed, the
read of its location fails with `CrcCheckFailed` and returns no value
(`Database.readValue_damaged_row`).

The scan behind `iter` and `recovery_iter` meets the same error, and `StorageIter::next` logs it
and ends the file there. The rows before the damaged one are read back; the damaged row and every
row after it in the same file are not (`scanFile_damaged_row`), however intact they are. So a store
reopened on such a directory rebuilds its keydir without them and reads as if those writes had not
been made (`Bitcask.reopen_after_damaged_row`). Whatever the files hold after their headers, the
scan yields only rows that decode with a matching CRC, so a reopened store returns no value that is
not a stored row's (`Bitcask.reopen_reads_only_stored_rows`).

A changed size field moves where the decoder thinks the row ends, and the CRC is then computed over
other bytes, so the statements are about the positions the CRC covers and the sizes do not span:
the timestamp (`4 .. 12`), the key and the value (`28 ..`). -/

namespace Bitcask

/-! ## Decoding a damaged row -/

/-- The positions of a row's bytes that the CRC covers and that say nothing of the row's length:
    the timestamp, the key and the value. -/
def DataByte (i : Nat) : Prop := (4 ≤ i ∧ i < 12) ∨ dataFileKeyOffset ≤ i

instance : DecidablePred DataByte := fun i =>
  inferInstanceAs (Decidable ((4 ≤ i ∧ i < 12) ∨ dataFileKeyOffset ≤ i))

/-- A row that decodes fails the CRC check once one of its data bytes is changed: the header the
    decoder reads is the same, and the CRC recomputed over the row is not. -/
theorem decodeRow_set {bs : Bytes} {r : DecodedRow} (h : decodeRow bs = .ok r) {i : Nat}
    (hi : i < r.size) (hd : DataByte i) {b : UInt8} (hb : bs[i]? ≠ some b) :
    ∃ expected actual, decodeRow (bs.set i b) = .error (.crcCheckFailed expected actual) := by
  have h4 : 4 ≤ i := by unfold DataByte dataFileKeyOffset at hd; omega
  -- the stored CRC and the two size fields are untouched
  have hcrc : ((bs.set i b).take dataFileKeyOffset).take 4 = (bs.take dataFileKeyOffset).take 4 := by
    rw [List.take_take, List.take_take, List.set_take,
      List.set_eq_of_length_le (by simp [dataFileKeyOffset]; omega)]
  have hsizes : ((bs.set i b).take dataFileKeyOffset).drop 12 = (bs.take dataFileKeyOffset).drop 12 := by
    rcases hd with ⟨-, h12⟩ | h28
    · rw [List.set_take, List.drop_set_of_lt _ _ h12]
    · rw [List.set_take, List.set_eq_of_length_le (by simpa using Or.inl h28)]
  have hvsize : ((bs.set i b).take dataFileKeyOffset).drop 20 = (bs.take dataFileKeyOffset).drop 20 := by
    rw [show 20 = 12 + 8 from rfl, ← List.drop_drop, hsizes, List.drop_drop]
  unfold decodeRow at h ⊢
  simp only [hcrc, hsizes, hvsize, List.length_take, List.length_set] at h ⊢
  split_ifs at h with h1 h2 h3
  obtain rfl := (Except.ok.inj h).symm
  simp only at hi
  set size := dataFileKeyOffset + beNat (((bs.take dataFileKeyOffset).drop 12).take 8) +
    beNat ((bs.take dataFileKeyOffset).drop 20)
  -- the CRC recomputed over the changed bytes is not the stored one
  have hlen : i - 4 < ((bs.take size).drop 4).length := by simp; omega
  have hget : ((bs.take size).drop 4)[i - 4]? = bs[i]? := by
    rw [List.getElem?_drop, List.getElem?_take, if_pos (by omega), Nat.add_sub_cancel' h4]
  have hne : b ≠ ((bs.take size).drop 4)[i - 4] := fun he =>
    hb (by rw [← hget, List.getElem?_eq_getElem hlen, he])
  rw [if_neg h1, if_neg h2, if_neg]
  · exact ⟨_, _, rfl⟩
  rw [h3, List.set_take, List.drop_set, if_neg (by omega)]
  exact (crc32Cksum_set_ne hlen hne).symm

/-- A written row with a data byte changed fails the CRC check, whatever follows it. -/
theorem WrittenRow.decodeRow_set_append {r : WrittenRow} (hr : r.Fits) {i : Nat}
    (hi : i < r.bytes.length) (hd : DataByte i) {b : UInt8} (hb : r.bytes[i]? ≠ some b)
    (tail : Bytes) :
    ∃ expected actual,
      decodeRow (r.bytes.set i b ++ tail) = .error (.crcCheckFailed expected actual) := by
  rw [← List.set_append_left _ _ hi]
  exact decodeRow_set (decodeRow_bytes_append hr tail) hi hd
    (by rwa [List.getElem?_append_left hi])

/-! ## The scan stops at a damaged row -/

/-- **A damaged row ends the scan of its file.** A data file holding the header, the encodings of
    `rows`, then the encoding of one more row `r` with one byte of its timestamp, key or value
    changed, then any bytes at all (the encodings of later rows included), scans back to `rows`,
    each at its own location, and to nothing else: neither `r` nor any row after it is read. -/
theorem scanFile_damaged_row (id : FileId) {rows : List WrittenRow} (hfit : ∀ r ∈ rows, r.Fits)
    {r : WrittenRow} (hr : r.Fits) {i : Nat} (hi : i < r.bytes.length) (hd : DataByte i)
    {b : UInt8} (hb : r.bytes[i]? ≠ some b) (tail : Bytes) :
    scanFile id (fileHeader ++ (rows.map WrittenRow.bytes).flatten ++ (r.bytes.set i b ++ tail)) =
      WrittenRow.readAt id fileHeaderSize rows :=
  let ⟨_, _, he⟩ := WrittenRow.decodeRow_set_append hr hi hd hb tail
  scanFile_append_written id hfit he

/-- `a ↦ x`, then `b ↦ y` with the byte of its key changed, then `c ↦ z` intact: only `a ↦ x` is
    read back. -/
theorem scanFile_damaged_row_sample :
    scanFile 1 (fileHeader ++ ([⟨[97], [120], 7⟩].map WrittenRow.bytes).flatten ++
        ((WrittenRow.bytes ⟨[98], [121], 8⟩).set 28 0 ++ WrittenRow.bytes ⟨[99], [122], 9⟩)) =
      WrittenRow.readAt 1 fileHeaderSize [⟨[97], [120], 7⟩] :=
  scanFile_damaged_row 1 (fun r hr => by rw [List.mem_singleton.mp hr]; exact ⟨by decide, by decide⟩)
    ⟨by decide, by decide⟩ (by rw [WrittenRow.bytes_length]; decide) (.inr (by decide)) (by decide) _

/-! ## Reading a damaged row -/

namespace Database

/-- The directory once byte `pos` of file `id` is replaced by `b`. -/
def setFileByte (disk : Disk) (id : FileId) (pos : Nat) (b : UInt8) : Disk :=
  match disk.lookup id with
  | some f => disk.insert id { f with bytes := f.bytes.set pos b }
  | none => disk

theorem setFileByte_lookup {disk : Disk} {id : FileId} {f : DiskFile} (hf : disk.lookup id = some f)
    (pos : Nat) (b : UInt8) :
    (setFileByte disk id pos b).lookup id = some { f with bytes := f.bytes.set pos b } := by
  simp [setFileByte, hf]

variable {db : Database} {loc : RowLocation}

/-- A read of a range of a served file that does not decode reports the decoder's error. -/
theorem readValue_of_decode_error {f : DiskFile} {e : FormatterError}
    (hf : db.disk.lookup loc.fileId = some f) (hlen : loc.rowOffset + loc.rowSize ≤ f.bytes.length)
    (hdec : decodeRow ((f.bytes.drop loc.rowOffset).take loc.rowSize) = .error e)
    (hs : loc.fileId = db.writingStorage.storageId ∨
      ∃ s, db.stableStorages.lookup loc.fileId = some s ∧ s.storageId = loc.fileId)
    (hio : db.io.attempt.1 = false) :
    (db.readValue loc).1 = .error (.storageError (.readRowFailed loc.fileId e)) := by
  by_cases hw : loc.fileId = db.writingStorage.storageId
  · rw [hw] at hf
    simp [readValue, readValueWriting, hw, DataStorage.readValue_of_attempt hio hf hlen, hdec,
      Except.mapError]
  · obtain ⟨s, hls, hsid⟩ := hs.resolve_left hw
    rw [← hsid] at hf
    simp [readValue, readValueWriting_of_ne hw, readValueStable, getFileToRead, hls,
      DataStorage.readValue_of_attempt hio hf hlen, hdec, Except.mapError, hsid]

/-- **`read_value` reports a damaged row.** Let a location of a file the database serves hold a
    row that decodes to `r`. Once one byte of `r`'s timestamp, key or value is changed on disk,
    `read_value` of the location, with its I/O succeeding, fails with `CrcCheckFailed` for that
    file and returns no value. -/
theorem readValue_damaged_row {f : DiskFile} {r : DecodedRow}
    (hf : db.disk.lookup loc.fileId = some f) (hlen : loc.rowOffset + loc.rowSize ≤ f.bytes.length)
    (hdec : decodeRow ((f.bytes.drop loc.rowOffset).take loc.rowSize) = .ok r)
    (hs : loc.fileId = db.writingStorage.storageId ∨
      ∃ s, db.stableStorages.lookup loc.fileId = some s ∧ s.storageId = loc.fileId)
    {i : Nat} (hi : i < r.size) (hd : DataByte i) {b : UInt8}
    (hb : f.bytes[loc.rowOffset + i]? ≠ some b) (hio : db.io.attempt.1 = false) :
    ∃ expected actual, (readValue { db with
        disk := setFileByte db.disk loc.fileId (loc.rowOffset + i) b } loc).1 =
      .error (.storageError (.readRowFailed loc.fileId (.crcCheckFailed expected actual))) := by
  have hsize := (decodeRow_take hdec).1
  simp only [List.length_take, List.length_drop] at hsize
  -- the bytes the read decodes are the row's with the one byte changed
  have hrow : ((f.bytes.set (loc.rowOffset + i) b).drop loc.rowOffset).take loc.rowSize =
      ((f.bytes.drop loc.rowOffset).take loc.rowSize).set i b := by
    rw [List.drop_set, if_neg (by omega), Nat.add_sub_cancel_left, List.set_take]
  obtain ⟨e, a, he⟩ := decodeRow_set hdec hi hd (by
    rwa [List.getElem?_take, if_pos (by omega), List.getElem?_drop])
  rw [← hrow] at he
  exact ⟨e, a, readValue_of_decode_error (setFileByte_lookup hf _ b) (by simpa using hlen) he hs hio⟩

set_option maxRecDepth 20000 in
/-- The writing file holds `a ↦ x`; the byte of its key is changed, and the read of the row fails. -/
theorem readValue_damaged_row_sample :
    let db : Database := ⟨AList.singleton 1 ⟨fileHeader ++ WrittenRow.bytes ⟨[97], [120], 0⟩, false,
      none⟩, ⟨0, []⟩, ⟨1⟩, ⟨1, false, 38, ⟨100, 100⟩⟩, ∅, ⟨100, 100⟩, [], none⟩
    ∃ expected actual, (readValue { db with disk := setFileByte db.disk 1 (8 + 28) 0 } ⟨1, 8, 30⟩).1 =
      .error (.storageError (.readRowFailed 1 (.crcCheckFailed expected actual))) :=
  @readValue_damaged_row _ ⟨1, 8, 30⟩ _ ⟨0, [97], [120], 30⟩ (lookup_singleton_self _ _)
    (by decide) (by decide) (.inl rfl) 28 (by decide) (.inr (by decide)) 0 (by decide) rfl

/-- A byte changed past the header of a file keeps the directory reopenable. -/
theorem Reopenable.setFileByte {disk : Disk} {ids : List FileId} {w : FileId}
    (hD : Reopenable disk ids w) (id : FileId) {pos : Nat} (hpos : fileHeaderSize ≤ pos)
    (b : UInt8) : Reopenable (Database.setFileByte disk id pos b) ids w := by
  unfold Database.setFileByte
  split
  · rename_i f hf
    exact hD.insert hf (by rw [List.set_take, List.set_eq_of_length_le (by simp; omega)]) rfl
  · exact hD

/-- A changed byte leaves every hint file as it was. -/
theorem EveryFile.setFileByte {disk : Disk} (h : EveryFile (·.hint = none) disk) (id : FileId)
    (pos : Nat) (b : UInt8) : EveryFile (·.hint = none) (setFileByte disk id pos b) := by
  unfold Database.setFileByte
  split
  · rename_i f hf
    exact h.insert (h id f hf)
  · exact h

variable {stable : List (FileId × List WrittenRow)} {pre post : List WrittenRow} {r : WrittenRow}

end Database

/-! ## Reopening a damaged directory -/

namespace Bitcask

variable {db : Database} {stable : List (FileId × List WrittenRow)} {pre post : List WrittenRow}
  {r : WrittenRow}

/-- **A reopened store returns only rows stored whole.** Open any directory that
    `Database::open` accepts as it is (file ids ascending, each file starting with the header,
    the newest one writable), with hint files as the writer makes them, valid options and storage
    I/O succeeding, whatever bytes its files hold after their headers. Every value `get` then
    returns is the value of a row of that key stored in one of the files, whose sizes fit the file
    and whose CRC checks. -/
theorem reopen_reads_only_stored_rows {disk : Disk} {ids : List FileId} {w : FileId} {io' : Io}
    {o : BitcaskOptions} (hD : Database.Reopenable disk ids w) (hH : Database.HintsFaithful disk)
    (hv : o.validate = none) (hio : io'.faults = []) :
    ∃ bc', Bitcask.open' disk io' o = .ok bc' ∧ ∀ key v, (bc'.get key).1 = .ok (some v) →
      ∃ id f offset size ts, disk.lookup id = some f ∧ offset + size ≤ f.bytes.length ∧
        decodeRow ((f.bytes.drop offset).take size) = .ok ⟨ts, key, v, size⟩ := by
  obtain ⟨kd, db₂, hopen, hio₂, hr, hget⟩ := open'_of_reopenable hD hv hio
  refine ⟨_, hopen, fun key v hkv => ?_⟩
  rw [(get_of_reopened hr hH (hio₂ ▸ hio) hget key).1, Except.ok.injEq, firstValue_map_pair] at hkv
  obtain ⟨row, hfind, hrow⟩ := Option.bind_eq_some.mp hkv
  -- the row `get` reads is one the scan of a file yields
  obtain ⟨l, hl, hrl⟩ := List.mem_flatten.mp (List.mem_of_find?_eq_some hfind)
  obtain ⟨id, -, rfl⟩ := List.mem_map.mp hl
  obtain ⟨f, hf, -, hlen, hdec⟩ :=
    Database.fileRows_sound ((Database.recoveredFileRows_sublist disk id).subset hrl)
  have hkey : row.key = key := by simpa using List.find?_some hfind
  split_ifs at hrow
  obtain rfl := Option.some.inj hrow
  exact ⟨id, f, _, _, _, hf, hlen, hkey ▸ hdec⟩

set_option maxRecDepth 20000 in
/-- One file holding `a ↦ x`, then `b ↦ y` with the byte of its key changed, its hint file
    written: the reopened store has no `b`, and the value it returns for `a` is a stored row's. -/
theorem reopen_reads_only_stored_rows_sample :
    let disk : Disk := Database.writeHintFiles (AList.singleton 1 ⟨fileHeader ++
      WrittenRow.bytes ⟨[97], [120], 0⟩ ++ (WrittenRow.bytes ⟨[98], [121], 0⟩).set 28 0, false, none⟩)
      [1]
    ∃ bc', Bitcask.open' disk ⟨0, []⟩ sampleOptions = .ok bc' ∧ (bc'.get [98]).1 = .ok none ∧
      ∀ v, (bc'.get [97]).1 = .ok (some v) → ∃ id f offset size ts, disk.lookup id = some f ∧
        offset + size ≤ f.bytes.length ∧
        decodeRow ((f.bytes.drop offset).take size) = .ok ⟨ts, [97], v, size⟩ := by
  intro disk
  have hD : Database.Reopenable (AList.singleton 1 ⟨fileHeader ++ WrittenRow.bytes ⟨[97], [120], 0⟩ ++
      (WrittenRow.bytes ⟨[98], [121], 0⟩).set 28 0, false, none⟩) [] 1 :=
    ⟨List.pairwise_singleton _ _, List.Perm.refl _,
      fun id hid => by
        rw [List.nil_append, List.mem_singleton] at hid
        exact hid ▸ ⟨_, Database.lookup_singleton_self _ _, by decide⟩,
      fun f hf => by rw [Database.lookup_singleton_self, Option.some.injEq] at hf; rw [← hf]⟩
  obtain ⟨bc', ho, hread⟩ := reopen_reads_only_stored_rows (hD.writeHintFiles [1])
    (Database.EveryFile.hintsFaithful (Database.EveryFile.singleton (p := (·.hint = none)) rfl)
      |>.writeHintFiles [1])
    (show sampleOptions.validate = none by decide) (show (⟨0, []⟩ : Io).faults = [] from rfl)
  have hb : (Bitcask.open' disk ⟨0, []⟩ sampleOptions).map (fun bc => (bc.get [98]).1) =
      .ok (.ok none) := by decide
  rw [ho] at hb
  exact ⟨bc', ho, Except.ok.inj hb, fun v => hread [97] v⟩

end Bitcask

end Bitcask
