import Bitcask.Basic
import Mathlib.Tactic.Ring

set_option autoImplicit false

/-! # The row codec

A row on disk is `crc (u32 BE) | timestamp (u64 BE) | key_size (u64 BE) | value_size (u64 BE) |
key | value` (`RowToWrite::to_bytes`, `common.rs`). `RowToWrite::new_with_timestamp` feeds the
timestamp, the two sizes, the key and the value to a CRC-32/CKSUM digest, in that order.

The decoder lives in the formatter, which is not in the repository: `decodeRow` is modelled from
the spec (read the 28-byte header, then `key_size + value_size` bytes, and fail with
`CrcCheckFailed` when the CRC recomputed from the timestamp to the end of the value differs from
the stored one). `scanRows` is the sequential scan behind `StorageIter`: it stops at the end of
the file, and at the first row that does not decode (a torn tail).

The round trip `decodeRow_toBytes_append` holds whenever the key and value lengths fit the `u64`
size fields, which every `Vec<u8>` does. -/

namespace Bitcask

/-! ## CRC-32/CKSUM -/

/-- One MSB-first step of the CRC register (polynomial `0x04C11DB7`). -/
def crcShift (c : UInt32) : UInt32 :=
  if c &&& 0x80000000 = 0 then c <<< 1 else (c <<< 1) ^^^ 0x04C11DB7

/-- `n` steps of the register. -/
def crcShifts : Nat → UInt32 → UInt32
  | 0, c => c
  | n + 1, c => crcShift (crcShifts n c)

/-- Entry `i` of the crate's lookup table: eight register steps from `i` in the top byte. -/
def crcTable (i : UInt32) : UInt32 := crcShifts 8 (i <<< 24)

/-- Feed one byte to the register by a table lookup, as the `crc` crate does for a CRC without
    input or output reflection. -/
def crcByte (c : UInt32) (b : UInt8) : UInt32 :=
  (c <<< 8) ^^^ crcTable ((c >>> 24) ^^^ b.toUInt32)

/-- `Digest::update`: feed a byte string. -/
def crcUpdate (c : UInt32) (bs : Bytes) : UInt32 := bs.foldl crcByte c

/-- `Digest::finalize` for CRC-32/CKSUM: the output is complemented. -/
def crcFinalize (c : UInt32) : UInt32 := c ^^^ 0xFFFFFFFF

/-- CRC-32/CKSUM of a byte string (initial register `0`). -/
def crc32Cksum (bs : Bytes) : UInt32 := crcFinalize (crcUpdate 0 bs)

/-- The catalogue's check value of CRC-32/CKSUM. -/
example : crc32Cksum [0x31, 0x32, 0x33, 0x34, 0x35, 0x36, 0x37, 0x38, 0x39] = 0x765E7680 := by
  decide

theorem crcUpdate_append (c : UInt32) (a b : Bytes) :
    crcUpdate c (a ++ b) = crcUpdate (crcUpdate c a) b :=
  List.foldl_append _ _ _ _

/-! ## Big-endian integers -/

/-- The `n` big-endian bytes of `x` (`to_be_bytes` of an `n`-byte integer). -/
def beBytes : Nat → Nat → Bytes
  | 0, _ => []
  | n + 1, x => UInt8.ofNat (x / 256 ^ n) :: beBytes n x

/-- The value of big-endian bytes. -/
def beNat (bs : Bytes) : Nat := bs.foldl (fun acc b => acc * 256 + b.toNat) 0

@[simp] theorem beBytes_length (n x : Nat) : (beBytes n x).length = n := by
  induction n with
  | zero => rfl
  | succ n ih => simp [beBytes, ih]

private theorem beNat_foldl (bs : Bytes) (a : Nat) :
    bs.foldl (fun acc b => acc * 256 + b.toNat) a = a * 256 ^ bs.length + beNat bs := by
  induction bs generalizing a with
  | nil => simp [beNat]
  | cons b bs ih =>
    have hb : beNat (b :: bs) = b.toNat * 256 ^ bs.length + beNat bs := by
      rw [beNat, List.foldl_cons, ih, Nat.zero_mul, Nat.zero_add]
    rw [List.foldl_cons, ih, hb, List.length_cons, pow_succ]
    ring

@[simp] theorem UInt8.toNat_ofNat' (n : Nat) : (UInt8.ofNat n).toNat = n % 256 :=
  BitVec.toNat_ofNat n 8

theorem beNat_beBytes (n x : Nat) : beNat (beBytes n x) = x % 256 ^ n := by
  induction n with
  | zero => simp [beBytes, beNat, Nat.mod_one]
  | succ n ih =>
    rw [beBytes, beNat, List.foldl_cons, beNat_foldl, ih, beBytes_length, Nat.mod_pow_succ]
    simp only [Nat.zero_mul, Nat.zero_add, UInt8.toNat_ofNat']
    ring

theorem beNat_lt (bs : Bytes) : beNat bs < 256 ^ bs.length := by
  induction bs using List.reverseRecOn with
  | nil => simp [beNat]
  | append_singleton bs b ih =>
    rw [beNat, List.foldl_append, ← beNat, List.foldl_cons, List.foldl_nil, List.length_append,
      List.length_singleton, pow_succ]
    have hb : b.toNat < 256 := b.toNat_lt_size
    calc beNat bs * 256 + b.toNat < beNat bs * 256 + 256 := by omega
      _ = (beNat bs + 1) * 256 := by ring
      _ ≤ 256 ^ bs.length * 256 := Nat.mul_le_mul_right _ ih

/-! ## Rows -/

/-- `to_be_bytes` of a `u32`. -/
def u32Bytes (x : UInt32) : Bytes := beBytes 4 x.toNat

/-- `to_be_bytes` of a `u64`. -/
def u64Bytes (x : UInt64) : Bytes := beBytes 8 x.toNat

/-- `RowToWrite` (`common.rs`). -/
structure RowToWrite where
  crc : UInt32
  timestamp : UInt64
  keySize : UInt64
  valueSize : UInt64
  key : Bytes
  value : Bytes
  size : UInt64
  deriving DecidableEq, Repr

/-- `RowToWrite::new_with_timestamp`: the sizes are `len() as u64`, and the digest is fed the
    timestamp, the sizes, the key and the value, in that order. -/
def RowToWrite.newWithTimestamp (key value : Bytes) (timestamp : UInt64) : RowToWrite :=
  let keySize := UInt64.ofNat key.length
  let valueSize := UInt64.ofNat value.length
  let ck := crcUpdate 0 (u64Bytes timestamp)
  let ck := crcUpdate ck (u64Bytes keySize)
  let ck := crcUpdate ck (u64Bytes valueSize)
  let ck := crcUpdate ck key
  let ck := crcUpdate ck value
  { crc := crcFinalize ck, timestamp, keySize, valueSize, key, value,
    size := UInt64.ofNat dataFileKeyOffset + keySize + valueSize }

/-- `RowToWrite::new`: the timestamp is the clock's reading. -/
def RowToWrite.new (key value : Bytes) (now : UInt64) : RowToWrite :=
  RowToWrite.newWithTimestamp key value now

/-- `RowToWrite::to_bytes`. -/
def RowToWrite.toBytes (r : RowToWrite) : Bytes :=
  u32Bytes r.crc ++ u64Bytes r.timestamp ++ u64Bytes r.keySize ++ u64Bytes r.valueSize ++
    r.key ++ r.value

/-- What the formatter decodes from one row. -/
structure DecodedRow where
  timestamp : UInt64
  key : Bytes
  value : Bytes
  size : Nat
  deriving DecidableEq, Repr

/-- Modelled from the spec: decode the row at the front of `bs` (the formatter is not in the
    repository). Read the 28-byte header, then `key_size + value_size` bytes; fail with
    `CrcCheckFailed` when the CRC of the bytes from the timestamp to the end of the value differs
    from the stored one. Bytes after the row are ignored. -/
def decodeRow (bs : Bytes) : Except FormatterError DecodedRow :=
  let header := bs.take dataFileKeyOffset
  if header.length < dataFileKeyOffset then .error .rowTruncated else
  let keySize := beNat ((header.drop 12).take 8)
  let valueSize := beNat (header.drop 20)
  let size := dataFileKeyOffset + keySize + valueSize
  if bs.length < size then .error .rowTruncated else
  let expected := UInt32.ofNat (beNat (header.take 4))
  let actual := crc32Cksum ((bs.take size).drop 4)
  if expected = actual then
    .ok { timestamp := UInt64.ofNat (beNat ((header.drop 4).take 8)),
          key := (bs.drop dataFileKeyOffset).take keySize,
          value := (bs.drop (dataFileKeyOffset + keySize)).take valueSize,
          size }
  else .error (.crcCheckFailed expected actual)

/-- Decoding a byte string laid out as a row: a 4-byte CRC, 8-byte timestamp and sizes, the
    key and value the sizes announce, then anything. -/
theorem decodeRow_of_parts {c t k v key value : Bytes} (rest : Bytes) (hc : c.length = 4)
    (ht : t.length = 8) (hk : k.length = 8) (hv : v.length = 8)
    (hks : beNat k = key.length) (hvs : beNat v = value.length)
    (hcrc : UInt32.ofNat (beNat c) = crc32Cksum (t ++ k ++ v ++ key ++ value)) :
    decodeRow (c ++ t ++ k ++ v ++ key ++ value ++ rest) =
      .ok ⟨UInt64.ofNat (beNat t), key, value, dataFileKeyOffset + key.length + value.length⟩ := by
  have hH : (c ++ t ++ k ++ v).length = dataFileKeyOffset := by
    simp [hc, ht, hk, hv, dataFileKeyOffset]
  have hheader : (c ++ t ++ k ++ v ++ key ++ value ++ rest).take dataFileKeyOffset = c ++ t ++ k ++ v := by
    rw [List.append_assoc, List.append_assoc, List.take_left' hH]
  have hbody : (c ++ t ++ k ++ v ++ key ++ value ++ rest).drop dataFileKeyOffset = key ++ value ++ rest := by
    rw [List.append_assoc, List.append_assoc, List.drop_left' hH, List.append_assoc]
  have hrow : (c ++ t ++ k ++ v ++ key ++ value ++ rest).take (dataFileKeyOffset + key.length + value.length) = c ++ t ++ k ++ v ++ key ++ value :=
    List.take_left' (by simp [hc, ht, hk, hv, dataFileKeyOffset]; omega)
  have h12 : (c ++ t ++ k ++ v).drop 12 = k ++ v := by
    rw [List.append_assoc, List.drop_left' (by simp [hc, ht])]
  have h20 : (c ++ t ++ k ++ v).drop 20 = v := List.drop_left' (by simp [hc, ht, hk])
  have h4 : (c ++ t ++ k ++ v).drop 4 = t ++ k ++ v := by
    rw [List.append_assoc, List.append_assoc, List.drop_left' hc, List.append_assoc]
  have hlen : ¬ (c ++ t ++ k ++ v ++ key ++ value ++ rest).length <
      dataFileKeyOffset + key.length + value.length := by
    simp [hc, ht, hk, hv, dataFileKeyOffset]; omega
  have hc4 : (c ++ t ++ k ++ v).take 4 = c := by
    rw [List.append_assoc, List.append_assoc, List.take_left' hc]
  have hcrc4 : (c ++ t ++ k ++ v ++ key ++ value).drop 4 = t ++ k ++ v ++ key ++ value := by
    simp only [List.append_assoc, List.drop_left' hc]
  have ht8 : ((c ++ t ++ k ++ v).drop 4).take 8 = t := by
    rw [h4, List.append_assoc, List.take_left' ht]
  have hval : (c ++ t ++ k ++ v ++ key ++ value ++ rest).drop (dataFileKeyOffset + key.length) =
      value ++ rest := by
    rw [← List.drop_drop, hbody, List.append_assoc, List.drop_left' rfl]
  have hkey : (key ++ value ++ rest).take key.length = key := by
    rw [List.append_assoc, List.take_left' rfl]
  simp only [decodeRow, hheader, hH, lt_irrefl, if_false, h12, List.take_left' hk, h20, hks, hvs,
    hrow, hlen, hc4, hcrc4, ← hcrc, if_true, hbody, hkey, hval, List.take_left' rfl, ht8]
theorem UInt64.ofNat_toNat' (a : UInt64) : UInt64.ofNat a.toNat = a :=
  UInt64.toNat.inj (UInt64.toNat_ofNat_of_lt a.toNat_lt_size)

theorem UInt32.ofNat_toNat' (a : UInt32) : UInt32.ofNat a.toNat = a :=
  UInt32.toNat.inj (UInt32.toNat_ofNat_of_lt a.toNat_lt_size)

theorem beNat_u64Bytes (x : UInt64) : beNat (u64Bytes x) = x.toNat := by
  rw [u64Bytes, beNat_beBytes]
  exact Nat.mod_eq_of_lt x.toNat_lt_size

theorem beNat_u32Bytes (x : UInt32) : beNat (u32Bytes x) = x.toNat := by
  rw [u32Bytes, beNat_beBytes]
  exact Nat.mod_eq_of_lt x.toNat_lt_size

theorem RowToWrite.toBytes_length (r : RowToWrite) :
    r.toBytes.length = dataFileKeyOffset + r.key.length + r.value.length := by
  simp [toBytes, u32Bytes, u64Bytes, dataFileKeyOffset]
  omega

/-- **Row round trip.** Decoding the bytes of a freshly built row, followed by anything, gives
    back its timestamp, key and value, and the row's length. -/
theorem decodeRow_toBytes_append (key value rest : Bytes) (ts : UInt64)
    (hk : key.length < 2 ^ 64) (hv : value.length < 2 ^ 64) :
    decodeRow ((RowToWrite.newWithTimestamp key value ts).toBytes ++ rest) =
      .ok ⟨ts, key, value, dataFileKeyOffset + key.length + value.length⟩ := by
  have hsize (n : Nat) (h : n < 2 ^ 64) : beNat (u64Bytes (UInt64.ofNat n)) = n := by
    rw [beNat_u64Bytes, UInt64.toNat_ofNat_of_lt h]
  have h := decodeRow_of_parts rest (by simp [u32Bytes]) (by simp [u64Bytes])
    (by simp [u64Bytes]) (by simp [u64Bytes]) (hsize _ hk) (hsize _ hv)
    (c := u32Bytes (RowToWrite.newWithTimestamp key value ts).crc) (t := u64Bytes ts) (by
      simp only [beNat_u32Bytes, UInt32.ofNat_toNat', RowToWrite.newWithTimestamp, crc32Cksum,
        crcUpdate_append])
  rwa [beNat_u64Bytes, UInt64.ofNat_toNat'] at h

/-- A row that decodes is at least a header long. -/
theorem decodeRow_ok_length {bs : Bytes} {r : DecodedRow} (h : decodeRow bs = .ok r) :
    dataFileKeyOffset ≤ bs.length := by
  unfold decodeRow at h
  by_contra hlt
  simp [show bs.length < dataFileKeyOffset by omega] at h

/-- A decoded value is shorter than what its 8-byte size field can announce. -/
theorem decodeRow_value_length {bs : Bytes} {r : DecodedRow} (h : decodeRow bs = .ok r) :
    r.value.length < 2 ^ 64 := by
  unfold decodeRow at h
  simp only at h
  split_ifs at h
  obtain rfl := (Except.ok.inj h).symm
  have h8 : ((bs.take dataFileKeyOffset).drop 20).length ≤ 8 := by simp [dataFileKeyOffset]
  calc _ ≤ beNat ((bs.take dataFileKeyOffset).drop 20) := by simp
    _ < 256 ^ ((bs.take dataFileKeyOffset).drop 20).length := beNat_lt _
    _ ≤ 256 ^ 8 := Nat.pow_le_pow_right (by norm_num) h8
    _ = 2 ^ 64 := by norm_num

/-- A row decodes from its own bytes: nothing after it is read. -/
theorem decodeRow_take {bs : Bytes} {r : DecodedRow} (h : decodeRow bs = .ok r) :
    r.size ≤ bs.length ∧ decodeRow (bs.take r.size) = .ok r := by
  unfold decodeRow at h ⊢
  simp only at h ⊢
  split_ifs at h with h1 h2 h3
  obtain rfl := (Except.ok.inj h).symm
  simp only [not_lt, List.length_take] at h1 h2
  dsimp only
  generalize hks : beNat (((bs.take dataFileKeyOffset).drop 12).take 8) = ks at *
  generalize hvs : beNat ((bs.take dataFileKeyOffset).drop 20) = vs at *
  have hh : (bs.take (dataFileKeyOffset + ks + vs)).take dataFileKeyOffset = bs.take dataFileKeyOffset := by
    rw [List.take_take, Nat.min_eq_left (by omega)]
  have hlen : (bs.take (dataFileKeyOffset + ks + vs)).length = dataFileKeyOffset + ks + vs := by
    simp only [List.length_take]; omega
  refine ⟨h2, ?_⟩
  rw [hh, hks, hvs, hlen, List.take_take (dataFileKeyOffset + ks + vs), Nat.min_self,
    if_neg (by simp only [List.length_take]; omega), if_neg (lt_irrefl _), if_pos h3]
  congr 2 <;> rw [List.drop_take, List.take_take, Nat.min_eq_left (by omega)]

/-- A row cut short anywhere before its end is reported truncated. -/
theorem decodeRow_take_lt {bs : Bytes} {r : DecodedRow} (h : decodeRow bs = .ok r) {n : Nat}
    (hn : n < r.size) : decodeRow (bs.take n) = .error .rowTruncated := by
  unfold decodeRow at h ⊢
  simp only at h ⊢
  split_ifs at h with h1 h2
  obtain rfl := (Except.ok.inj h).symm
  dsimp only at hn
  by_cases h28 : n < dataFileKeyOffset
  · rw [if_pos (by simp only [List.length_take]; omega)]
  · have hh : (bs.take n).take dataFileKeyOffset = bs.take dataFileKeyOffset := by
      rw [List.take_take, Nat.min_eq_left (by omega)]
    rw [hh, if_neg h1, if_pos (by simp only [List.length_take]; omega)]

/-! ## The sequential scan -/

/-- `RowToRead` (`common.rs`): a row as the sequential scan returns it. -/
structure RowToRead where
  key : Bytes
  value : Bytes
  rowPosition : RowLocation
  timestamp : UInt64
  deriving DecidableEq, Repr

/-- Modelled from the spec: `read_next_row` repeated by `StorageIter::next` from `offset`. The
    scan ends at the end of the file, and at the first row that does not decode (the iterator
    logs the error and returns `None`). `fuel` bounds the number of rows. -/
def scanRows (id : FileId) : Nat → Bytes → Nat → List RowToRead
  | 0, _, _ => []
  | fuel + 1, bs, offset =>
    match bs.drop offset with
    | [] => []
    | rest =>
      match decodeRow rest with
      | .error _ => []
      | .ok r => ⟨r.key, r.value, ⟨id, offset, r.size⟩, r.timestamp⟩ ::
          scanRows id fuel bs (offset + r.size)

/-- All rows of a data file's bytes, read after the file header. Every row is at least
    `dataFileKeyOffset` bytes long, so the file's length is enough fuel. -/
def scanFile (id : FileId) (bs : Bytes) : List RowToRead :=
  scanRows id bs.length bs fileHeaderSize

/-- The scan stops where the bytes do not decode as a row: the end of the file included. -/
theorem scanRows_of_decodeRow_error {id : FileId} {fuel offset : Nat} {bs : Bytes} {e : FormatterError}
    (h : decodeRow (bs.drop offset) = .error e) : scanRows id fuel bs offset = [] := by
  cases fuel with
  | zero => rfl
  | succ fuel =>
    simp only [scanRows]
    split
    · rfl
    · simp only [h]

/-- Every row the scan yields lies inside the file and decodes from its own bytes where it says it
    starts. -/
theorem scanRows_sound {id : FileId} {fuel offset : Nat} {bs : Bytes} {row : RowToRead}
    (h : row ∈ scanRows id fuel bs offset) :
    row.rowPosition.fileId = id ∧ row.rowPosition.rowOffset + row.rowPosition.rowSize ≤ bs.length ∧
      decodeRow ((bs.drop row.rowPosition.rowOffset).take row.rowPosition.rowSize) =
        .ok ⟨row.timestamp, row.key, row.value, row.rowPosition.rowSize⟩ := by
  induction fuel generalizing offset with
  | zero => exact absurd h (List.not_mem_nil _)
  | succ fuel ih =>
    unfold scanRows at h
    split at h
    · exact absurd h (List.not_mem_nil _)
    · split at h
      · exact absurd h (List.not_mem_nil _)
      · rename_i r hdec
        rcases List.mem_cons.mp h with rfl | h
        · obtain ⟨hle, htake⟩ := decodeRow_take hdec
          refine ⟨rfl, ?_, htake⟩
          simp only [List.length_drop] at hle
          show offset + r.size ≤ bs.length
          have := decodeRow_ok_length hdec
          simp only [List.length_drop, dataFileKeyOffset] at this
          omega
        · exact ih h

/-- The scan yields at most one row per unit of fuel. -/
theorem scanRows_length_le (id : FileId) (fuel : Nat) (bs : Bytes) (offset : Nat) :
    (scanRows id fuel bs offset).length ≤ fuel := by
  induction fuel generalizing offset with
  | zero => exact le_refl _
  | succ fuel ih =>
    unfold scanRows
    split
    · exact Nat.zero_le _
    · split
      · exact Nat.zero_le _
      · exact Nat.succ_le_succ (ih _)

end Bitcask
