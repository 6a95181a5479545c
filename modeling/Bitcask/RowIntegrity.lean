import Bitcask.Codec

set_option autoImplicit false

/-! # What the row encoding guarantees

`RowToWrite::to_bytes` lays a row out as `crc | timestamp | key_size | value_size | key | value`,
big-endian, and `new_with_timestamp` computes the CRC over everything after the CRC field, in
the order `to_bytes` writes it. So the row is self-delimiting (its header announces its length),
and the CRC recomputed over bytes `4 .. size` is the stored one.

The CRC also catches every single-byte corruption of those bytes. The register update is linear
in exclusive or: one shift of the register is (`crcShift_xor`), and the table step `crcByte` is
eight shifts of the register with the byte in its top octet (`crcByte_eq_crcShifts`). A shift
sends no nonzero register to zero, because the polynomial `0x04C11DB7` has a constant term
(`crcShift_eq_zero`). Two messages that differ in one byte therefore differ in the register right
after that byte, and stay different through every later byte (`crc32Cksum_single_byte`). -/

namespace Bitcask

/-! ## Exclusive or on the register -/

theorem UInt32.toBitVec_xor' (a b : UInt32) : (a ^^^ b).toBitVec = a.toBitVec ^^^ b.toBitVec := rfl

theorem UInt32.toBitVec_shl8 (a : UInt32) : (a <<< 8).toBitVec = a.toBitVec <<< 8 := rfl

theorem UInt32.toBitVec_shl24 (a : UInt32) : (a <<< 24).toBitVec = a.toBitVec <<< 24 := rfl

theorem UInt32.toBitVec_shr8 (a : UInt32) : (a >>> 8).toBitVec = a.toBitVec >>> 8 := rfl

theorem UInt32.toBitVec_shr24 (a : UInt32) : (a >>> 24).toBitVec = a.toBitVec >>> 24 := rfl

theorem xor_xor_cancel (a b p : BitVec 32) : (a ^^^ p) ^^^ (b ^^^ p) = a ^^^ b := by
  rw [show (a ^^^ p) ^^^ (b ^^^ p) = (a ^^^ b) ^^^ (p ^^^ p) by ac_rfl, BitVec.xor_self,
    BitVec.xor_zero]

theorem UInt32.xor_self' (a : UInt32) : a ^^^ a = 0 := UInt32.eq_of_toBitVec_eq BitVec.xor_self

theorem UInt32.eq_of_xor_eq_zero {a b : UInt32} (h : a ^^^ b = 0) : a = b := by
  apply UInt32.eq_of_toBitVec_eq
  have h' : a.toBitVec ^^^ b.toBitVec = 0#32 := congrArg UInt32.toBitVec h
  calc a.toBitVec = (a.toBitVec ^^^ b.toBitVec) ^^^ b.toBitVec := by
        rw [BitVec.xor_assoc, BitVec.xor_self, BitVec.xor_zero]
    _ = b.toBitVec := by rw [h', BitVec.zero_xor]

theorem UInt32.xor_right_cancel' {c a b : UInt32} (h : a ^^^ c = b ^^^ c) : a = b := by
  apply UInt32.eq_of_xor_eq_zero
  apply UInt32.eq_of_toBitVec_eq
  rw [UInt32.toBitVec_xor', ← xor_xor_cancel _ _ c.toBitVec, ← UInt32.toBitVec_xor',
    ← UInt32.toBitVec_xor', h]
  exact BitVec.xor_self

/-! ## One shift of the register -/

/-- The test of `crc_shift`'s top bit reads bit 31 of the register. -/
theorem UInt32.and_top_eq_zero_iff (c : UInt32) :
    c &&& 0x80000000 = 0 ↔ c.toBitVec.getLsbD 31 = false := by
  have hm : ∀ i, (0x80000000#32).getLsbD i = decide (i = 31) := by
    intro i
    rw [BitVec.getLsbD_ofNat, show (0x80000000 : Nat) = 2 ^ 31 from rfl, Nat.testBit_two_pow]
    by_cases h : i = 31 <;> simp [h]; omega
  have hc : (c &&& 0x80000000).toBitVec = c.toBitVec &&& 0x80000000#32 := rfl
  constructor
  · intro h
    simpa [hc, hm] using congrArg (fun x : UInt32 => x.toBitVec.getLsbD 31) h
  · intro h
    apply UInt32.eq_of_toBitVec_eq
    rw [hc]
    ext i
    simp only [BitVec.getLsbD_and, hm]
    by_cases hi : (i : Nat) = 31
    · rw [hi, h]; rfl
    · simp [hi]

theorem crcShift_toBitVec (c : UInt32) : (crcShift c).toBitVec =
    if c.toBitVec.getLsbD 31 then (c.toBitVec <<< 1) ^^^ 0x04C11DB7#32 else c.toBitVec <<< 1 := by
  unfold crcShift
  by_cases h : c.toBitVec.getLsbD 31 <;> simp [UInt32.and_top_eq_zero_iff, h] <;> rfl

/-- **A shift of the register is linear in exclusive or.** -/
theorem crcShift_xor (a b : UInt32) : crcShift (a ^^^ b) = crcShift a ^^^ crcShift b := by
  apply UInt32.eq_of_toBitVec_eq
  simp only [UInt32.toBitVec_xor', crcShift_toBitVec, BitVec.getLsbD_xor,
    BitVec.shiftLeft_xor_distrib]
  cases a.toBitVec.getLsbD 31 <;> cases b.toBitVec.getLsbD 31 <;> simp
  · ac_rfl
  · ac_rfl
  · exact (xor_xor_cancel _ _ _).symm

/-- Only the zero register shifts to zero: the polynomial's low bit is set. -/
theorem crcShift_eq_zero {c : UInt32} (h : crcShift c = 0) : c = 0 := by
  have hb := congrArg UInt32.toBitVec h
  rw [crcShift_toBitVec] at hb
  apply UInt32.eq_of_toBitVec_eq
  split at hb
  · -- the shifted register's low bit is clear, the polynomial's is set
    simpa using congrArg (·.getLsbD 0) hb
  · rename_i htop
    ext i
    by_cases hi : (i : Nat) = 31
    · rw [hi]; simpa using htop
    · have := congrArg (·.getLsbD ((i : Nat) + 1)) hb
      simp at this
      rw [this (by omega)]
      exact BitVec.getLsbD_zero.symm

/-! ## Eight shifts: the table step -/

theorem crcShifts_xor (n : Nat) (a b : UInt32) :
    crcShifts n (a ^^^ b) = crcShifts n a ^^^ crcShifts n b := by
  induction n with
  | zero => rfl
  | succ n ih => simp only [crcShifts, ih, crcShift_xor]

theorem crcShifts_eq_zero {n : Nat} {c : UInt32} (h : crcShifts n c = 0) : c = 0 := by
  induction n with
  | zero => exact h
  | succ n ih => exact ih (crcShift_eq_zero h)

theorem crcShifts_injective {n : Nat} {a b : UInt32} (h : crcShifts n a = crcShifts n b) :
    a = b :=
  UInt32.eq_of_xor_eq_zero (crcShifts_eq_zero (n := n) (by rw [crcShifts_xor, h, UInt32.xor_self']))

/-- A register whose top byte is clear only moves up through eight shifts. -/
theorem crcShifts_of_top_clear {y : UInt32} (hy : ∀ j, 24 ≤ j → y.toBitVec.getLsbD j = false) :
    ∀ k, k ≤ 8 → (crcShifts k y).toBitVec = y.toBitVec <<< k
  | 0, _ => (BitVec.shiftLeft_zero _).symm
  | k + 1, hk => by
    rw [crcShifts, crcShift_toBitVec, crcShifts_of_top_clear hy k (by omega)]
    have : (y.toBitVec <<< k).getLsbD 31 = false := by
      simp [hy (31 - k) (by omega)]
    rw [this, if_neg Bool.false_ne_true, BitVec.shiftLeft_add]

/-- A register is its top byte and its low 24 bits. -/
theorem split_top_byte (x : BitVec 32) : x = ((x >>> 24) <<< 24) ^^^ ((x <<< 8) >>> 8) := by
  ext i
  simp only [BitVec.getLsbD_xor, BitVec.getLsbD_shiftLeft, BitVec.getLsbD_ushiftRight]
  by_cases h : (i : Nat) < 24
  · simp [h, show ¬ 8 + (i : Nat) < 8 by omega, show 8 + (i : Nat) < 32 by omega]
  · simp [h, show 24 + ((i : Nat) - 24) = i by omega, show ¬ 8 + (i : Nat) < 32 by omega]

/-- Clearing the top byte and moving the rest up is moving all of it up. -/
theorem shl8_ushiftRight8_shl8 (y : BitVec 32) : ((y <<< 8) >>> 8) <<< 8 = y <<< 8 := by
  ext i
  simp only [BitVec.getLsbD_shiftLeft, BitVec.getLsbD_ushiftRight]
  by_cases h : (i : Nat) < 8
  · simp [h]
  · simp [h, show 8 + ((i : Nat) - 8) = i by omega]

/-- **The table step is eight shifts of the register with the byte in its top octet.** -/
theorem crcByte_eq_crcShifts (c : UInt32) (b : UInt8) :
    crcByte c b = crcShifts 8 (c ^^^ (b.toUInt32 <<< 24)) := by
  have hb8 : b.toUInt32.toBitVec.toNat < 256 := b.toBitVec.isLt
  have hb : (b.toUInt32.toBitVec <<< 24) >>> 24 = b.toUInt32.toBitVec := by
    apply BitVec.eq_of_toNat_eq
    simp only [BitVec.toNat_ushiftRight, BitVec.toNat_shiftLeft]
    omega
  have hb32 : (b.toUInt32.toBitVec <<< 24) <<< 8 = 0#32 := by
    apply BitVec.eq_of_toNat_eq
    simp only [BitVec.toNat_shiftLeft, BitVec.toNat_ofNat]
    omega
  -- the register fed with the byte, split into its top byte and the rest
  have hsplit : c ^^^ (b.toUInt32 <<< 24) = ((c >>> 24) ^^^ b.toUInt32) <<< 24 ^^^
      ((c ^^^ (b.toUInt32 <<< 24)) <<< 8) >>> 8 := by
    apply UInt32.eq_of_toBitVec_eq
    simp only [UInt32.toBitVec_xor', UInt32.toBitVec_shl24, UInt32.toBitVec_shr24,
      UInt32.toBitVec_shr8, UInt32.toBitVec_shl8]
    have h := split_top_byte (c.toBitVec ^^^ b.toUInt32.toBitVec <<< 24)
    rwa [BitVec.ushiftRight_xor_distrib, hb] at h
  -- the rest only moves up, which is `c <<< 8`
  have hlo : (crcShifts 8 (((c ^^^ (b.toUInt32 <<< 24)) <<< 8) >>> 8)).toBitVec =
      (c <<< 8).toBitVec := by
    rw [crcShifts_of_top_clear (fun j hj => by
      simp [UInt32.toBitVec_shr8, UInt32.toBitVec_shl8, show ¬ 8 + j < 32 by omega]) 8 le_rfl]
    rw [UInt32.toBitVec_shr8, UInt32.toBitVec_shl8, shl8_ushiftRight8_shl8, UInt32.toBitVec_xor',
      BitVec.shiftLeft_xor_distrib, UInt32.toBitVec_shl24, hb32, BitVec.xor_zero,
      UInt32.toBitVec_shl8]
  rw [hsplit, crcShifts_xor]
  apply UInt32.eq_of_toBitVec_eq
  rw [UInt32.toBitVec_xor', hlo, crcByte, UInt32.toBitVec_xor', crcTable]
  exact BitVec.xor_comm _ _

/-! ## Single-byte changes -/

/-- Two registers fed the same byte stay different. -/
theorem crcByte_left_injective {c₁ c₂ : UInt32} {b : UInt8} (h : crcByte c₁ b = crcByte c₂ b) :
    c₁ = c₂ := by
  rw [crcByte_eq_crcShifts, crcByte_eq_crcShifts] at h
  exact UInt32.xor_right_cancel' (crcShifts_injective h)

/-- One register fed two different bytes gives two different registers. -/
theorem crcByte_right_injective {c : UInt32} {x y : UInt8} (h : crcByte c x = crcByte c y) :
    x = y := by
  rw [crcByte_eq_crcShifts, crcByte_eq_crcShifts] at h
  have h₁ : x.toUInt32 <<< 24 ^^^ c = y.toUInt32 <<< 24 ^^^ c := by
    have := crcShifts_injective h
    apply UInt32.eq_of_toBitVec_eq
    simpa only [UInt32.toBitVec_xor', BitVec.xor_comm c.toBitVec] using
      congrArg UInt32.toBitVec this
  have h₂ := congrArg (fun z : UInt32 => z.toBitVec.toNat) (UInt32.xor_right_cancel' h₁)
  have hx : x.toUInt32.toBitVec.toNat < 256 := x.toBitVec.isLt
  have hy : y.toUInt32.toBitVec.toNat < 256 := y.toBitVec.isLt
  simp only [UInt32.toBitVec_shl24, BitVec.toNat_shiftLeft] at h₂
  exact UInt8.toNat.inj (by change x.toUInt32.toBitVec.toNat = y.toUInt32.toBitVec.toNat; omega)

/-- Feeding the same bytes to two different registers keeps them different. -/
theorem crcUpdate_left_injective {c₁ c₂ : UInt32} {s : Bytes}
    (h : crcUpdate c₁ s = crcUpdate c₂ s) : c₁ = c₂ := by
  induction s generalizing c₁ c₂ with
  | nil => exact h
  | cons b s ih => exact crcByte_left_injective (ih h)

/-- **CRC-32/CKSUM detects every single-byte change**, at any position of any message. -/
theorem crc32Cksum_single_byte {p s : Bytes} {x y : UInt8}
    (h : crc32Cksum (p ++ x :: s) = crc32Cksum (p ++ y :: s)) : x = y := by
  simp only [crc32Cksum, crcFinalize, crcUpdate_append] at h
  exact crcByte_right_injective (crcUpdate_left_injective (UInt32.xor_right_cancel' h))

/-- A byte changed anywhere in a message changes its CRC. -/
theorem crc32Cksum_set_ne {bs : Bytes} {i : Nat} (hi : i < bs.length) {b : UInt8}
    (hb : b ≠ bs[i]) : crc32Cksum (bs.set i b) ≠ crc32Cksum bs := by
  intro h
  have hset := List.set_eq_take_append_cons_drop (l := bs) (n := i) (a := b)
  rw [if_pos hi] at hset
  have hbs : bs = bs.take i ++ bs[i] :: bs.drop (i + 1) := by
    rw [← List.drop_eq_getElem_cons hi, List.take_append_drop]
  rw [hset] at h
  conv at h => rhs; rw [hbs]
  exact hb (crc32Cksum_single_byte h)

/-! ## The encoding of a row -/

namespace RowToWrite

variable (key value : Bytes) (ts : UInt64)

/-- The fields of `to_bytes`, each at its width, with the sizes the lengths themselves. -/
theorem toBytes_layout (hk : key.length < 2 ^ 64) (hv : value.length < 2 ^ 64) :
    (newWithTimestamp key value ts).toBytes =
      beBytes 4 (newWithTimestamp key value ts).crc.toNat ++ beBytes 8 ts.toNat ++
        beBytes 8 key.length ++ beBytes 8 value.length ++ key ++ value := by
  simp only [toBytes, newWithTimestamp, u32Bytes, u64Bytes,
    UInt64.toNat_ofNat_of_lt (show key.length < UInt64.size from hk),
    UInt64.toNat_ofNat_of_lt (show value.length < UInt64.size from hv)]

/-- `size` is the encoding's length, as a `u64`. -/
theorem size_eq_length :
    (newWithTimestamp key value ts).size = UInt64.ofNat (newWithTimestamp key value ts).toBytes.length := by
  rw [toBytes_length]
  apply UInt64.eq_of_toBitVec_eq
  show BitVec.ofNat 64 dataFileKeyOffset + BitVec.ofNat 64 key.length +
    BitVec.ofNat 64 value.length = _
  rw [BitVec.ofNat_add_ofNat, BitVec.ofNat_add_ofNat]
  rfl

/-- The stored CRC is CRC-32/CKSUM of the encoding from offset `4` to its end. -/
theorem crc_eq_crc32Cksum :
    (newWithTimestamp key value ts).crc = crc32Cksum ((newWithTimestamp key value ts).toBytes.drop 4) := by
  simp only [toBytes, List.append_assoc]
  rw [List.drop_left' (by simp [u32Bytes])]
  simp only [crc32Cksum, crcUpdate_append]
  rfl

/-- A single byte changed past the CRC field: the CRC read from the first four bytes differs from
    the one recomputed from byte `4` to the end. -/
theorem crc_detects_set {i : Nat} (hi : i < (newWithTimestamp key value ts).toBytes.length)
    (b : UInt8) (h4 : 4 ≤ i) (hb : b ≠ (newWithTimestamp key value ts).toBytes[i]) :
    UInt32.ofNat (beNat (((newWithTimestamp key value ts).toBytes.set i b).take 4)) ≠
      crc32Cksum (((newWithTimestamp key value ts).toBytes.set i b).drop 4) := by
  have htake : ((newWithTimestamp key value ts).toBytes.set i b).take 4 =
      u32Bytes (newWithTimestamp key value ts).crc := by
    rw [List.set_take, List.set_eq_of_length_le (by simp; omega)]
    simp only [toBytes, List.append_assoc]
    exact List.take_left' (by simp [u32Bytes])
  rw [htake, beNat_u32Bytes, UInt32.ofNat_toNat', crc_eq_crc32Cksum, List.drop_set,
    if_neg (by omega)]
  refine Ne.symm (crc32Cksum_set_ne (i := i - 4) (by simp only [List.length_drop]; omega) ?_)
  simpa [List.getElem_drop, show 4 + (i - 4) = i by omega] using hb

end RowToWrite

/-- **The row encoding is exact, self-delimiting and CRC-consistent.** For every key and value
    (whose lengths a `u64` holds, as every `Vec`'s does) and every timestamp, `to_bytes` is
    `BE32(crc) ++ BE64(ts) ++ BE64(|key|) ++ BE64(|value|) ++ key ++ value`, of length
    `28 + |key| + |value|`, which `size` holds; the CRC is CRC-32/CKSUM of the bytes from offset
    `4` to the end; reading the header and then `key_size + value_size` bytes of the encoding
    followed by any `rest` gives back the timestamp, key and value and leaves exactly `rest`;
    and any single byte changed at positions `4` to `size - 1` makes the stored CRC differ from
    the recomputed one. -/
theorem row_encoding_exact (key value rest : Bytes) (ts : UInt64)
    (hk : key.length < 2 ^ 64) (hv : value.length < 2 ^ 64) :
    let row := RowToWrite.newWithTimestamp key value ts
    row.toBytes = beBytes 4 row.crc.toNat ++ beBytes 8 ts.toNat ++ beBytes 8 key.length ++
        beBytes 8 value.length ++ key ++ value ∧
      row.toBytes.length = dataFileKeyOffset + key.length + value.length ∧
      row.size = UInt64.ofNat row.toBytes.length ∧
      row.crc = crc32Cksum (row.toBytes.drop 4) ∧
      decodeRow (row.toBytes ++ rest) =
        .ok ⟨ts, key, value, dataFileKeyOffset + key.length + value.length⟩ ∧
      (row.toBytes ++ rest).drop (dataFileKeyOffset + key.length + value.length) = rest ∧
      ∀ i (hi : i < row.toBytes.length) (b : UInt8), 4 ≤ i → b ≠ row.toBytes[i] →
        UInt32.ofNat (beNat ((row.toBytes.set i b).take 4)) ≠
          crc32Cksum ((row.toBytes.set i b).drop 4) :=
  ⟨RowToWrite.toBytes_layout key value ts hk hv, RowToWrite.toBytes_length _,
    RowToWrite.size_eq_length key value ts, RowToWrite.crc_eq_crc32Cksum key value ts,
    decodeRow_toBytes_append key value rest ts hk hv,
    List.drop_left' (RowToWrite.toBytes_length _),
    fun _ hi b h4 hb => RowToWrite.crc_detects_set key value ts hi b h4 hb⟩

/-- The row of key `a` and value `x` at time `7`: its CRC covers bytes `4 ..`, and it decodes
    back from in front of a trailing byte. -/
theorem row_encoding_exact_sample :
    let row := RowToWrite.newWithTimestamp [97] [120] 7
    row.crc = crc32Cksum (row.toBytes.drop 4) ∧
      decodeRow (row.toBytes ++ [0]) = .ok ⟨7, [97], [120], 30⟩ :=
  let h := row_encoding_exact [97] [120] [0] 7 (by decide) (by decide)
  ⟨h.2.2.2.1, h.2.2.2.2.1⟩

end Bitcask
