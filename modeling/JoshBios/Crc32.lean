import JoshBios.Lib.Bytes

/-!
# CRC-32

`firmware/update.c`, `boot/core/health.c` and `boot/core/partition.c` each carry a copy of the
bitwise reflected CRC-32. The loops over bytes and bits are alike in all three and are written once,
over the step for one bit (`crcLoop`). The step is each copy's own, as the mask is computed in two
ways: the first two copies negate a signed number, the third subtracts from zero (`signedMask_eq`).
-/

namespace JoshBios

/-- The eight turns of the inner loop. -/
def crcByte (bit : UInt32 → UInt32) (crc : UInt32) (byte : UInt8) : UInt32 :=
  bit (bit (bit (bit (bit (bit (bit (bit (crc ^^^ byte.toUInt32))))))))

/-- The outer loop over `data[offset], …, data[offset + length - 1]`. -/
def crcLoop (bit : UInt32 → UInt32) (data : Bytes) : (offset length : Nat) → UInt32 → UInt32
  | _, 0, crc => crc
  | offset, length + 1, crc => crcLoop bit data (offset + 1) length (crcByte bit crc (data offset))

/-! ### `firmware/update.c` -/

/-- One turn of the inner loop. -/
def Fw.crcBit (crc : UInt32) : UInt32 :=
  let mask := (-(crc &&& 1).toInt32).toUInt32
  (crc >>> 1) ^^^ (0xedb88320 &&& mask)

/-- `josh_fw_crc32`; a null `data` is only accepted with length 0. -/
def Fw.crc32 (data : Option Bytes) (length : Nat) : UInt32 :=
  match data with
  | none => if length ≠ 0 then 0 else ~~~(0xffffffff : UInt32)
  | some bytes => ~~~(crcLoop crcBit bytes 0 length 0xffffffff)

/-! ### `boot/core/health.c` -/

def Health.crcBit (crc : UInt32) : UInt32 :=
  let mask := (-(crc &&& 1).toInt32).toUInt32
  (crc >>> 1) ^^^ (0xedb88320 &&& mask)

/-- `crc32_bytes`. -/
def Health.crc32Bytes (data : Bytes) (length : Nat) : UInt32 :=
  ~~~(crcLoop crcBit data 0 length 0xffffffff)

/-! ### `boot/core/partition.c` -/

def Partition.crcBit (crc : UInt32) : UInt32 :=
  let mask := 0 - (crc &&& 1)
  (crc >>> 1) ^^^ (0xedb88320 &&& mask)

/-- `crc32_update`, which takes up an earlier result. -/
def Partition.crc32Update (crc : UInt32) (data : Bytes) (length : Nat) : UInt32 :=
  ~~~(crcLoop crcBit data 0 length (~~~crc))

/-! ### The two masks -/

/-- The signed negation and the subtraction from zero are one mask. -/
theorem signedMask_eq (low : UInt32) : (-low.toInt32).toUInt32 = 0 - low := by
  have hsigned : ((-low.toInt32).toUInt32).toBitVec = -low.toBitVec := rfl
  have hunsigned : (0 - low).toBitVec = 0#32 - low.toBitVec := rfl
  rw [← UInt32.toBitVec_inj, hsigned, hunsigned, BitVec.zero_sub]

theorem Fw.crcBit_eq : Fw.crcBit = Partition.crcBit := by
  funext crc
  simp only [crcBit, Partition.crcBit, signedMask_eq]

theorem Health.crcBit_eq : Health.crcBit = Partition.crcBit := by
  funext crc
  simp only [crcBit, Partition.crcBit, signedMask_eq]

end JoshBios
