import JoshBios.Lib.Crc
import JoshBios.Partition

/-! # One CRC-32

`crc32` is the reflected CRC-32: the bits of a byte string, the lowest of each byte first, go through a register that starts
with all ones and is inverted at the end. The copies of the bitwise loop in `firmware/update.c`, `boot/core/health.c` and
`boot/core/partition.c` all compute it, with either mask, and the last one computes it piece by piece. -/

namespace JoshBios

open Lib

/-- The polynomial of CRC-32, without its highest term. -/
def crcPoly : BitVec 32 := 0xedb88320

/-- The bits of a byte string, the lowest bit of each byte first. -/
def bitsOf (x : List UInt8) : List Bool := x.flatMap fun b => bits b.toBitVec

/-- The reflected CRC-32 of a byte string. -/
def crc32 (x : List UInt8) : UInt32 := .ofBitVec (~~~ register crcPoly (BitVec.allOnes 32) (bitsOf x))

theorem bitsOf_append (x y : List UInt8) : bitsOf (x ++ y) = bitsOf x ++ bitsOf y := List.flatMap_append

/-! ### The loop and the register -/

/-- A turn of the inner loop is a shift of the register. -/
theorem crcBit_toBitVec (crc : UInt32) : (Partition.crcBit crc).toBitVec = shiftOut crcPoly crc.toBitVec := by
  have hmask : (crc &&& 1).toBitVec = BitVec.setWidth 32 (BitVec.ofBool (crc.toBitVec.getLsbD 0)) :=
    BitVec.and_one_eq_setWidth_ofBool_getLsbD
  have hstep : (Partition.crcBit crc).toBitVec =
      (crc.toBitVec >>> 1) ^^^ (0xedb88320 &&& (0 - (crc &&& 1).toBitVec)) := rfl
  rw [hstep, hmask, shiftOut]
  cases crc.toBitVec.getLsbD 0 with
  | false => rfl
  | true => rfl

theorem crcByte_toBitVec (crc : UInt32) (byte : UInt8) :
    (crcByte Partition.crcBit crc byte).toBitVec = register crcPoly crc.toBitVec (bits byte.toBitVec) := by
  have hturns : (crcByte Partition.crcBit crc byte).toBitVec = (shiftOut crcPoly)^[8] (crc.toBitVec ^^^ byte.toUInt32.toBitVec) := by
    simp only [crcByte, crcBit_toBitVec]
    rfl
  have hlow : (List.range 8).map byte.toUInt32.toBitVec.getLsbD = bits byte.toBitVec := by
    refine List.map_congr_left fun i hi => ?_
    have hi8 := List.mem_range.1 hi
    rw [UInt8.toBitVec_toUInt32, BitVec.getLsbD_setWidth, decide_eq_true (by omega), Bool.true_and]
  have hhigh : byte.toUInt32.toBitVec >>> 8 = 0#32 := by
    refine BitVec.eq_of_toNat_eq ?_
    have hbyte := byte.toNat_lt
    rw [BitVec.toNat_ushiftRight, Nat.shiftRight_eq_div_pow]
    exact Nat.div_eq_of_lt (by simpa using hbyte)
  rw [hturns, shiftOut_iterate, hlow, hhigh, BitVec.xor_zero]

theorem crcLoop_toBitVec (data : Bytes) (offset n : Nat) (crc : UInt32) :
    (crcLoop Partition.crcBit data offset n crc).toBitVec = register crcPoly crc.toBitVec (bitsOf (data.slice offset n)) := by
  induction n generalizing offset crc with
  | zero => rfl
  | succ n ih =>
    rw [crcLoop, ih, Bytes.slice_succ, crcByte_toBitVec, ← register_append]
    rfl

/-! ### The three copies -/

theorem fw_crc32 (data : Bytes) (n : Nat) : Fw.crc32 (some data) n = crc32 (data.slice 0 n) := by
  rw [Fw.crc32, Fw.crcBit_eq, ← UInt32.toBitVec_inj]
  exact congrArg (~~~ ·) (crcLoop_toBitVec data 0 n 0xffffffff)

theorem health_crc32 (data : Bytes) (n : Nat) : Health.crc32Bytes data n = crc32 (data.slice 0 n) := by
  rw [Health.crc32Bytes, Health.crcBit_eq, ← UInt32.toBitVec_inj]
  exact congrArg (~~~ ·) (crcLoop_toBitVec data 0 n 0xffffffff)

/-- `crc32_update` goes on where an earlier result stopped. -/
theorem crc32Update_crc32 (x : List UInt8) (data : Bytes) (n : Nat) :
    Partition.crc32Update (crc32 x) data n = crc32 (x ++ data.slice 0 n) := by
  have hstart : (~~~crc32 x).toBitVec = register crcPoly (BitVec.allOnes 32) (bitsOf x) := BitVec.not_not
  have hloop := crcLoop_toBitVec data 0 n (~~~crc32 x)
  rw [hstart, ← register_append, ← bitsOf_append] at hloop
  rw [← UInt32.toBitVec_inj]
  exact congrArg (~~~ ·) hloop

theorem crc32Update_zero (data : Bytes) (n : Nat) : Partition.crc32Update 0 data n = crc32 (data.slice 0 n) :=
  crc32Update_crc32 [] data n

/-! ### The CRC of a GPT's entries -/

namespace Partition

/-- The `n` sectors from `lba` on, when all of them can be read. -/
def sectorsAt (device : BlockDevice) : (n : Nat) → (lba : UInt64) → Option (List Bytes)
  | 0, _ => some []
  | n + 1, lba => do
    let sector ← device.blockRead lba 1
    let sectors ← sectorsAt device n (lba + 1)
    return sector :: sectors

/-- The bytes of some sectors, one after the other. -/
def sectorBytes (sectors : List Bytes) : List UInt8 := sectors.flatMap fun sector => sector.slice 0 sectorSize

theorem sectorsAt_succ {device : BlockDevice} {n : Nat} {lba : UInt64} {sector : Bytes}
    (h : device.blockRead lba 1 = some sector) :
    sectorsAt device (n + 1) lba = (sectorsAt device n (lba + 1)).map (sector :: ·) := by
  rw [sectorsAt, h]
  cases sectorsAt device n (lba + 1) <;> rfl

theorem sectorBytes_cons (sector : Bytes) (sectors : List Bytes) :
    sectorBytes (sector :: sectors) = sector.slice 0 sectorSize ++ sectorBytes sectors := List.flatMap_cons

theorem take_slice_append (b : Bytes) (l : List UInt8) (n k : Nat) :
    (b.slice 0 n ++ l).take k = b.slice 0 (min k n) ++ l.take (k - n) := by
  rw [List.take_append, Bytes.length_slice, Bytes.slice, Bytes.slice, ← List.map_take, List.take_range]

/-- The chunks of the loop are cut from the bytes of the sectors, the last one short. -/
theorem entriesCrc_crc32 (device : BlockDevice) (n : Nat) (lba remaining : UInt64) (x : List UInt8) :
    entriesCrc device n lba remaining (crc32 x) =
      (sectorsAt device n lba).map fun sectors => crc32 (x ++ (sectorBytes sectors).take remaining.toNat) := by
  induction n generalizing lba remaining x with
  | zero => simp [entriesCrc, sectorsAt, sectorBytes]
  | succ n ih =>
    have hchunk : (if remaining > 512 then 512 else remaining).toNat = min remaining.toNat sectorSize ∧
        (remaining - if remaining > 512 then 512 else remaining).toNat = remaining.toNat - sectorSize := by
      by_cases hmore : remaining > 512
      · have hlt : sectorSize < remaining.toNat := UInt64.lt_iff_toNat_lt.1 hmore
        rw [if_pos hmore, UInt64.toNat_sub_of_le _ _ (UInt64.le_of_lt hmore), Nat.min_eq_right (Nat.le_of_lt hlt)]
        exact ⟨rfl, rfl⟩
      · have hle : remaining.toNat ≤ sectorSize := UInt64.le_iff_toNat_le.1 (UInt64.not_lt.1 hmore)
        rw [if_neg hmore, UInt64.sub_self, Nat.min_eq_left hle, Nat.sub_eq_zero_of_le hle]
        exact ⟨rfl, rfl⟩
    rw [entriesCrc]
    cases hread : device.blockRead lba 1 with
    | none => rw [sectorsAt, hread]; rfl
    | some sector =>
      rw [sectorsAt_succ hread, Option.map_map]
      simp only [crc32Update_crc32, ih, hchunk, List.append_assoc]
      congr 1
      funext sectors
      rw [Function.comp, sectorBytes_cons, take_slice_append]

end Partition

/-! ### CRC-32 as a remainder -/

section
open Polynomial

theorem length_bitsOf (x : List UInt8) : (bitsOf x).length = 8 * x.length := by
  induction x with
  | nil => rfl
  | cons b x ih => rw [bitsOf, List.flatMap_cons, List.length_append, length_bits, ← bitsOf, ih, List.length_cons]; ring

theorem generator_crcPoly : generator crcPoly = X ^ 32 + X ^ 26 + X ^ 23 + X ^ 22 + X ^ 16 + X ^ 12 + X ^ 11 + X ^ 10 +
    X ^ 8 + X ^ 7 + X ^ 5 + X ^ 4 + X ^ 2 + X + 1 := by
  have hbits : bits crcPoly = [false, false, false, false, false, true, false, false, true, true, false, false, false,
      false, false, true, false, false, false, true, true, true, false, true, true, false, true, true, false, true, true,
      true] := by decide
  rw [generator, remainder, hbits]
  simp [message, bitPoly]
  ring

theorem remainder_crc32 (x : List UInt8) : remainder (~~~crc32 x).toBitVec =
    (X ^ (8 * x.length) * remainder (BitVec.allOnes 32) + X ^ 32 * message (bitsOf x)) %ₘ generator crcPoly := by
  rw [← length_bitsOf, ← message_register]
  exact congrArg remainder BitVec.not_not

/-- The three copies of the loop compute the reflected CRC-32 with the polynomial `0xedb88320`, which is a remainder;
the one of the partition code may take up its own results, so what it computes sector by sector is the CRC-32 of all
entries. -/
theorem crc32_copies_agree (x y : Bytes) (m n : Nat) :
    Fw.crc32 (some x) m = crc32 (x.slice 0 m) ∧ Health.crc32Bytes x m = crc32 (x.slice 0 m) ∧
    Partition.crc32Update 0 x m = crc32 (x.slice 0 m) ∧
    remainder (~~~crc32 (x.slice 0 m)).toBitVec =
      (X ^ (8 * m) * remainder (BitVec.allOnes 32) + X ^ 32 * message (bitsOf (x.slice 0 m))) %ₘ
        (X ^ 32 + X ^ 26 + X ^ 23 + X ^ 22 + X ^ 16 + X ^ 12 + X ^ 11 + X ^ 10 + X ^ 8 + X ^ 7 + X ^ 5 + X ^ 4 + X ^ 2 +
          X + 1) ∧
    Partition.crc32Update (Partition.crc32Update 0 x m) y n =
      Partition.crc32Update 0 (bytesOf (x.slice 0 m ++ y.slice 0 n)) (m + n) ∧
    ∀ device k lba total, Partition.entriesCrc device k lba total 0 =
      (Partition.sectorsAt device k lba).map fun sectors => crc32 ((Partition.sectorBytes sectors).take total.toNat) := by
  have hrem := remainder_crc32 (x.slice 0 m)
  have hwhole := slice_bytesOf (x.slice 0 m ++ y.slice 0 n)
  rw [Bytes.length_slice, generator_crcPoly] at hrem
  rw [List.length_append, Bytes.length_slice, Bytes.length_slice] at hwhole
  refine ⟨fw_crc32 x m, health_crc32 x m, crc32Update_zero x m, hrem, ?_, fun device k lba total => ?_⟩
  · rw [crc32Update_zero, crc32Update_crc32, crc32Update_zero, hwhole]
  · exact Partition.entriesCrc_crc32 device k lba total []

end

end JoshBios
