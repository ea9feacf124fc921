import JoshBios.CrcSpec
import JoshBios.FwStage
import JoshBios.Health

/-! # Bursts do not get past the CRC

A burst changes some bits of a byte string, all of them within 32 bits in a row. The polynomial of CRC-32 has a constant
term, so no burst leaves the CRC as it was; a firmware image or a health record with a burst in it is turned down. -/

namespace JoshBios

open Lib

/-- Bit `i` of a byte string, the lowest of each byte first. -/
def bitAt (x : List UInt8) (i : Nat) : Bool := (x.getD (i / 8) 0).toNat.testBit (i % 8)

/-- The two strings differ, in bits that lie within 32 positions in a row. -/
structure Burst (x y : List UInt8) : Prop where
  length : x.length = y.length
  ne : x ≠ y
  window : ∃ k, ∀ i, bitAt x i ≠ bitAt y i → k ≤ i ∧ i < k + 32

theorem bitsOf_getElem? (x : List UInt8) (i : Nat) :
    (bitsOf x)[i]? = if i < 8 * x.length then some (bitAt x i) else none := by
  induction x generalizing i with
  | nil => rfl
  | cons b x ih =>
    rw [show bitsOf (b :: x) = bits b.toBitVec ++ bitsOf x from rfl, List.getElem?_append, length_bits, List.length_cons]
    by_cases hi : i < 8
    · rw [if_pos hi, if_pos (by omega), bits, List.getElem?_map, List.getElem?_range hi, bitAt, Nat.div_eq_of_lt hi,
        Nat.mod_eq_of_lt hi]
      rfl
    · obtain ⟨j, rfl⟩ : ∃ j, i = j + 8 := ⟨i - 8, by omega⟩
      rw [if_neg hi, Nat.add_sub_cancel, ih, bitAt, bitAt, Nat.add_div_right j (by decide), Nat.add_mod_right,
        List.getD_cons_succ]
      exact if_congr (by omega) rfl rfl

theorem bitsOf_injective {x y : List UInt8} (hlen : x.length = y.length) (h : bitsOf x = bitsOf y) : x = y := by
  induction x generalizing y with
  | nil => exact (List.length_eq_zero_iff.1 hlen.symm).symm
  | cons b x ih =>
    cases y with
    | nil => cases hlen
    | cons c y =>
      obtain ⟨hbyte, hrest⟩ := List.append_inj (show bits b.toBitVec ++ bitsOf x = bits c.toBitVec ++ bitsOf y from h)
        (by rw [length_bits, length_bits])
      rw [UInt8.toBitVec_inj.1 (bits_injective hbyte), ih (Nat.succ.inj hlen) hrest]

theorem Burst.crc32_ne {x y : List UInt8} (h : Burst x y) : crc32 x ≠ crc32 y := by
  obtain ⟨k, hk⟩ := h.window
  have hregister : register crcPoly (BitVec.allOnes 32) (bitsOf x) ≠ register crcPoly (BitVec.allOnes 32) (bitsOf y) := by
    refine register_ne_of_window (not_X_dvd_generator rfl) _ (k := k) ?_ (fun heq => h.ne (bitsOf_injective h.length heq)) ?_
    · rw [length_bitsOf, length_bitsOf, h.length]
    · intro i hi
      refine hk i fun heq => hi ?_
      rw [bitsOf_getElem?, bitsOf_getElem?, h.length, heq]
  intro hcrc
  exact hregister (BitVec.not_inj.1 (UInt32.toBitVec_inj.2 hcrc))

theorem Burst.of_bytes {before changed changed' after : List UInt8} (hlen : changed.length = changed'.length)
    (hfour : changed.length ≤ 4) (hne : changed ≠ changed') :
    Burst (before ++ changed ++ after) (before ++ changed' ++ after) := by
  refine ⟨by simp only [List.length_append, hlen], fun h => ?_, 8 * before.length, fun i hi => ?_⟩
  · exact hne (List.append_cancel_left (List.append_cancel_right h))
  · by_contra hout
    refine hi (congrArg (fun b : UInt8 => b.toNat.testBit (i % 8)) ?_)
    rw [List.append_assoc, List.append_assoc]
    by_cases hbefore : i / 8 < before.length
    · rw [List.getD_append _ _ _ _ hbefore, List.getD_append _ _ _ _ hbefore]
    · have hafter : ∀ bytes : List UInt8, bytes.length = changed.length →
          (before ++ (bytes ++ after)).getD (i / 8) 0 = after.getD (i / 8 - before.length - changed.length) 0 := by
        intro bytes hbytes
        rw [List.getD_append_right _ _ _ _ (by omega), List.getD_append_right _ _ _ _ (by omega), hbytes]
      rw [hafter changed rfl, hafter changed' hlen.symm]

theorem Burst.fw_crc32_ne {x y : Bytes} {n : Nat} (h : Burst (x.slice 0 n) (y.slice 0 n)) :
    Fw.crc32 (some x) n ≠ Fw.crc32 (some y) n := by
  rw [fw_crc32, fw_crc32]
  exact h.crc32_ne

namespace Fw
variable {E : Type} {B : FlashBackend E} {m : Manifest} {image image' : Bytes}

theorem stageUpdate_corrupt (hcrc : crc32 (some image') m.imageSize.toNat ≠ m.imageCrc32) (board : Option Bytes)
    (allow : Bool) (s : UpdateState) (e : E) :
    let r := stageUpdate B (some m) (some image') board allow s e
    (r.status.Rejected ∧ r.state = s ∧ r.calls = []) ∧
      (¬ (stageUpdate B (some m) (some image) board allow s e).status.Rejected → r.status = .imageCorrupt) := by
  intro r
  constructor
  · obtain ⟨status, hrej, h⟩ | ⟨m', img, brd, _, _, _, hm, himg, -, -, -, -, hchecks, -⟩ :=
      stageUpdate_cases B (some m) (some image') board allow s e
    · simp only [r, h]
      exact ⟨hrej, trivial, trivial⟩
    · cases hm
      cases himg
      exact absurd (stageChecks_ok_iff.1 hchecks).intact hcrc
  · intro haccepted
    obtain ⟨status, hrej, h⟩ | ⟨m', img, brd, erase, write, read, hm, himg, rfl, he, hw, hr, hchecks, -⟩ :=
      stageUpdate_cases B (some m) (some image) board allow s e
    · rw [h] at haccepted
      exact absurd hrej haccepted
    · cases hm
      cases himg
      simp only [r, stageUpdate, he, hw, hr, stageChecks_corrupt hchecks hcrc]

end Fw

namespace Health

theorem checksumFor_crc32 (r : HealthRecord) : checksumFor r = crc32 (r.bytes.slice 0 checksumOffset) :=
  health_crc32 r.bytes checksumOffset

theorem Burst.invalid {r r' : HealthRecord} (h : Burst (r.bytes.slice 0 checksumOffset) (r'.bytes.slice 0 checksumOffset))
    (hv : valid r = true) (hsum : r'.checksum = r.checksum) : valid r' = false := by
  by_contra hv'
  rw [Bool.not_eq_false] at hv'
  refine h.crc32_ne ?_
  rw [← checksumFor_crc32, ← checksumFor_crc32, ← (valid_iff.1 hv).2, ← (valid_iff.1 hv').2, hsum]

end Health

/-- A burst changes the CRC; so a firmware image with a burst in it is not staged, and is called corrupt where the
intact image would have been taken, and a valid health record with a burst in its checksummed bytes is not valid. -/
theorem burst_detected :
    (∀ (x y : Bytes) (n : Nat), Burst (x.slice 0 n) (y.slice 0 n) → Fw.crc32 (some x) n ≠ Fw.crc32 (some y) n) ∧
    (∀ (E : Type) (B : Fw.FlashBackend E) (m : Fw.Manifest) (image image' : Bytes) (board : Option Bytes) (allow : Bool)
        (s : Fw.UpdateState) (e : E),
      Burst (image.slice 0 m.imageSize.toNat) (image'.slice 0 m.imageSize.toNat) →
      m.imageCrc32 = Fw.crc32 (some image) m.imageSize.toNat →
      let r := Fw.stageUpdate B (some m) (some image') board allow s e
      (r.status.Rejected ∧ r.state = s ∧ r.calls = []) ∧
        (¬ (Fw.stageUpdate B (some m) (some image) board allow s e).status.Rejected → r.status = .imageCorrupt)) ∧
    ∀ r r' : Health.HealthRecord,
      Burst (r.bytes.slice 0 Health.checksumOffset) (r'.bytes.slice 0 Health.checksumOffset) →
      Health.valid r = true → r'.checksum = r.checksum → Health.valid r' = false := by
  refine ⟨fun x y n h => h.fw_crc32_ne, fun E B m image image' board allow s e h hcrc => ?_,
    fun r r' h => Health.Burst.invalid h⟩
  exact Fw.stageUpdate_corrupt (fun heq => h.fw_crc32_ne (hcrc.symm.trans heq.symm)) board allow s e

/-- One bit of the mock image, and the slot of a fresh record. -/
theorem burst_detected_mock :
    Fw.crc32 (some Fw.mockImage) 1 ≠ Fw.crc32 (some (bytesOf [0x4b])) 1 ∧
    (Fw.stageUpdate Fw.mockBackend (some (Fw.mockManifest 1)) (some (bytesOf [0x4b])) (some Fw.mockBoard) false
      Fw.updateStateDefault (Fw.mockFlash 1)).status = .imageCorrupt ∧
    Health.valid { Health.healthDefault with selectedSlot := 1 } = false := by
  have himage : Burst (Fw.mockImage.slice 0 1) (Bytes.slice (bytesOf [0x4b]) 0 1) :=
    @Burst.of_bytes [] [0x4a] [0x4b] [] rfl (by decide) (by decide)
  refine ⟨burst_detected.1 _ _ 1 himage, (burst_detected.2.1 _ Fw.mockBackend (Fw.mockManifest 1) Fw.mockImage _
    (some Fw.mockBoard) false Fw.updateStateDefault (Fw.mockFlash 1) himage (by decide)).2 ?_, ?_⟩
  · rw [Fw.UpdateStatus.Rejected]
    decide
  · refine burst_detected.2.2 Health.healthDefault _ ?_ Health.valid_healthDefault rfl
    exact @Burst.of_bytes (Health.healthDefault.bytes.slice 0 16) [0, 0, 0, 0] [1, 0, 0, 0] (.replicate 32 0) rfl
      (by decide) (by decide)

end JoshBios
