import JoshBios.Gpt
import JoshBios.FatGeometry

/-! # The partition to boot from

One loop over the MBR chooses the partition, falls back on the first one if none is active, checks the entries that it comes
by and leaves for the GPT at a protective one. `Passed` is its invariant, `findBoot_sound` what holds of the result. -/

namespace JoshBios.Partition

/-- The entry is in order, as far as the choice is concerned. -/
def MbrEntry.Bootable (e : MbrEntry) (device : BlockDevice) : Prop :=
  e.type ≠ 0xee ∧ e.first.toNat + e.count.toNat ≤ device.sectorCount.toNat

/-- The partition of an entry. -/
def mbrPartition (e : MbrEntry) : Partition where
  scheme := .mbr
  firstLba := e.first.toUInt64
  sectorCount := e.count.toUInt64
  mbrType := e.type
  gptTypeGuid := .replicate 16 0
  gptUniqueGuid := .replicate 16 0

section
variable {device : BlockDevice} {mbr : Bytes}

/-- Entry `k` is the first active one, or there is no active one and it is the first. Entries that are not used do not
count, and the ones that the scan came by are in order. -/
structure Chosen (device : BlockDevice) (mbr : Bytes) (k : Nat) : Prop where
  lt : k < mbrPartitionCount
  used : (mbrEntry mbr k).Used
  choice :
    ((mbrEntry mbr k).status = 0x80 ∧ (∀ j < k, (mbrEntry mbr j).Used → (mbrEntry mbr j).status ≠ 0x80) ∧
      ∀ j ≤ k, (mbrEntry mbr j).Used → (mbrEntry mbr j).Bootable device) ∨
    ((∀ j < mbrPartitionCount, (mbrEntry mbr j).Used → (mbrEntry mbr j).status ≠ 0x80) ∧ (∀ j < k, ¬ (mbrEntry mbr j).Used) ∧
      ∀ j < mbrPartitionCount, (mbrEntry mbr j).Used → (mbrEntry mbr j).Bootable device)

/-- What the scan knows when it comes to entry `i`. -/
structure Passed (device : BlockDevice) (mbr : Bytes) (i : Nat) (fallback : Option MbrEntry) : Prop where
  inactive : ∀ j < i, (mbrEntry mbr j).Used → (mbrEntry mbr j).status ≠ 0x80
  bootable : ∀ j < i, (mbrEntry mbr j).Used → (mbrEntry mbr j).Bootable device
  none_used : fallback = none → ∀ j < i, ¬ (mbrEntry mbr j).Used
  first_used : ∀ e, fallback = some e →
    ∃ k < i, mbrEntry mbr k = e ∧ e.Used ∧ ∀ j < k, ¬ (mbrEntry mbr j).Used

theorem Passed.zero : Passed device mbr 0 none :=
  ⟨nofun, nofun, fun _ => nofun, nofun⟩

theorem Passed.skip {i : Nat} {fallback : Option MbrEntry} (h : Passed device mbr i fallback)
    (hfree : ¬ (mbrEntry mbr i).Used) : Passed device mbr (i + 1) fallback := by
  refine ⟨fun j hj hused => ?_, fun j hj hused => ?_, fun hnone j hj => ?_, fun e he => ?_⟩
  · rcases Nat.lt_succ_iff_lt_or_eq.1 hj with hlt | rfl
    · exact h.inactive j hlt hused
    · exact absurd hused hfree
  · rcases Nat.lt_succ_iff_lt_or_eq.1 hj with hlt | rfl
    · exact h.bootable j hlt hused
    · exact absurd hused hfree
  · rcases Nat.lt_succ_iff_lt_or_eq.1 hj with hlt | rfl
    · exact h.none_used hnone j hlt
    · exact hfree
  · obtain ⟨k, hk, hentry, hused, hbefore⟩ := h.first_used e he
    exact ⟨k, by omega, hentry, hused, hbefore⟩

theorem Passed.take {i : Nat} {fallback : Option MbrEntry} (h : Passed device mbr i fallback)
    (hused : (mbrEntry mbr i).Used) (hinactive : (mbrEntry mbr i).status ≠ 0x80)
    (hbootable : (mbrEntry mbr i).Bootable device) :
    Passed device mbr (i + 1) (some (fallback.getD (mbrEntry mbr i))) := by
  refine ⟨fun j hj hj' => ?_, fun j hj hj' => ?_, nofun, fun e he => ?_⟩
  · rcases Nat.lt_succ_iff_lt_or_eq.1 hj with hlt | rfl
    · exact h.inactive j hlt hj'
    · exact hinactive
  · rcases Nat.lt_succ_iff_lt_or_eq.1 hj with hlt | rfl
    · exact h.bootable j hlt hj'
    · exact hbootable
  · cases fallback with
    | none => exact ⟨i, by omega, Option.some.inj he, Option.some.inj he ▸ hused, h.none_used rfl⟩
    | some e' =>
      obtain ⟨k, hk, hentry, hk', hbefore⟩ := h.first_used e he
      exact ⟨k, by omega, hentry, hk', hbefore⟩

theorem bootable_of_checks {e : MbrEntry} (hused : e.Used) (hgpt : ¬ e.type = 0xee)
    (hvalid : ¬ (!rangeValid device e.first.toUInt64 e.count.toUInt64) = true) : e.Bootable device :=
  ⟨hgpt, hused.rangeValid_iff.1 (by simpa using hvalid)⟩

/-- The scan ends with the entry that it chose, or with what it makes of the GPT. -/
theorem findMbrEntry_ok {n i : Nat} (hn : i + n = mbrPartitionCount) {fallback : Option MbrEntry}
    (h : Passed device mbr i fallback) :
    (∀ e, findMbrEntry device mbr n i fallback = .ok (some e) → ∃ k, mbrEntry mbr k = e ∧ Chosen device mbr k) ∧
    ∀ p, findMbrEntry device mbr n i fallback = .error (.ok p) → parseGpt device = .ok p := by
  induction n generalizing i fallback with
  | zero =>
    obtain rfl : i = mbrPartitionCount := hn
    refine ⟨fun e he => ?_, nofun⟩
    obtain ⟨k, hk, rfl, hused, hbefore⟩ := h.first_used e (Except.ok.inj he)
    exact ⟨k, rfl, hk, hused, Or.inr ⟨h.inactive, hbefore, h.bootable⟩⟩
  | succ n ih =>
    rw [findMbrEntry]
    split
    · exact ⟨nofun, nofun⟩
    split
    case isTrue _ hfree => exact ih (by omega) (h.skip (MbrEntry.not_used.2 hfree))
    case isFalse _ hused =>
    rw [← MbrEntry.not_used, not_not] at hused
    split
    · exact ⟨nofun, fun p hp => Except.error.inj hp⟩
    case isFalse hgpt =>
    split
    · exact ⟨nofun, nofun⟩
    case isFalse hvalid =>
    have hbootable := bootable_of_checks hused hgpt hvalid
    split
    case isTrue hactive =>
      refine ⟨fun e he => ⟨i, Option.some.inj (Except.ok.inj he), by omega, hused, Or.inl ⟨hactive, h.inactive, ?_⟩⟩, nofun⟩
      intro j hj hj'
      rcases Nat.lt_or_eq_of_le hj with hlt | rfl
      · exact h.bootable j hlt hj'
      · exact hbootable
    case isFalse hinactive => exact ih (by omega) (h.take hused hinactive hbootable)

/-- The range of a GPT entry that is in order ends at its last sector, so it does not wrap. -/
theorem GptHeader.Describes.range {h : GptHeader} {e : Bytes} {p : Partition} (hd : h.Describes e p)
    (hsectors : h.lastUsable < device.sectorCount) :
    0 < p.sectorCount.toNat ∧ p.firstLba.toNat + p.sectorCount.toNat ≤ h.lastUsable.toNat + 1 := by
  have horder := UInt64.le_iff_toNat_le.1 hd.order
  have hlast := UInt64.le_iff_toNat_le.1 hd.last
  have hlt := UInt64.lt_iff_toNat_lt.1 hsectors
  have hbound := device.sectorCount.toNat_lt
  have hcount : (le64 e 40 - le64 e 32 + 1).toNat = (le64 e 40).toNat - (le64 e 32).toNat + 1 := by
    rw [UInt64.toNat_add, UInt64.toNat_sub_of_le _ _ hd.order]
    exact Nat.mod_eq_of_lt (by change (le64 e 40).toNat - (le64 e 32).toNat + 1 < 2 ^ 64; omega)
  rw [hd.partition]
  simp only [hcount]
  omega

theorem mount_range {p : Partition} (hpos : 0 < p.sectorCount.toNat)
    (hin : p.firstLba.toNat + p.sectorCount.toNat ≤ device.sectorCount.toNat) :
    p.sectorCount ≠ 0 ∧ ¬ (p.firstLba ≥ device.sectorCount || p.sectorCount > device.sectorCount - p.firstLba) = true := by
  have hlt : p.firstLba < device.sectorCount := UInt64.lt_iff_toNat_lt.2 (by omega)
  refine ⟨toNat_pos.1 hpos, ?_⟩
  rw [Bool.or_eq_true, decide_eq_true_iff, decide_eq_true_iff, not_or, ge_iff_le, UInt64.not_le, gt_iff_lt, UInt64.not_lt,
    UInt64.le_iff_toNat_le, UInt64.toNat_sub_of_le _ _ (UInt64.le_of_lt hlt)]
  exact ⟨hlt, by omega⟩

/-- The chosen entry is one that the scan came by. -/
theorem Chosen.range {mbr : Bytes} {k : Nat} (h : Chosen device mbr k) :
    0 < (mbrPartition (mbrEntry mbr k)).sectorCount.toNat ∧
    (mbrPartition (mbrEntry mbr k)).firstLba.toNat + (mbrPartition (mbrEntry mbr k)).sectorCount.toNat ≤
      device.sectorCount.toNat := by
  have hbootable : (mbrEntry mbr k).Bootable device := by
    rcases h.choice with ⟨-, -, hall⟩ | ⟨-, -, hall⟩
    · exact hall k (Nat.le_refl _) h.used
    · exact hall k h.lt h.used
  rw [mbrPartition, UInt32.toNat_toUInt64, UInt32.toNat_toUInt64]
  refine ⟨Nat.pos_of_ne_zero fun hzero => h.used.2 (UInt32.toNat_inj.1 hzero), hbootable.2⟩

theorem parseGpt_range {p : Partition} (h : parseGpt device = .ok p) :
    0 < p.sectorCount.toNat ∧ p.firstLba.toNat + p.sectorCount.toNat ≤ device.sectorCount.toNat ∧ p.scheme = .gpt ∧
    ∃ header, device.blockRead 1 1 = some header ∧ (gptHeader header).firstUsable ≤ p.firstLba ∧
      p.firstLba.toNat + p.sectorCount.toNat ≤ (gptHeader header).lastUsable.toNat + 1 := by
  obtain ⟨header, sectors, hgood⟩ := parseGpt_eq_ok.1 h
  obtain ⟨i, -, -, hd⟩ := hgood.first
  obtain ⟨hpos, hlast⟩ := hd.range hgood.headerOk.usable.2
  have hlt := UInt64.lt_iff_toNat_lt.1 hgood.headerOk.usable.2
  have hp := hd.partition
  refine ⟨hpos, Nat.le_trans hlast hlt, by rw [hp], header, hgood.headerRead, ?_, hlast⟩
  rw [hp]
  exact hd.first

/-- The partition to boot from is not empty and inside the device, so mounting never fails over its range. On an MBR
it is the first active partition, or the first one if none is active; on a GPT it is within the usable sectors. -/
theorem findBoot_sound {p : Partition} (h : findBoot device = .ok p) :
    0 < p.sectorCount.toNat ∧ p.firstLba.toNat + p.sectorCount.toNat ≤ device.sectorCount.toNat ∧
    (p.sectorCount ≠ 0 ∧
      ¬ (p.firstLba ≥ device.sectorCount || p.sectorCount > device.sectorCount - p.firstLba) = true) ∧
    ((p.scheme = .mbr ∧ ∃ mbr k, device.blockRead 0 1 = some mbr ∧ Chosen device mbr k ∧
        p = mbrPartition (mbrEntry mbr k)) ∨
      (p.scheme = .gpt ∧ ∃ header, device.blockRead 1 1 = some header ∧ (gptHeader header).firstUsable ≤ p.firstLba ∧
        p.firstLba.toNat + p.sectorCount.toNat ≤ (gptHeader header).lastUsable.toNat + 1)) := by
  rw [findBoot] at h
  split at h
  · cases h
  cases hread : device.blockRead 0 1 with
  | none => rw [hread] at h; cases h
  | some mbr =>
    rw [hread] at h
    obtain ⟨-, h⟩ := ite_error_eq_ok.1 h
    have hstart : Passed device mbr 0 none := Passed.zero
    obtain ⟨hmbr, hgpt⟩ := findMbrEntry_ok (Nat.zero_add mbrPartitionCount) hstart
    cases hfind : findMbrEntry device mbr mbrPartitionCount 0 none with
    | error result =>
      rw [hfind] at h
      obtain ⟨hpos, hin, hscheme, hheader⟩ := parseGpt_range (hgpt p (hfind.trans (congrArg Except.error h)))
      exact ⟨hpos, hin, mount_range hpos hin, Or.inr ⟨hscheme, hheader⟩⟩
    | ok chosen =>
      rw [hfind] at h
      cases chosen with
      | none => cases h
      | some entry =>
        obtain ⟨k, rfl, hchosen⟩ := hmbr entry hfind
        obtain ⟨hpos, hin⟩ := hchosen.range
        obtain rfl : mbrPartition (mbrEntry mbr k) = p := Except.ok.inj h
        exact ⟨hpos, hin, mount_range hpos hin, Or.inl ⟨rfl, mbr, k, rfl, hchosen, rfl⟩⟩

end

/-- A disk of which the first and the third entry are used, and the third one is active. -/
def activeDisk : BlockDevice where
  sectorCount := 100
  read _ _ := some (bytesOf (packBytes [(446, 0), (4, 0), (4, 0x0c), (4, 10), (4, 20), (16, 0), (4, 0x80), (4, 0x0c), (4, 40),
    (4, 50), (16, 0), (1, 0x55), (1, 0xaa)]))

theorem findBoot_sound_active :
    findBoot activeDisk = .ok (mbrPartition ⟨0x80, 0x0c, 40, 50⟩) ∧
    (mbrPartition ⟨0x80, 0x0c, 40, 50⟩).firstLba.toNat + (mbrPartition ⟨0x80, 0x0c, 40, 50⟩).sectorCount.toNat ≤
      activeDisk.sectorCount.toNat := by
  have hfind : findBoot activeDisk = .ok (mbrPartition ⟨0x80, 0x0c, 40, 50⟩) := eq_ok_of_toOption (by decide +kernel)
  exact ⟨hfind, (findBoot_sound hfind).2.1⟩

end JoshBios.Partition
