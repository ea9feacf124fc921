import JoshBios.Partition

/-! # Ranges of sectors and the MBR

The code compares ranges by their last sectors, in 64 bits. A range on a device does not wrap, so these comparisons say what
they seem to say about sectors as natural numbers: `rangeIsUnallocated_iff` for the range that is to be kept clear of
partitions. -/

namespace JoshBios.Partition

/-- The entry describes a partition. -/
def MbrEntry.Used (e : MbrEntry) : Prop := e.type ≠ 0 ∧ e.count ≠ 0

/-- The entry is in order on a device of `sectors` sectors, and has none of the `n` sectors from `a` on. -/
structure MbrEntry.Avoids (e : MbrEntry) (sectors a n : Nat) : Prop where
  status : e.status = 0x00 ∨ e.status = 0x80
  noGpt : e.Used → e.type ≠ 0xee
  inside : e.Used → e.first.toNat + e.count.toNat ≤ sectors
  apart : e.Used → a + n ≤ e.first.toNat ∨ e.first.toNat + e.count.toNat ≤ a

theorem MbrEntry.not_used {e : MbrEntry} : ¬ e.Used ↔ e.type = 0 ∨ e.count = 0 := by
  rw [Used, not_and_or, not_not, not_not]

theorem toNat_pos {n : UInt64} : 0 < n.toNat ↔ n ≠ 0 := by
  rw [Nat.pos_iff_ne_zero, ne_eq, ne_eq, ← UInt64.toNat_inj]
  rfl

/-! ### Ranges -/

theorem blockRead_of_lt {device : BlockDevice} {lba : UInt64} (h : lba.toNat < device.sectorCount.toNat) :
    device.blockRead lba 1 = device.read lba 1 := by
  have hlt : lba < device.sectorCount := UInt64.lt_iff_toNat_lt.2 h
  have hroom : ¬ (1 : UInt32).toUInt64 > device.sectorCount - lba := by
    rw [gt_iff_lt, UInt64.not_lt, UInt64.le_iff_toNat_le, UInt64.toNat_sub_of_le _ _ (UInt64.le_of_lt hlt),
      show (1 : UInt32).toUInt64.toNat = 1 from rfl]
    omega
  rw [BlockDevice.blockRead, if_neg (by decide), if_neg (UInt64.not_le.2 hlt), if_neg hroom]

theorem rangeValid_iff {device : BlockDevice} {first count : UInt64} : rangeValid device first count = true ↔
    count ≠ 0 ∧ first.toNat + count.toNat ≤ device.sectorCount.toNat := by
  rw [rangeValid]
  by_cases hc : count = 0
  · rw [if_pos (by simp [hc])]
    exact iff_of_false Bool.false_ne_true fun h => h.1 hc
  have hpos := toNat_pos.2 hc
  by_cases hf : first ≥ device.sectorCount
  · have hle := UInt64.le_iff_toNat_le.1 hf
    rw [if_pos (by simp [hf])]
    refine iff_of_false Bool.false_ne_true fun h => ?_
    omega
  have hlt := UInt64.not_le.1 hf
  have hlt' := UInt64.lt_iff_toNat_lt.1 hlt
  rw [if_neg (by simp [hc, hf]), decide_eq_true_iff, UInt64.le_iff_toNat_le,
    UInt64.toNat_sub_of_le _ _ (UInt64.le_of_lt hlt)]
  constructor
  · intro h
    exact ⟨hc, by omega⟩
  · rintro ⟨-, h⟩
    omega

theorem toNat_last {a n : UInt64} (hn : n ≠ 0) (h : a.toNat + n.toNat < 2 ^ 64) :
    (a + n - 1).toNat = a.toNat + n.toNat - 1 := by
  have hpos := toNat_pos.2 hn
  rw [UInt64.toNat_sub_of_le, UInt64.toNat_add, Nat.mod_eq_of_lt h]
  · rfl
  · rw [UInt64.le_iff_toNat_le, UInt64.toNat_add, Nat.mod_eq_of_lt h]
    exact Nat.le_trans hpos (Nat.le_add_left _ _)

theorem rangesOverlap_eq_false_iff {a n b k : UInt64} (hn : n ≠ 0) (hk : k ≠ 0) (ha : a.toNat + n.toNat < 2 ^ 64)
    (hb : b.toNat + k.toNat < 2 ^ 64) :
    rangesOverlap a n b k = false ↔ a.toNat + n.toNat ≤ b.toNat ∨ b.toNat + k.toNat ≤ a.toNat := by
  have hlastA := toNat_last hn ha
  have hlastB := toNat_last hk hb
  have hnpos := toNat_pos.2 hn
  have hkpos := toNat_pos.2 hk
  have hwrap : ¬ (a + n - 1 < a ∨ b + k - 1 < b) := by
    rw [UInt64.lt_iff_toNat_lt, UInt64.lt_iff_toNat_lt]
    omega
  rw [rangesOverlap, if_neg (by simp [hn, hk])]
  simp only
  rw [if_neg (by simpa using hwrap), Bool.not_eq_false', Bool.or_eq_true, decide_eq_true_iff, decide_eq_true_iff,
    UInt64.lt_iff_toNat_lt, UInt64.lt_iff_toNat_lt, hlastA, hlastB]
  omega

theorem MbrEntry.Used.rangeValid_iff {e : MbrEntry} (h : e.Used) {device : BlockDevice} :
    rangeValid device e.first.toUInt64 e.count.toUInt64 = true ↔
      e.first.toNat + e.count.toNat ≤ device.sectorCount.toNat := by
  have hcount : e.count.toUInt64 ≠ 0 := by
    intro h0
    have hzero := congrArg UInt64.toNat h0
    rw [UInt32.toNat_toUInt64] at hzero
    exact h.2 (UInt32.toNat_inj.1 hzero)
  rw [Partition.rangeValid_iff, UInt32.toNat_toUInt64, UInt32.toNat_toUInt64]
  exact and_iff_right hcount

theorem disjoint_Ico {a n b k : Nat} (hn : 0 < n) (hk : 0 < k) :
    Disjoint (Set.Ico a (a + n)) (Set.Ico b (b + k)) ↔ a + n ≤ b ∨ b + k ≤ a := by
  rw [Set.Ico_disjoint_Ico]
  omega

/-! ### The scan for a free range -/

theorem entriesAvoid_succ {device : BlockDevice} {mbr : Bytes} {a n : UInt64} (hn : n ≠ 0)
    (hinside : a.toNat + n.toNat ≤ device.sectorCount.toNat) (k i : Nat) :
    entriesAvoid device mbr a n (k + 1) i = true ↔
      (mbrEntry mbr i).Avoids device.sectorCount.toNat a.toNat n.toNat ∧ entriesAvoid device mbr a n k (i + 1) = true := by
  have hmax := device.sectorCount.toNat_lt
  rw [entriesAvoid]
  generalize mbrEntry mbr i = e
  by_cases hstatus : e.status ≠ 0x00 ∧ e.status ≠ 0x80
  · rw [if_pos hstatus]
    exact iff_of_false Bool.false_ne_true fun h => h.1.status.elim hstatus.1 hstatus.2
  have hstatus' : e.status = 0x00 ∨ e.status = 0x80 := by
    rwa [not_and_or, not_not, not_not] at hstatus
  rw [if_neg hstatus]
  by_cases hfree : e.type = 0 ∨ e.count = 0
  · have hunused := MbrEntry.not_used.2 hfree
    rw [if_pos hfree]
    exact ⟨fun h => ⟨⟨hstatus', fun hu => absurd hu hunused, fun hu => absurd hu hunused, fun hu => absurd hu hunused⟩, h⟩,
      fun h => h.2⟩
  have hused : e.Used := not_not.1 fun h => hfree (MbrEntry.not_used.1 h)
  rw [if_neg hfree]
  by_cases hgpt : e.type = 0xee
  · rw [if_pos hgpt]
    exact iff_of_false Bool.false_ne_true fun h => h.1.noGpt hused hgpt
  rw [if_neg hgpt]
  have hvalid := @MbrEntry.Used.rangeValid_iff e hused device
  by_cases hin : e.first.toNat + e.count.toNat ≤ device.sectorCount.toNat
  · rw [if_neg (by rw [hvalid.2 hin]; exact Bool.false_ne_true)]
    have hover := @rangesOverlap_eq_false_iff a n e.first.toUInt64 e.count.toUInt64 hn
      (rangeValid_iff.1 (hvalid.2 hin)).1 (by omega) (by rw [UInt32.toNat_toUInt64, UInt32.toNat_toUInt64]; omega)
    rw [UInt32.toNat_toUInt64, UInt32.toNat_toUInt64] at hover
    by_cases hapart : a.toNat + n.toNat ≤ e.first.toNat ∨ e.first.toNat + e.count.toNat ≤ a.toNat
    · rw [if_neg (by rw [hover.2 hapart]; exact Bool.false_ne_true)]
      exact ⟨fun h => ⟨⟨hstatus', fun _ => hgpt, fun _ => hin, fun _ => hapart⟩, h⟩, fun h => h.2⟩
    · rw [if_pos (eq_true_of_ne_false fun h => hapart (hover.1 h))]
      exact iff_of_false Bool.false_ne_true fun h => hapart (h.1.apart hused)
  · rw [if_pos (by rw [Bool.eq_false_iff.2 fun h => hin (hvalid.1 h)]; rfl)]
    exact iff_of_false Bool.false_ne_true fun h => hin (h.1.inside hused)

theorem entriesAvoid_iff {device : BlockDevice} {mbr : Bytes} {a n : UInt64} (hn : n ≠ 0)
    (hinside : a.toNat + n.toNat ≤ device.sectorCount.toNat) (k i : Nat) :
    entriesAvoid device mbr a n k i = true ↔
      ∀ j, i ≤ j → j < i + k → (mbrEntry mbr j).Avoids device.sectorCount.toNat a.toNat n.toNat := by
  induction k generalizing i with
  | zero => exact iff_of_true rfl fun j h₁ h₂ => absurd h₂ (Nat.not_lt.2 h₁)
  | succ k ih =>
    rw [entriesAvoid_succ hn hinside, ih (i + 1)]
    constructor
    · rintro ⟨h, hrest⟩ j h₁ h₂
      rcases Nat.eq_or_lt_of_le h₁ with rfl | hlt
      · exact h
      · exact hrest j hlt (by omega)
    · intro h
      exact ⟨h i (Nat.le_refl i) (by omega), fun j h₁ h₂ => h j (by omega) (by omega)⟩

/-- What the scan and the checks before it come to. -/
theorem rangeIsUnallocated_eq_true_iff {device : BlockDevice} {a n : UInt64} : rangeIsUnallocated device a n = true ↔
    (n ≠ 0 ∧ a.toNat + n.toNat ≤ device.sectorCount.toNat) ∧ 0 < a.toNat ∧
      ∃ mbr, device.blockRead 0 1 = some mbr ∧ hasSignature mbr = true ∧
        ∀ j < mbrPartitionCount, (mbrEntry mbr j).Avoids device.sectorCount.toNat a.toNat n.toNat := by
  rw [rangeIsUnallocated]
  by_cases hvalid : rangeValid device a n = true
  · obtain ⟨hn, hinside⟩ := rangeValid_iff.1 hvalid
    have hmax := device.sectorCount.toNat_lt
    have hnpos := toNat_pos.2 hn
    have hzero : rangesOverlap a n 0 1 = false ↔ 0 < a.toNat := by
      rw [rangesOverlap_eq_false_iff hn (by decide) (by omega) (by decide), show (0 : UInt64).toNat = 0 from rfl,
        show (1 : UInt64).toNat = 1 from rfl]
      omega
    by_cases ha : 0 < a.toNat
    · rw [if_neg (by rw [hvalid, hzero.2 ha]; exact Bool.false_ne_true)]
      cases hread : device.blockRead 0 1 with
      | none =>
        refine iff_of_false Bool.false_ne_true ?_
        rintro ⟨-, -, mbr, h, -⟩
        cases h
      | some mbr =>
        simp only
        by_cases hsig : hasSignature mbr = true
        · rw [if_neg (by rw [hsig]; exact Bool.false_ne_true), entriesAvoid_iff hn hinside]
          constructor
          · intro h
            exact ⟨⟨hn, hinside⟩, ha, mbr, rfl, hsig, fun j hj => h j (Nat.zero_le j) (by omega)⟩
          · rintro ⟨-, -, mbr', h, -, havoid⟩
            cases h
            exact fun j _ hj => havoid j (by omega)
        · rw [if_pos (by rw [Bool.not_eq_true] at hsig; rw [hsig]; rfl)]
          refine iff_of_false Bool.false_ne_true ?_
          rintro ⟨-, -, mbr', h, h', -⟩
          cases h
          exact hsig h'
    · rw [if_pos (by rw [eq_true_of_ne_false fun h => ha (hzero.1 h), Bool.or_true])]
      exact iff_of_false Bool.false_ne_true fun h => ha h.2.1
  · rw [if_pos (by rw [Bool.not_eq_true] at hvalid; rw [hvalid]; rfl)]
    exact iff_of_false Bool.false_ne_true fun h => hvalid (rangeValid_iff.2 h.1)

/-- A range is unallocated just when it is inside the device, without its first sector, on a disk with an MBR whose
entries are in order, none of them a GPT's, and have no sector of the range. -/
theorem rangeIsUnallocated_iff (device : BlockDevice) (a n : UInt64) : rangeIsUnallocated device a n = true ↔
    0 < n.toNat ∧ a.toNat + n.toNat ≤ device.sectorCount.toNat ∧ 0 ∉ Set.Ico a.toNat (a.toNat + n.toNat) ∧
    ∃ mbr, device.blockRead 0 1 = some mbr ∧ mbr 510 = 0x55 ∧ mbr 511 = 0xaa ∧ ∀ j < 4,
      ((mbrEntry mbr j).status = 0x00 ∨ (mbrEntry mbr j).status = 0x80) ∧
      ((mbrEntry mbr j).count ≠ 0 → (mbrEntry mbr j).type ≠ 0xee) ∧
      ((mbrEntry mbr j).type ≠ 0 ∧ (mbrEntry mbr j).count ≠ 0 →
        (mbrEntry mbr j).first.toNat + (mbrEntry mbr j).count.toNat ≤ device.sectorCount.toNat ∧
        Disjoint (Set.Ico a.toNat (a.toNat + n.toNat))
          (Set.Ico (mbrEntry mbr j).first.toNat ((mbrEntry mbr j).first.toNat + (mbrEntry mbr j).count.toNat))) := by
  have havoids : ∀ e : MbrEntry, 0 < n.toNat → (e.Avoids device.sectorCount.toNat a.toNat n.toNat ↔
      (e.status = 0x00 ∨ e.status = 0x80) ∧ (e.count ≠ 0 → e.type ≠ 0xee) ∧ (e.type ≠ 0 ∧ e.count ≠ 0 →
        e.first.toNat + e.count.toNat ≤ device.sectorCount.toNat ∧
        Disjoint (Set.Ico a.toNat (a.toNat + n.toNat)) (Set.Ico e.first.toNat (e.first.toNat + e.count.toNat)))) := by
    intro e hn
    have hpos : e.Used → 0 < e.count.toNat := fun hu => Nat.pos_iff_ne_zero.2 fun h0 => hu.2 (UInt32.toNat_inj.1 h0)
    constructor
    · intro h
      refine ⟨h.status, fun hc ht => h.noGpt ⟨by rw [ht]; decide, hc⟩ ht, fun hu => ⟨h.inside hu, ?_⟩⟩
      exact (disjoint_Ico hn (hpos hu)).2 (h.apart hu)
    · rintro ⟨hstatus, hgpt, hrange⟩
      exact ⟨hstatus, fun hu => hgpt hu.2, fun hu => (hrange hu).1,
        fun hu => (disjoint_Ico hn (hpos hu)).1 (hrange hu).2⟩
  have hsignature : ∀ mbr : Bytes, hasSignature mbr = true ↔ mbr 510 = 0x55 ∧ mbr 511 = 0xaa := by
    intro mbr
    rw [hasSignature, Bool.and_eq_true, beq_iff_eq, beq_iff_eq]
    rfl
  rw [rangeIsUnallocated_eq_true_iff, ← toNat_pos]
  constructor
  · rintro ⟨⟨hn, hinside⟩, ha, mbr, hread, hsig, hall⟩
    obtain ⟨h55, haa⟩ := (hsignature mbr).1 hsig
    exact ⟨hn, hinside, fun h => absurd h.1 (Nat.not_le.2 ha), mbr, hread, h55, haa,
      fun j hj => (havoids _ hn).1 (hall j hj)⟩
  · rintro ⟨hn, hinside, hzero, mbr, hread, h55, haa, hall⟩
    refine ⟨⟨hn, hinside⟩, Nat.pos_iff_ne_zero.2 fun h0 => hzero ?_, mbr, hread, (hsignature mbr).2 ⟨h55, haa⟩,
      fun j hj => (havoids _ hn).2 (hall j hj)⟩
    rw [h0]
    exact ⟨Nat.le_refl 0, by omega⟩

end JoshBios.Partition
