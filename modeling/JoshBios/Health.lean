import JoshBios.Crc32

/-!
# Boot health (`boot/core/health.c`)

The boot-health record says which kernel slot to boot, which slot last proved good, and whether the
selected one is still on trial. It is a packed structure of 56 bytes; its last field is the CRC-32 of
the 52 bytes before it, which every operation renews (`sealRecord`).

The record's slots and failure stage are plain `uint32_t`, and the operations check the slots and
stages they are given, so these stay numbers here; `BootSlot` is what the boot code works with.
-/

namespace JoshBios.Health

inductive BootSlot where
  | current | previous | recovery
deriving DecidableEq, Repr

def BootSlot.code : BootSlot → UInt32
  | .current => 0
  | .previous => 1
  | .recovery => 2

/-- The cast `(josh_boot_slot_t)n`; only the three codes occur in a valid record. -/
def slotOf (n : UInt32) : BootSlot := if n = 0 then .current else if n = 1 then .previous else .recovery

inductive FailureStage where
  | none | config | kernelFile | elf | handoff | kernel | userspace | desktop
deriving DecidableEq, Repr

def FailureStage.code : FailureStage → UInt32
  | .none => 0
  | .config => 1
  | .kernelFile => 2
  | .elf => 3
  | .handoff => 4
  | .kernel => 5
  | .userspace => 6
  | .desktop => 7

-- JOSH_BOOT_HEALTH_*
def healthMagic : UInt32 := 0x48424a53
def healthVersion : UInt16 := 1
def healthMaxAttempts : UInt32 := 3
def healthLbaA : UInt64 := 1984
def healthLbaB : UInt64 := 1985

structure HealthRecord where
  magic : UInt32
  version : UInt16
  size : UInt16
  generation : UInt64
  selectedSlot : UInt32
  lastGoodSlot : UInt32
  pendingGood : UInt32
  attemptCount : UInt32
  lastFailureStage : UInt32
  reserved0 : UInt32
  updateGeneration : UInt64
  reserved1 : UInt32
  checksum : UInt32
deriving DecidableEq, Repr

-- sizeof(josh_boot_health_record_t) and offsetof(…, checksum)
def recordSize : UInt16 := 56
def checksumOffset : Nat := 52

/-- The fields the checksum covers, with their widths. -/
def HealthRecord.fields (r : HealthRecord) : List (Nat × Nat) :=
  [(4, r.magic.toNat), (2, r.version.toNat), (2, r.size.toNat), (8, r.generation.toNat),
    (4, r.selectedSlot.toNat), (4, r.lastGoodSlot.toNat), (4, r.pendingGood.toNat),
    (4, r.attemptCount.toNat), (4, r.lastFailureStage.toNat), (4, r.reserved0.toNat),
    (8, r.updateGeneration.toNat), (4, r.reserved1.toNat)]

/-- The record in memory, and zeros after it: what `health_write_copy` puts into a sector. -/
def HealthRecord.bytes (r : HealthRecord) : Bytes := bytesOf (packBytes (r.fields ++ [(4, r.checksum.toNat)]))

/-- The record whose bytes are at the start of `b`. -/
def recordAt (b : Bytes) : HealthRecord where
  magic := le32 b 0
  version := le16 b 4
  size := le16 b 6
  generation := le64 b 8
  selectedSlot := le32 b 16
  lastGoodSlot := le32 b 20
  pendingGood := le32 b 24
  attemptCount := le32 b 28
  lastFailureStage := le32 b 32
  reserved0 := le32 b 36
  updateGeneration := le64 b 40
  reserved1 := le32 b 48
  checksum := le32 b 52

def slotValid (slot : UInt32) : Bool := slot ≤ BootSlot.recovery.code

def checksumFor (r : HealthRecord) : UInt32 := crc32Bytes r.bytes checksumOffset

def sealRecord (r : HealthRecord) : HealthRecord := { r with checksum := checksumFor r }

/-- `josh_boot_health_default`: a zeroed record, filled in and sealed. -/
def healthDefault : HealthRecord :=
  sealRecord
    { magic := healthMagic, version := healthVersion, size := recordSize, generation := 0
      selectedSlot := BootSlot.current.code, lastGoodSlot := BootSlot.current.code, pendingGood := 0
      attemptCount := 0, lastFailureStage := 0, reserved0 := 0, updateGeneration := 0, reserved1 := 0
      checksum := 0 }

def valid (r : HealthRecord) : Bool :=
  if r.magic ≠ healthMagic ∨ r.version ≠ healthVersion ∨ r.size ≠ recordSize ∨
      slotValid r.selectedSlot = false ∨ slotValid r.lastGoodSlot = false ∨ r.pendingGood > 1 ∨
      r.lastFailureStage > FailureStage.desktop.code then false
  else r.checksum == checksumFor r

/-- `josh_boot_health_choose`: the newer valid copy, `a` when they are equally new. -/
def choose (a b : HealthRecord) : Bool × HealthRecord :=
  if !valid a && !valid b then (false, healthDefault)
  else (true, if valid a && (!valid b || a.generation ≥ b.generation) then a else b)

def beginUpdate (r : HealthRecord) (candidate : UInt32) : Bool × HealthRecord :=
  if !valid r || !slotValid candidate || candidate == BootSlot.recovery.code then (false, r)
  else (true, sealRecord
    { r with
      generation := r.generation + 1
      updateGeneration := r.updateGeneration + 1
      selectedSlot := candidate
      pendingGood := 1
      attemptCount := 0
      lastFailureStage := FailureStage.none.code })

def prepareAttempt (r : HealthRecord) (maxAttempts : UInt32) : BootSlot × HealthRecord :=
  if !valid r then (.recovery, r) else
  let maxAttempts := if maxAttempts = 0 then healthMaxAttempts else maxAttempts
  let r' :=
    if r.pendingGood ≠ 0 then
      sealRecord (if r.attemptCount ≥ maxAttempts then
        { r with
          generation := r.generation + 1
          selectedSlot :=
            if r.lastGoodSlot ≠ r.selectedSlot then r.lastGoodSlot else BootSlot.recovery.code
          pendingGood := 0
          attemptCount := 0
          lastFailureStage := FailureStage.kernel.code }
      else { r with generation := r.generation + 1, attemptCount := r.attemptCount + 1 })
    else r
  (slotOf r'.selectedSlot, r')

def markGood (r : HealthRecord) (slot : UInt32) : Bool × HealthRecord :=
  if !valid r || !slotValid slot then (false, r)
  else (true, sealRecord
    { r with
      generation := r.generation + 1
      selectedSlot := slot
      lastGoodSlot := slot
      pendingGood := 0
      attemptCount := 0
      lastFailureStage := FailureStage.none.code })

def noteFailure (r : HealthRecord) (stage : UInt32) : HealthRecord :=
  if !valid r || stage > FailureStage.desktop.code then r
  else sealRecord { r with generation := r.generation + 1, lastFailureStage := stage }

def selectFallback (r : HealthRecord) (slot stage : UInt32) : Bool × HealthRecord :=
  if !valid r || !slotValid slot || stage > FailureStage.desktop.code then (false, r)
  else (true, sealRecord
    { r with
      generation := r.generation + 1
      selectedSlot := slot
      pendingGood := 0
      attemptCount := 0
      lastFailureStage := stage })

/-! ### The record in memory -/

theorem crcLoop_congr {b b' : Bytes} {off n : Nat} (h : ∀ i, off ≤ i → i < off + n → b i = b' i)
    (bit : UInt32 → UInt32) (crc : UInt32) : crcLoop bit b off n crc = crcLoop bit b' off n crc := by
  induction n generalizing off crc with
  | zero => rfl
  | succ n ih =>
    simp only [crcLoop]
    rw [h off (Nat.le_refl _) (by omega), ih fun i h₁ h₂ => h i (by omega) (by omega)]

theorem HealthRecord.length_fields (r : HealthRecord) : (packBytes r.fields).length = checksumOffset := by
  simp [length_packBytes, fields, checksumOffset]

/-- The checksum does not cover itself. -/
theorem checksumFor_set (r : HealthRecord) (c : UInt32) :
    checksumFor { r with checksum := c } = checksumFor r := by
  have hlen := r.length_fields
  have hb : ∀ i, 0 ≤ i → i < 0 + checksumOffset →
      HealthRecord.bytes { r with checksum := c } i = r.bytes i := by
    intro i _ hi
    show (packBytes (r.fields ++ _)).getD i 0 = (packBytes (r.fields ++ _)).getD i 0
    rw [packBytes_append, packBytes_append, List.getD_append _ _ _ _ (by omega),
      List.getD_append _ _ _ _ (by omega)]
  unfold checksumFor crc32Bytes
  rw [crcLoop_congr hb]

@[simp] theorem checksumFor_seal (r : HealthRecord) : checksumFor (sealRecord r) = checksumFor r :=
  checksumFor_set r _

theorem recordAt_congr {b b' : Bytes} (h : ∀ i < 56, b i = b' i) : recordAt b = recordAt b' := by
  have hc : ∀ off n, off + n ≤ 56 → leNat b off n = leNat b' off n := fun off n hn =>
    leNat_congr fun i _ hi => h i (by omega)
  simp (disch := omega) only [recordAt, le16, le32, le64, hc]

theorem recordAt_bytes (r : HealthRecord) : recordAt r.bytes = r := by
  have h₀ : le32 r.bytes 0 = r.magic := le32_packBytes (r.fields.take 0) _ _ rfl
  have h₁ : le16 r.bytes 4 = r.version := le16_packBytes (r.fields.take 1) _ _ rfl
  have h₂ : le16 r.bytes 6 = r.size := le16_packBytes (r.fields.take 2) _ _ rfl
  have h₃ : le64 r.bytes 8 = r.generation := le64_packBytes (r.fields.take 3) _ _ rfl
  have h₄ : le32 r.bytes 16 = r.selectedSlot := le32_packBytes (r.fields.take 4) _ _ rfl
  have h₅ : le32 r.bytes 20 = r.lastGoodSlot := le32_packBytes (r.fields.take 5) _ _ rfl
  have h₆ : le32 r.bytes 24 = r.pendingGood := le32_packBytes (r.fields.take 6) _ _ rfl
  have h₇ : le32 r.bytes 28 = r.attemptCount := le32_packBytes (r.fields.take 7) _ _ rfl
  have h₈ : le32 r.bytes 32 = r.lastFailureStage := le32_packBytes (r.fields.take 8) _ _ rfl
  have h₉ : le32 r.bytes 36 = r.reserved0 := le32_packBytes (r.fields.take 9) _ _ rfl
  have h₁₀ : le64 r.bytes 40 = r.updateGeneration := le64_packBytes (r.fields.take 10) _ _ rfl
  have h₁₁ : le32 r.bytes 48 = r.reserved1 := le32_packBytes (r.fields.take 11) _ _ rfl
  have h₁₂ : le32 r.bytes 52 = r.checksum := le32_packBytes r.fields _ [] rfl
  simp only [recordAt, h₀, h₁, h₂, h₃, h₄, h₅, h₆, h₇, h₈, h₉, h₁₀, h₁₁, h₁₂]

/-! ### Validity -/

/-- What `valid` asks for besides the checksum. -/
structure WellFormed (r : HealthRecord) : Prop where
  magic : r.magic = healthMagic
  version : r.version = healthVersion
  size : r.size = recordSize
  selected : slotValid r.selectedSlot = true
  lastGood : slotValid r.lastGoodSlot = true
  pending : r.pendingGood ≤ 1
  stage : r.lastFailureStage ≤ FailureStage.desktop.code

theorem valid_iff {r : HealthRecord} : valid r = true ↔ WellFormed r ∧ r.checksum = checksumFor r := by
  unfold valid
  constructor
  · intro h
    split at h
    · cases h
    · next hn =>
      simp only [not_or, not_not, Bool.not_eq_false, gt_iff_lt, UInt32.not_lt] at hn
      obtain ⟨h₁, h₂, h₃, h₄, h₅, h₆, h₇⟩ := hn
      exact ⟨⟨h₁, h₂, h₃, h₄, h₅, h₆, h₇⟩, by simpa using h⟩
  · rintro ⟨⟨h₁, h₂, h₃, h₄, h₅, h₆, h₇⟩, hc⟩
    simp [h₁, h₂, h₃, h₄, h₅, UInt32.not_lt.2 h₆, UInt32.not_lt.2 h₇, hc]

theorem WellFormed.valid_seal {r : HealthRecord} (h : WellFormed r) : valid (sealRecord r) = true :=
  valid_iff.2 ⟨⟨h.magic, h.version, h.size, h.selected, h.lastGood, h.pending, h.stage⟩,
    (checksumFor_seal r).symm⟩

theorem wellFormed_of_valid {r : HealthRecord} (h : valid r = true) : WellFormed r := (valid_iff.1 h).1

theorem valid_healthDefault : valid healthDefault = true :=
  WellFormed.valid_seal ⟨rfl, rfl, rfl, rfl, rfl, by decide, by decide⟩

/-- Whatever the two copies are, the chosen record is valid. -/
theorem valid_choose (a b : HealthRecord) : valid (choose a b).2 = true := by
  unfold choose
  cases ha : valid a with
  | false =>
    cases hb : valid b with
    | false => exact valid_healthDefault
    | true => simpa [ha] using hb
  | true =>
    cases hb : valid b with
    | false => simpa [hb] using ha
    | true =>
      simp only [Bool.not_true, Bool.and_self, Bool.false_eq_true, if_false, Bool.true_and, Bool.false_or]
      split
      · exact ha
      · exact hb

@[simp] theorem slotValid_code (s : BootSlot) : slotValid s.code = true := by cases s <;> rfl

@[simp] theorem slotOf_code (s : BootSlot) : slotOf s.code = s := by cases s <;> rfl

theorem code_slotOf {n : UInt32} (h : slotValid n = true) : (slotOf n).code = n := by
  have hn : n.toNat ≤ 2 := by simpa [slotValid, BootSlot.code, UInt32.le_iff_toNat_le] using h
  have h3 : n.toNat = 0 ∨ n.toNat = 1 ∨ n.toNat = 2 := by omega
  rcases h3 with h3 | h3 | h3
  · obtain rfl : n = 0 := UInt32.toNat_inj.1 h3
    rfl
  · obtain rfl : n = 1 := UInt32.toNat_inj.1 h3
    rfl
  · obtain rfl : n = 2 := UInt32.toNat_inj.1 h3
    rfl

/-! ### The two operations of the boot code -/

/-- What `prepareAttempt` does to a valid record, the slot aside. -/
structure Prepared (r : HealthRecord) (slot : BootSlot) (r' : HealthRecord) : Prop where
  valid : valid r' = true
  slot : slot.code = r'.selectedSlot
  lastGood : r'.lastGoodSlot = r.lastGoodSlot
  update : r'.updateGeneration = r.updateGeneration
  settled : r.pendingGood = 0 → r' = r
  trial : r.pendingGood ≠ 0 → r'.generation = r.generation + 1

/-- The slot `prepareAttempt` picks: a trial that has used up its attempts goes back to the last good slot,
or to the recovery slot when it is the last good slot itself that failed. -/
def attemptSlot (r : HealthRecord) : BootSlot :=
  if r.pendingGood ≠ 0 ∧ r.attemptCount ≥ healthMaxAttempts then
    if r.lastGoodSlot ≠ r.selectedSlot then slotOf r.lastGoodSlot else .recovery
  else slotOf r.selectedSlot

theorem prepareAttempt_spec {r : HealthRecord} (h : valid r = true) (maxAttempts : UInt32) :
    Prepared r (prepareAttempt r maxAttempts).1 (prepareAttempt r maxAttempts).2 := by
  have hw := wellFormed_of_valid h
  have key : ∀ r', valid r' = true → r'.lastGoodSlot = r.lastGoodSlot →
      r'.updateGeneration = r.updateGeneration → (r.pendingGood = 0 → r' = r) →
      (r.pendingGood ≠ 0 → r'.generation = r.generation + 1) → Prepared r (slotOf r'.selectedSlot) r' :=
    fun r' hv hl hu hs ht => ⟨hv, code_slotOf (wellFormed_of_valid hv).selected, hl, hu, hs, ht⟩
  by_cases hp : r.pendingGood = 0
  · simp only [prepareAttempt, h, hp, Bool.not_true, Bool.false_eq_true, if_false, ne_eq, not_true]
    exact key r h rfl rfl (fun _ => rfl) (fun hn => absurd hp hn)
  simp only [prepareAttempt, h, hp, Bool.not_true, Bool.false_eq_true, if_false, ne_eq, not_false_iff, if_true]
  generalize (if maxAttempts = 0 then healthMaxAttempts else maxAttempts) = m
  by_cases ha : r.attemptCount ≥ m
  · rw [if_pos ha]
    refine key _ (WellFormed.valid_seal ⟨hw.magic, hw.version, hw.size, ?_, hw.lastGood, ?_, ?_⟩) rfl rfl
      (fun h0 => absurd h0 hp) (fun _ => rfl)
    · show slotValid (if _ then _ else _) = true
      split
      · exact hw.lastGood
      · rfl
    · show (0 : UInt32) ≤ 1
      decide
    · show FailureStage.kernel.code ≤ FailureStage.desktop.code
      decide
  · rw [if_neg ha]
    exact key _ (WellFormed.valid_seal ⟨hw.magic, hw.version, hw.size, hw.selected, hw.lastGood, hw.pending,
      hw.stage⟩) rfl rfl (fun h0 => absurd h0 hp) (fun _ => rfl)

theorem prepareAttempt_slot {r : HealthRecord} (h : valid r = true) :
    (prepareAttempt r healthMaxAttempts).1 = attemptSlot r := by
  have hm : (if healthMaxAttempts = 0 then healthMaxAttempts else healthMaxAttempts) = healthMaxAttempts := rfl
  simp only [prepareAttempt, attemptSlot, h, Bool.not_true, Bool.false_eq_true, if_false, hm]
  by_cases hp : r.pendingGood = 0
  · simp [hp]
  by_cases ha : r.attemptCount ≥ healthMaxAttempts
  · by_cases hl : r.lastGoodSlot = r.selectedSlot
    · simp [hp, ha, hl, sealRecord]
    · simp [hp, ha, hl, sealRecord]
  · simp [hp, ha, sealRecord]

/-- What a successful `selectFallback` does. -/
structure FellBack (r : HealthRecord) (slot : BootSlot) (r' : HealthRecord) : Prop where
  valid : valid r' = true
  slot : r'.selectedSlot = slot.code
  lastGood : r'.lastGoodSlot = r.lastGoodSlot
  update : r'.updateGeneration = r.updateGeneration
  pending : r'.pendingGood = 0
  generation : r'.generation = r.generation + 1

theorem selectFallback_spec {r : HealthRecord} (h : valid r = true) (slot : BootSlot) (stage : FailureStage) :
    ∃ r', selectFallback r slot.code stage.code = (true, r') ∧ FellBack r slot r' := by
  have hw := wellFormed_of_valid h
  have hs : ¬ stage.code > FailureStage.desktop.code := by cases stage <;> decide
  have hc : (!valid r || !slotValid slot.code || decide (stage.code > FailureStage.desktop.code)) = false := by
    simp [h, hs]
  refine ⟨_, if_neg (by simp only [hc, Bool.false_eq_true, not_false_iff]), ?_, rfl, rfl, rfl, rfl, rfl⟩
  refine WellFormed.valid_seal ⟨hw.magic, hw.version, hw.size, slotValid_code slot, hw.lastGood, ?_, ?_⟩
  · show (0 : UInt32) ≤ 1
    decide
  · exact UInt32.not_lt.1 hs

theorem toNat_generation_succ {r r' : HealthRecord} (h : r'.generation = r.generation + 1)
    (hlt : r.generation.toNat + 1 < 2 ^ 64) : r'.generation.toNat = r.generation.toNat + 1 := by
  have h1 : (1 : UInt64).toNat = 1 := rfl
  rw [h, UInt64.toNat_add, h1]
  exact Nat.mod_eq_of_lt hlt

/-! ### What an operation makes of a valid record -/

section
variable {r : HealthRecord} (h : valid r = true)
include h

theorem beginUpdate_eq (slot : BootSlot) (hs : slot ≠ .recovery) :
    beginUpdate r slot.code = (true, sealRecord
      { r with
        generation := r.generation + 1, updateGeneration := r.updateGeneration + 1, selectedSlot := slot.code
        pendingGood := 1, attemptCount := 0, lastFailureStage := FailureStage.none.code }) := by
  have hne : (slot.code == BootSlot.recovery.code) = false := by
    cases slot with
    | current => rfl
    | previous => rfl
    | recovery => exact absurd rfl hs
  simp only [beginUpdate, h, slotValid_code, hne, Bool.not_true, Bool.or_self, Bool.false_eq_true, if_false]

theorem markGood_eq (slot : BootSlot) :
    markGood r slot.code = (true, sealRecord
      { r with
        generation := r.generation + 1, selectedSlot := slot.code, lastGoodSlot := slot.code, pendingGood := 0
        attemptCount := 0, lastFailureStage := FailureStage.none.code }) := by
  simp only [markGood, h, slotValid_code, Bool.not_true, Bool.or_self, Bool.false_eq_true, if_false]

theorem prepareAttempt_settled (hp : r.pendingGood = 0) (maxAttempts : UInt32) :
    prepareAttempt r maxAttempts = (slotOf r.selectedSlot, r) := by
  simp only [prepareAttempt, h, hp, Bool.not_true, Bool.false_eq_true, if_false, ne_eq, not_true]

theorem prepareAttempt_tried (hp : r.pendingGood ≠ 0) (hn : r.attemptCount < healthMaxAttempts) :
    prepareAttempt r healthMaxAttempts = (slotOf r.selectedSlot, sealRecord
      { r with generation := r.generation + 1, attemptCount := r.attemptCount + 1 }) := by
  have hm : (if healthMaxAttempts = 0 then healthMaxAttempts else healthMaxAttempts) = healthMaxAttempts := rfl
  simp only [prepareAttempt, h, hp, hm, if_neg (UInt32.not_le.2 hn), Bool.not_true, Bool.false_eq_true, if_false, ne_eq,
    not_false_iff, if_true]
  rfl

end

/-! ### Reachable records -/

/-- The records that the operations make of the default one. -/
inductive Reached : HealthRecord → Prop where
  | default : Reached healthDefault
  | beginUpdate {r : HealthRecord} (candidate : UInt32) : Reached r → Reached (beginUpdate r candidate).2
  | prepareAttempt {r : HealthRecord} (maxAttempts : UInt32) : Reached r → Reached (prepareAttempt r maxAttempts).2
  | markGood {r : HealthRecord} (slot : UInt32) : Reached r → Reached (markGood r slot).2
  | noteFailure {r : HealthRecord} (stage : UInt32) : Reached r → Reached (noteFailure r stage)
  | selectFallback {r : HealthRecord} (slot stage : UInt32) : Reached r → Reached (selectFallback r slot stage).2

theorem valid_beginUpdate {r : HealthRecord} (h : valid r = true) (candidate : UInt32) :
    valid (beginUpdate r candidate).2 = true := by
  have hw := wellFormed_of_valid h
  unfold beginUpdate
  split
  · exact h
  next hc =>
    simp only [Bool.or_eq_true, Bool.not_eq_true', not_or, Bool.not_eq_false] at hc
    exact WellFormed.valid_seal ⟨hw.magic, hw.version, hw.size, hc.1.2, hw.lastGood, UInt32.le_refl 1,
      show FailureStage.none.code ≤ FailureStage.desktop.code by decide⟩

theorem valid_markGood {r : HealthRecord} (h : valid r = true) (slot : UInt32) : valid (markGood r slot).2 = true := by
  have hw := wellFormed_of_valid h
  unfold markGood
  split
  · exact h
  next hc =>
    simp only [Bool.or_eq_true, Bool.not_eq_true', not_or, Bool.not_eq_false] at hc
    exact WellFormed.valid_seal ⟨hw.magic, hw.version, hw.size, hc.2, hc.2, show (0 : UInt32) ≤ 1 by decide,
      show FailureStage.none.code ≤ FailureStage.desktop.code by decide⟩

theorem valid_noteFailure {r : HealthRecord} (h : valid r = true) (stage : UInt32) :
    valid (noteFailure r stage) = true := by
  have hw := wellFormed_of_valid h
  unfold noteFailure
  split
  · exact h
  next hc =>
    simp only [Bool.or_eq_true, Bool.not_eq_true', not_or, Bool.not_eq_false, decide_eq_true_iff] at hc
    exact WellFormed.valid_seal ⟨hw.magic, hw.version, hw.size, hw.selected, hw.lastGood, hw.pending,
      UInt32.not_lt.1 hc.2⟩

theorem valid_selectFallback {r : HealthRecord} (h : valid r = true) (slot stage : UInt32) :
    valid (selectFallback r slot stage).2 = true := by
  have hw := wellFormed_of_valid h
  unfold selectFallback
  split
  · exact h
  next hc =>
    simp only [Bool.or_eq_true, Bool.not_eq_true', not_or, Bool.not_eq_false, decide_eq_true_iff] at hc
    exact WellFormed.valid_seal ⟨hw.magic, hw.version, hw.size, hc.1.2, hw.lastGood,
      show (0 : UInt32) ≤ 1 by decide, UInt32.not_lt.1 hc.2⟩

theorem Reached.valid {r : HealthRecord} (h : Reached r) : valid r = true := by
  induction h with
  | default => exact valid_healthDefault
  | beginUpdate candidate _ ih => exact valid_beginUpdate ih candidate
  | prepareAttempt maxAttempts _ ih => exact (prepareAttempt_spec ih maxAttempts).valid
  | markGood slot _ ih => exact valid_markGood ih slot
  | noteFailure stage _ ih => exact valid_noteFailure ih stage
  | selectFallback slot stage _ ih => exact valid_selectFallback ih slot stage

end JoshBios.Health
