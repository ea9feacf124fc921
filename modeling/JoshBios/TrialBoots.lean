import JoshBios.HealthRun
import JoshBios.HealthStore

/-! # A trial boots a bounded number of times

After `begin_update` every boot calls `prepare_attempt`; between the calls failures may be noted, and the record goes
through the two health sectors and back any number of times. On a drive that serves both sectors a round trip gives the
record back (`roundTrip_same`), because no stored copy is newer (`NoneNewer`). So the attempts that are counted are all
the attempts there were, and the trial ends with the first one over the limit (`TrialInv`). -/

namespace JoshBios.Stage2

open Health (HealthRecord BootSlot valid recordAt slotOf)
open Lib

variable {D : Type}

/-- The drive reads and writes the two health sectors. -/
structure Reliable (drive : BiosDrive D) (contents : D → Sectors) : Prop where
  read : ∀ d odd, ∃ sector, drive.read d (cellLba odd) 1 = some sector ∧
    ∀ i < sectorSize, sector i = contents d (cellLba odd) i
  write : ∀ d odd data, ∃ d', drive.write d (cellLba odd) 1 data = (true, d') ∧
    (∀ i < sectorSize, contents d' (cellLba odd) i = data i) ∧
    ∀ i < sectorSize, contents d' (cellLba (!odd)) i = contents d (cellLba (!odd)) i

/-- The record in memory, and the machine it is in. -/
structure Trial (D : Type) where
  record : HealthRecord
  bios : Bios D

inductive TrialOp where
  | attempt
  | note (stage : UInt32)
  | roundTrip
deriving DecidableEq, Repr

/-- `health_persist`, and `health_load` in the next boot. -/
def roundTrip (drive : BiosDrive D) (x : Trial D) : Trial D :=
  let loaded := healthLoad drive (healthPersist drive x.record x.bios)
  ⟨loaded.1, loaded.2⟩

def trialStep (drive : BiosDrive D) (maxAttempts : UInt32) : TrialOp → Trial D → Option BootSlot × Trial D
  | .attempt, x =>
    (some (Health.prepareAttempt x.record maxAttempts).1,
      { x with record := (Health.prepareAttempt x.record maxAttempts).2 })
  | .note stage, x => (none, { x with record := Health.noteFailure x.record stage })
  | .roundTrip, x => (none, roundTrip drive x)

abbrev TrialCall (D : Type) := Event TrialOp (Trial D) (Option BootSlot)

/-- The attempts in a history. -/
def attempts (hist : List (TrialCall D)) : Nat := hist.countP fun ev => ev.op = .attempt

/-- The call did not wrap the generation. -/
def NoWrap (ev : TrialCall D) : Prop := ev.op ≠ .roundTrip → version ev.pre.record ≤ version ev.post.record

/-- No valid copy in the sectors is newer than `r`. -/
def NoneNewer (c : Sectors) (r : HealthRecord) : Prop := ∀ odd, valid (cells c odd) = true → version (cells c odd) ≤ version r

/-- The slot to boot when the trial of `candidate` has failed. -/
def afterTrial (r : HealthRecord) (candidate : UInt32) : BootSlot :=
  slotOf (if r.lastGoodSlot ≠ candidate then r.lastGoodSlot else BootSlot.recovery.code)

/-! ### Round trips -/

/-- The sectors hold `r` or older records. -/
def Behind (c : Sectors) (r : HealthRecord) : Prop :=
  ∀ odd, valid (cells c odd) = true → version (cells c odd) < version r ∨ cells c odd = r

theorem Behind.newer {c : Sectors} {r r' : HealthRecord} (h : Behind c r) (hr : r' = r ∨ version r < version r') :
    Behind c r' := by
  rcases hr with rfl | hlt
  · exact h
  · intro odd hv
    rcases h odd hv with hold | heq
    · exact Or.inl (by omega)
    · rw [heq]
      exact Or.inl hlt

theorem Behind.choose {c : Sectors} {r : HealthRecord} (h : Behind c r) (hv : valid r = true) {odd : Bool}
    (hc : cells c odd = r) : Health.choose (cells c false) (cells c true) = (true, r) := by
  have hge : ∀ a b : HealthRecord, a.generation ≥ b.generation ↔ version b ≤ version a := fun a b =>
    UInt64.le_iff_toNat_le
  have hA := h false
  have hB := h true
  unfold Health.choose
  simp only [hge]
  cases odd with
  | false =>
    rw [hc, hv]
    cases hvB : valid (cells c true) with
    | false => simp
    | true =>
      rcases hB hvB with hlt | heq
      · simp [Nat.le_of_lt hlt]
      · simp [heq]
  | true =>
    rw [hc, hv]
    cases hvA : valid (cells c false) with
    | false => simp
    | true =>
      rcases hA hvA with hlt | heq
      · simp [Nat.not_le.2 hlt]
      · simp [heq]

section Reliable
variable {drive : BiosDrive D} {contents : D → Sectors} (hd : Reliable drive contents)
include hd

theorem healthWriteCopy_reliable {r : HealthRecord} (hv : valid r = true) (d : D) :
    ∃ d', healthWriteCopy drive d (healthLba r) r = (true, d') ∧ cells (contents d') (TwoCopy.home version r) = r ∧
      cells (contents d') (!TwoCopy.home version r) = cells (contents d) (!TwoCopy.home version r) := by
  obtain ⟨d', hwrite, hnew, hother⟩ := hd.write d (TwoCopy.home version r) r.bytes
  obtain ⟨sector, hread, hsector⟩ := hd.read d' (TwoCopy.home version r)
  have hcell : cells (contents d') (TwoCopy.home version r) = r := by
    rw [cells, recordAt_sector hnew, Health.recordAt_bytes]
  have hback : recordAt sector = r := by
    rw [recordAt_sector hsector]
    exact hcell
  refine ⟨d', ?_, hcell, recordAt_sector hother⟩
  rw [← healthLba_eq] at hwrite hread
  simp only [healthWriteCopy, hwrite, healthReadCopy, hread, hback, hv, beq_self_eq_true, Bool.and_self]

theorem roundTrip_same {x : Trial D} (hv : valid x.record = true) (hon : x.bios.healthPersistentEnabled = true)
    (hb : Behind (contents x.bios.drive) x.record) :
    (roundTrip drive x).record = x.record ∧ (roundTrip drive x).bios.healthPersistentEnabled = true ∧
      Behind (contents (roundTrip drive x).bios.drive) x.record := by
  obtain ⟨d', hwrite, hcell, hother⟩ := healthWriteCopy_reliable hd hv x.bios.drive
  have hb' : Behind (contents d') x.record := by
    intro odd hvalid
    by_cases hodd : odd = TwoCopy.home version x.record
    · subst hodd
      exact Or.inr hcell
    · obtain rfl : odd = !TwoCopy.home version x.record := Bool.eq_not_of_ne hodd
      rw [hother] at hvalid ⊢
      exact hb _ hvalid
  have hpersist : (healthPersist drive x.record x.bios).drive = d' := by
    simp only [healthPersist, hon, Bool.not_true, Bool.false_eq_true, if_false, hwrite, say]
  obtain ⟨a, ha, hasec⟩ := hd.read d' false
  obtain ⟨b, hb₁, hbsec⟩ := hd.read d' true
  have hca : recordAt a = cells (contents d') false := recordAt_sector hasec
  have hcb : recordAt b = cells (contents d') true := recordAt_sector hbsec
  have hsome : (!valid (cells (contents d') false) && !valid (cells (contents d') true)) = false := by
    cases hh : TwoCopy.home version x.record with
    | false =>
      rw [hh] at hcell
      simp [hcell, hv]
    | true =>
      rw [hh] at hcell
      simp [hcell, hv]
  have hload : healthLoad drive (healthPersist drive x.record x.bios) =
      (x.record, say "JOSHBOOT_HEALTH_LOADED\n"
        { healthPersist drive x.record x.bios with healthPersistentEnabled := true }) := by
    simp only [healthLoad, healthReadCopy, hpersist, show Health.healthLbaA = cellLba false from rfl,
      show Health.healthLbaB = cellLba true from rfl, ha, hb₁, hca, hcb, hsome, Bool.false_eq_true, if_false,
      hb'.choose hv hcell]
  unfold roundTrip
  rw [hload]
  refine ⟨rfl, rfl, ?_⟩
  show Behind (contents (healthPersist drive x.record x.bios).drive) x.record
  rw [hpersist]
  exact hb'

end Reliable

/-! ### The trial -/

/-- A call that does not wrap the generation leaves the record alone or makes it newer. -/
theorem newer_of_does {r r' : HealthRecord} {op : Health.Op} {a : Health.Answer} (h : Health.Does r op a r')
    (hle : version r ≤ version r') : r' = r ∨ version r < version r' := by
  have hne : ∀ {r' : HealthRecord}, r'.generation = r.generation + 1 → version r ≤ version r' →
      version r < version r' := by
    intro r' hg hle
    refine Nat.lt_of_le_of_ne hle fun heq => ?_
    have : r.generation = r.generation + 1 := (UInt64.toNat_inj.1 heq).trans hg
    simp at this
  cases h with
  | refused => exact Or.inl rfl
  | ignored => exact Or.inl rfl
  | settled => exact Or.inl rfl
  | began => exact Or.inr (hne rfl hle)
  | tried => exact Or.inr (hne rfl hle)
  | exhausted => exact Or.inr (hne rfl hle)
  | marked => exact Or.inr (hne rfl hle)
  | noted => exact Or.inr (hne rfl hle)
  | fellBack => exact Or.inr (hne rfl hle)

/-- The record after `k` attempts. -/
structure OnTrial (lastGood candidate : UInt32) (maxAttempts k : Nat) (r : HealthRecord) : Prop where
  is_valid : valid r = true
  last_good : r.lastGoodSlot = lastGood
  trying : k ≤ maxAttempts → r.pendingGood = 1 ∧ r.selectedSlot = candidate ∧ r.attemptCount.toNat = k
  ended : maxAttempts < k → r.pendingGood = 0 ∧
    r.selectedSlot = if lastGood ≠ candidate then lastGood else BootSlot.recovery.code

section OnTrial
variable {lastGood candidate maxAttempts : UInt32} {k : Nat} {r : HealthRecord}

/-- What an attempt after `k` others returns. -/
structure Attempted (lastGood candidate : UInt32) (maxAttempts k : Nat) (r : HealthRecord) (slot : BootSlot)
    (r' : HealthRecord) : Prop where
  trying : k < maxAttempts → slot = slotOf candidate ∧ r'.pendingGood = 1
  last : k = maxAttempts →
    slot = slotOf (if lastGood ≠ candidate then lastGood else BootSlot.recovery.code) ∧ r'.pendingGood = 0
  ended : maxAttempts < k →
    slot = slotOf (if lastGood ≠ candidate then lastGood else BootSlot.recovery.code) ∧ r' = r

theorem OnTrial.attempt (h : OnTrial lastGood candidate maxAttempts.toNat k r) (hm : maxAttempts ≠ 0) :
    OnTrial lastGood candidate maxAttempts.toNat (k + 1) (Health.prepareAttempt r maxAttempts).2 ∧
      Attempted lastGood candidate maxAttempts.toNat k r (Health.prepareAttempt r maxAttempts).1
        (Health.prepareAttempt r maxAttempts).2 := by
  have hv := (Health.prepareAttempt_spec h.is_valid maxAttempts).valid
  have hdoes := Health.does_prepareAttempt h.is_valid maxAttempts
  have hallowed : Health.attemptsAllowed maxAttempts = maxAttempts := if_neg hm
  generalize (Health.prepareAttempt r maxAttempts).1 = slot at hdoes ⊢
  generalize (Health.prepareAttempt r maxAttempts).2 = r' at hv hdoes ⊢
  cases hdoes with
  | settled hp =>
    have hk : maxAttempts.toNat < k := by
      by_contra hle
      rw [(h.trying (by omega)).1] at hp
      cases hp
    obtain ⟨hp, hs⟩ := h.ended hk
    refine ⟨⟨hv, h.last_good, fun hle => ?_, fun _ => ⟨hp, hs⟩⟩, fun hlt => ?_, fun heq => ?_, fun _ => ⟨by rw [hs], rfl⟩⟩
    · omega
    · omega
    · omega
  | tried hp hn =>
    rw [hallowed, UInt32.lt_iff_toNat_lt] at hn
    have hk : k ≤ maxAttempts.toNat := by
      by_contra hlt
      exact hp (h.ended (by omega)).1
    obtain ⟨hp, hs, hc⟩ := h.trying hk
    have hlim := maxAttempts.toNat_lt
    have hcount : (r.attemptCount + 1).toNat = k + 1 := by
      rw [UInt32.toNat_add, hc]
      show (k + 1) % 2 ^ 32 = k + 1
      exact Nat.mod_eq_of_lt (by omega)
    refine ⟨⟨hv, h.last_good, fun _ => ⟨hp, hs, hcount⟩, fun hlt => ?_⟩, fun _ => ⟨by rw [hs], hp⟩, fun heq => ?_,
      fun hlt => ?_⟩
    · omega
    · omega
    · omega
  | exhausted hp hn hslot =>
    rw [hallowed, UInt32.le_iff_toNat_le] at hn
    have hk : k ≤ maxAttempts.toNat := by
      by_contra hlt
      exact hp (h.ended (by omega)).1
    obtain ⟨-, hs, hc⟩ := h.trying hk
    rw [hs, h.last_good] at hslot
    refine ⟨⟨hv, h.last_good, fun hle => ?_, fun _ => ⟨rfl, hslot⟩⟩, fun hlt => ?_, fun _ => ⟨by rw [hslot], rfl⟩,
      fun hlt => ?_⟩
    · omega
    · omega
    · omega

theorem OnTrial.note (h : OnTrial lastGood candidate maxAttempts.toNat k r) (stage : UInt32) :
    OnTrial lastGood candidate maxAttempts.toNat k (Health.noteFailure r stage) := by
  have hv := Health.valid_noteFailure h.is_valid stage
  have hdoes := Health.does_noteFailure h.is_valid stage
  generalize Health.noteFailure r stage = r' at hv hdoes
  cases hdoes with
  | ignored => exact h
  | noted => exact ⟨hv, h.last_good, h.trying, h.ended⟩

end OnTrial

section Run
variable {drive : BiosDrive D} {contents : D → Sectors} {lastGood candidate maxAttempts : UInt32}

/-- The state after the calls `hist`. -/
structure TrialInv (contents : D → Sectors) (lastGood candidate maxAttempts : UInt32) (hist : List (TrialCall D))
    (x : Trial D) : Prop where
  record : OnTrial lastGood candidate maxAttempts.toNat (attempts hist) x.record
  enabled : x.bios.healthPersistentEnabled = true
  behind : Behind (contents x.bios.drive) x.record

theorem TrialInv.step {hist : List (TrialCall D)} {x : Trial D} (hd : Reliable drive contents) (hm : maxAttempts ≠ 0)
    (h : TrialInv contents lastGood candidate maxAttempts hist x) (op : TrialOp)
    (hw : NoWrap (Event.of (trialStep drive maxAttempts) op x)) :
    TrialInv contents lastGood candidate maxAttempts (Event.of (trialStep drive maxAttempts) op x :: hist)
      (trialStep drive maxAttempts op x).2 := by
  have hv := h.record.is_valid
  cases op with
  | attempt =>
    have hnew := newer_of_does (Health.does_prepareAttempt hv maxAttempts) (hw nofun)
    have hcount : attempts (Event.of (trialStep drive maxAttempts) .attempt x :: hist) = attempts hist + 1 :=
      List.countP_cons_of_pos rfl
    refine ⟨?_, h.enabled, h.behind.newer hnew⟩
    rw [hcount]
    exact (h.record.attempt hm).1
  | note stage =>
    have hnew := newer_of_does (Health.does_noteFailure hv stage) (hw nofun)
    exact ⟨h.record.note stage, h.enabled, h.behind.newer hnew⟩
  | roundTrip =>
    obtain ⟨hr, hon, hb⟩ := roundTrip_same hd hv h.enabled h.behind
    refine ⟨?_, hon, ?_⟩
    · show OnTrial _ _ _ (attempts hist) (roundTrip drive x).record
      rw [hr]
      exact h.record
    · show Behind _ (roundTrip drive x).record
      rw [hr]
      exact hb

theorem trialInv_start {r₀ r : HealthRecord} {s : Bios D} (hb : Health.beginUpdate r₀ candidate = (true, r))
    (hon : s.healthPersistentEnabled = true) (hold : NoneNewer (contents s.drive) r₀) (hw : version r₀ + 1 < 2 ^ 64) :
    TrialInv contents r₀.lastGoodSlot candidate maxAttempts [] ⟨r, s⟩ := by
  obtain ⟨hv, hdoes⟩ := Health.beginUpdate_ok hb
  have hvr := Health.valid_beginUpdate hv candidate
  rw [hb] at hvr
  have hgen : r.generation = r₀.generation + 1 := by
    cases hdoes with
    | began => rfl
  have hver : version r = version r₀ + 1 := Health.toNat_generation_succ hgen hw
  have hbehind : Behind (contents s.drive) r := by
    intro odd hodd
    have hle := hold odd hodd
    exact Or.inl (by omega)
  cases hdoes with
  | began => exact ⟨⟨hvr, rfl, fun _ => ⟨rfl, rfl, rfl⟩, nofun⟩, hon, hbehind⟩

theorem afterTrial_ne {r₀ r : HealthRecord} (hb : Health.beginUpdate r₀ candidate = (true, r)) :
    afterTrial r₀ candidate ≠ slotOf candidate := by
  obtain ⟨hv, hdoes⟩ := Health.beginUpdate_ok hb
  have hl := (Health.wellFormed_of_valid hv).lastGood
  cases hdoes with
  | began hc hr =>
    intro heq
    have hcode := congrArg BootSlot.code heq
    rw [afterTrial, Health.code_slotOf hc] at hcode
    split at hcode
    next hne =>
      rw [Health.code_slotOf hl] at hcode
      exact hne hcode
    · exact hr hcode.symm

/-- After a `begin_update` of `candidate`, on a drive that serves the health sectors and held no newer record:
whatever is noted, persisted and reloaded in between, the first `maxAttempts` attempts boot the candidate and leave it
on trial, the next one ends the trial with another slot, and all later ones boot that slot and change nothing. -/
theorem trial_boots_bounded (hd : Reliable drive contents) (hm : maxAttempts ≠ 0) {r₀ r : HealthRecord} {s : Bios D}
    (hb : Health.beginUpdate r₀ candidate = (true, r)) (hon : s.healthPersistentEnabled = true)
    (hold : NoneNewer (contents s.drive) r₀) (hw : version r₀ + 1 < 2 ^ 64) {hist : List (TrialCall D)} {x : Trial D}
    (h : Reaches (trialStep drive maxAttempts) ⟨r, s⟩ hist x) (hwrap : ∀ ev ∈ hist, NoWrap ev) :
    afterTrial r₀ candidate ≠ slotOf candidate ∧
    ∀ newer ev older, hist = newer ++ ev :: older → ev.op = .attempt →
      (attempts older < maxAttempts.toNat →
        ev.res = some (slotOf candidate) ∧ ev.post.record.pendingGood = 1) ∧
      (attempts older = maxAttempts.toNat →
        ev.res = some (afterTrial r₀ candidate) ∧ ev.post.record.pendingGood = 0) ∧
      (maxAttempts.toNat < attempts older →
        ev.res = some (afterTrial r₀ candidate) ∧ ev.post.record = ev.pre.record) := by
  refine ⟨afterTrial_ne hb, ?_⟩
  rintro newer ev older rfl hop
  obtain ⟨hpre, hev⟩ := h.of_append
  have hinv : TrialInv contents r₀.lastGoodSlot candidate maxAttempts older ev.pre :=
    hpre.invariant NoWrap (TrialInv contents r₀.lastGoodSlot candidate maxAttempts) (trialInv_start hb hon hold hw)
      (fun hist x op _ hi hok => hi.step hd hm op hok)
      fun ev' hev' => hwrap ev' (List.mem_append_right _ (List.mem_cons_of_mem _ hev'))
  obtain ⟨-, htry, hlast, hover⟩ := hinv.record.attempt hm
  rw [hop] at hev
  have hres : ev.res = some (Health.prepareAttempt ev.pre.record maxAttempts).1 := congrArg Event.res hev
  have hpost : ev.post.record = (Health.prepareAttempt ev.pre.record maxAttempts).2 :=
    congrArg (fun e => e.post.record) hev
  rw [hres, hpost]
  refine ⟨fun hk => ?_, fun hk => ?_, fun hk => ?_⟩
  · obtain ⟨hslot, hp⟩ := htry hk
    exact ⟨congrArg some hslot, hp⟩
  · obtain ⟨hslot, hp⟩ := hlast hk
    exact ⟨congrArg some hslot, hp⟩
  · obtain ⟨hslot, hr⟩ := hover hk
    exact ⟨congrArg some hslot, hr⟩

end Run

theorem plainDrive_reliable : Reliable plainDrive id := by
  refine ⟨fun d odd => ⟨d (cellLba odd), rfl, fun _ _ => rfl⟩, fun d odd data => ⟨_, rfl, fun i _ => ?_, fun i _ => ?_⟩⟩
  · simp
  · have hne : cellLba (!odd) ≠ cellLba odd := fun heq => by simpa using cellLba_inj heq
    simp [hne]

/-- The default record with an update of the previous slot begun. -/
def trialRecord : HealthRecord := (Health.beginUpdate Health.healthDefault 1).2

def trialBios : Bios Sectors := { freshBios with healthPersistentEnabled := true }

/-- The second attempt, after a round trip, when one is allowed. -/
def secondAttempt : TrialCall Sectors :=
  Event.of (trialStep plainDrive 1) .attempt
    (runOps (trialStep plainDrive 1) [.attempt, .roundTrip] ⟨trialRecord, trialBios⟩)

theorem trial_boots_bounded_plain :
    secondAttempt.res = some .current ∧ secondAttempt.post.record.pendingGood = 0 := by
  have hb : Health.beginUpdate Health.healthDefault 1 = (true, trialRecord) := by
    have heq : Health.beginUpdate Health.healthDefault 1 = _ :=
      Health.beginUpdate_eq Health.valid_healthDefault .previous (by decide)
    rw [trialRecord, heq]
  have hold : NoneNewer (id trialBios.drive) Health.healthDefault := by
    intro odd hv
    cases odd with
    | false => decide
    | true => exact absurd hv (by decide)
  have hreach : Reaches (trialStep plainDrive 1) ⟨trialRecord, trialBios⟩ (secondAttempt :: _) _ :=
    (reaches_runOps (trialStep plainDrive 1) [.attempt, .roundTrip] ⟨trialRecord, trialBios⟩).call TrialOp.attempt
  have hall : (secondAttempt ::
      histOps (trialStep plainDrive 1) [.attempt, .roundTrip] ⟨trialRecord, trialBios⟩ []).all
      (fun ev => version ev.pre.record ≤ version ev.post.record) = true := by decide +kernel
  have hslot : afterTrial Health.healthDefault 1 = .current := rfl
  rw [← hslot]
  refine ((trial_boots_bounded plainDrive_reliable (by decide) hb rfl hold (by decide) hreach ?_).2
    [] secondAttempt _ rfl rfl).2.1 rfl
  intro ev hev _
  exact of_decide_eq_true (List.all_eq_true.1 hall ev hev)

end JoshBios.Stage2
