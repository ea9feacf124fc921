import JoshBios.SharedDisk

/-! # Power cuts

The loader and the tool keep the health record in two sectors so that a power cut at any point costs nothing. `Leaves` says
what a run of either can leave behind: what it ends with, what it had written when the power went, or a sector that was being
written. Drives may fail, and every failure may be different. `Performs` is the same run on one record, with the operations
of the health module as atomic steps. Histories of the disk are histories of the record (`power_cuts_atomic`): no operation
takes effect in part, none is lost once a later one has taken effect, and the record never goes back. -/

namespace JoshBios.Stage2

open Health (HealthRecord BootSlot FailureStage valid)
open HealthCtl (FileOps)
open TwoCopy (Holds)
open Lib

variable {D : Type}

/-! ### Operations on a record -/

/-- `ops` make `r'` of `r`, one generation each. -/
def Takes (ops : List Health.Op) (r r' : HealthRecord) : Prop :=
  runOps Health.step ops r = r' ∧ version r' = version r + ops.length

theorem Takes.trans {ops ops' : List Health.Op} {r r' r'' : HealthRecord} (h : Takes ops r r') (h' : Takes ops' r' r'') :
    Takes (ops ++ ops') r r'' := by
  refine ⟨?_, ?_⟩
  · rw [runOps_append, h.1, h'.1]
  · rw [h'.2, h.2, List.length_append, Nat.add_assoc]

theorem Takes.is_valid {ops : List Health.Op} {r r' : HealthRecord} (h : Takes ops r r') (hv : valid r = true) :
    valid r' = true := by
  rw [← h.1]
  clear h
  induction ops generalizing r with
  | nil => exact hv
  | cons op ops ih => exact ih (Health.valid_step hv op)

theorem Takes.single {op : Health.Op} {r r' : HealthRecord} (h : (Health.step op r).2 = r')
    (hg : r'.generation = r.generation + 1) (hroom : version r + 1 < 2 ^ 64) : Takes [op] r r' :=
  ⟨h, Health.toNat_generation_succ hg hroom⟩

/-- The operations that a boot performs. -/
def ByBoot (op : Health.Op) : Prop :=
  op = .prepareAttempt Health.healthMaxAttempts ∨ ∃ slot : BootSlot, op = .selectFallback slot.code FailureStage.kernelFile.code

/-- The operations that a run asks for. -/
def Asks : Action → Health.Op → Prop
  | .boot _, op => ByBoot op
  | .tool argv, op =>
    (commandOf argv = .attempt ∧ op = .prepareAttempt Health.healthMaxAttempts) ∨
      (∃ slot, commandOf argv = .good slot ∧ op = .markGood slot.code) ∨
      ∃ slot, commandOf argv = .pending slot ∧ op = .beginUpdate slot.code

/-- A run on a record: some operations that it asks for. -/
def Performs (action : Action) (r r' : HealthRecord) : Prop :=
  ∃ ops : List Health.Op, ops.length ≤ 3 ∧ (∀ op ∈ ops, Asks action op) ∧ Takes ops r r'

/-! ### What a run leaves -/

/-- The image of the tool: its reads are right, and its writes may end in any way. -/
structure Serves (ops : FileOps D) (contents : D → Sectors) : Prop where
  read : ∀ d odd, ∃ sector, ops.read d (cellLba odd) = some sector ∧ ∀ i < sectorSize, sector i = contents d (cellLba odd) i
  write : ∀ d lba data, Written (contents d) lba data (contents (ops.write d lba data).2)

/-- The command goes on from the record on the disk. `init` does not, which starts over, nor does `attempt` when nothing
is on trial, which writes the record over itself. -/
def Steps (ops : FileOps D) (argv : List String) (d : D) : Prop :=
  commandOf argv ≠ .init ∧ (commandOf argv = .attempt → (HealthCtl.loadState ops d).2.pendingGood ≠ 0)

section Leaves
variable (drive : BiosDrive D) (contents : D → Sectors)

/-- Both health sectors can be read. -/
def Readable (d : D) : Prop :=
  (drive.read d Health.healthLbaA 1).isSome ∧ (drive.read d Health.healthLbaB 1).isSome

/-- What a run on the disk `d` can leave. -/
inductive Leaves : Action → D → D → Prop where
  | booted {p : PowerOn} {d : D} (h : Readable drive d) :
      Leaves (.boot p) d (stage2PmMain drive p.machine (p.bios d)).2.drive
  -- the power goes between the writes `older` and the rest
  | stopped {p : PowerOn} {d : D} {older : List (HealthWrite D)} (h : Readable drive d)
      (hs : older <:+ (stage2PmMain drive p.machine (p.bios d)).2.writes) : Leaves (.boot p) d (driveAfter d older)
  -- the power goes during the write `w`
  | cut {p : PowerOn} {d d' : D} {w : HealthWrite D} {older : List (HealthWrite D)} (h : Readable drive d)
      (hs : (w :: older) <:+ (stage2PmMain drive p.machine (p.bios d)).2.writes)
      (hw : Written (contents w.before) w.lba w.record.bytes (contents d')) : Leaves (.boot p) d d'
  | ran {argv : List String} {d : D} {ops : FileOps D} (h : Serves ops contents) (hs : Steps ops argv d) :
      Leaves (.tool argv) d ((HealthCtl.main ops argv (some d)).file.getD d)

end Leaves

/-! ### The writes of a boot -/

/-- Each write of a boot stored what one operation made of the last stored record; and the record in memory is stored. -/
structure Journal (loaded health : HealthRecord) (s : Bios D) : Prop where
  ops : ∀ w older, (w :: older) <:+ s.writes → ∃ op, ByBoot op ∧ Takes [op] (lastPersisted loaded older) w.record
  current : s.healthPersistentEnabled = true → health = lastPersisted loaded s.writes

theorem Journal.empty {loaded health : HealthRecord} {s : Bios D} (hw : s.writes = [])
    (hoff : s.healthPersistentEnabled = false) : Journal loaded health s := by
  refine ⟨fun w older hs => ?_, fun hon => ?_⟩
  · rw [hw] at hs
    exact (List.cons_ne_nil _ _ (List.suffix_nil.1 hs)).elim
  · rw [hoff] at hon
    cases hon

theorem Journal.persist {loaded health r : HealthRecord} {s : Bios D} (drive : BiosDrive D) (h : Journal loaded health s)
    {op : Health.Op} (hop : ByBoot op) (ht : Takes [op] health r) : Journal loaded r (healthPersist drive r s) := by
  unfold healthPersist
  split
  next hoff =>
    refine ⟨h.ops, fun hon => ?_⟩
    rw [show s.healthPersistentEnabled = true from hon] at hoff
    cases hoff
  next hon =>
    have hcurrent := h.current (by simpa using hon)
    rw [hcurrent] at ht
    match hw : healthWriteCopy drive s.drive (healthLba r) r with
    | (ok, d') =>
      have hops : ∀ w older, (w :: older) <:+ (⟨healthLba r, r, s.drive, d', ok⟩ : HealthWrite D) :: s.writes →
          ∃ op, ByBoot op ∧ Takes [op] (lastPersisted loaded older) w.record := by
        intro w older hs
        rcases List.suffix_cons_iff.1 hs with heq | hs
        · cases heq
          exact ⟨op, hop, ht⟩
        · exact h.ops w older hs
      simp only [hw]
      cases ok with
      | false => exact ⟨hops, nofun⟩
      | true => exact ⟨hops, fun _ => rfl⟩

theorem healthPersist_length (drive : BiosDrive D) (r : HealthRecord) (s : Bios D) :
    (healthPersist drive r s).writes.length ≤ s.writes.length + 1 := by
  unfold healthPersist
  split
  · exact Nat.le_succ _
  · simp only
    generalize healthWriteCopy drive s.drive (healthLba r) r = w
    obtain ⟨ok, d'⟩ := w
    cases ok with
    | false => exact Nat.le_refl _
    | true => exact Nat.le_refl _

theorem Journal.stored {loaded health : HealthRecord} {s : Bios D} (h : Journal loaded health s)
    {older : List (HealthWrite D)} (hs : older <:+ s.writes) :
    ∃ ops : List Health.Op, ops.length ≤ older.length ∧ (∀ op ∈ ops, ByBoot op) ∧
      Takes ops loaded (lastPersisted loaded older) := by
  induction older with
  | nil => exact ⟨[], Nat.le_refl _, nofun, rfl, rfl⟩
  | cons w older ih =>
    obtain ⟨ops, hlen, hall, htakes⟩ := ih ((List.suffix_cons w older).trans hs)
    rw [lastPersisted]
    split
    · obtain ⟨op, hop, ht⟩ := h.ops w older hs
      refine ⟨ops ++ [op], ?_, ?_, htakes.trans ht⟩
      · rw [List.length_append, List.length_cons]
        exact Nat.add_le_add_right hlen 1
      · intro op' hop'
        rcases List.mem_append.1 hop' with hmem | hmem
        · exact hall op' hmem
        · exact List.mem_singleton.1 hmem ▸ hop
    · exact ⟨ops, Nat.le_succ_of_le hlen, hall, htakes⟩

/-- The journal at a slot, with what the rest of the loop may still store. -/
structure JournalAt (loaded : HealthRecord) (slot : BootSlot) (health : HealthRecord) (s : Bios D) : Prop where
  journal : Journal loaded health s
  is_valid : valid health = true
  room : version health + stepsLeft slot ≤ version loaded + 3
  few : s.writes.length + stepsLeft slot ≤ 3

theorem JournalAt.selectKernel (drive : BiosDrive D) {loaded health : HealthRecord} {s : Bios D}
    (h : Journal loaded health s) (hv : valid health = true) (hle : version health ≤ version loaded) (hw : s.writes = [])
    (hroom : version loaded + 3 < 2 ^ 64) (fs : Fat32) (config : Config.BootConfig) :
    ∃ slot health', JournalAt loaded slot health'
      (selectKernel (biosWorld drive fs config) config health s).world := by
  have hprep := Health.prepareAttempt_spec hv Health.healthMaxAttempts
  match hp : Health.prepareAttempt health Health.healthMaxAttempts with
  | (slot, prepared) =>
    rw [hp] at hprep
    have hsteps : stepsLeft slot ≤ 2 := by cases slot <;> decide
    refine selectKernel_rule config (I := JournalAt loaded) ?_ ?_ ?_ hp ?_
    · rintro slot health s message ⟨hj, hv, hroom, hfew⟩
      exact ⟨⟨hj.ops, hj.current⟩, hv, hroom, hfew⟩
    · rintro slot health s ⟨hj, hv, hroom, hfew⟩
      obtain ⟨-, hwrites, hon⟩ := readKernelCandidate_frame drive fs (kernelPathForSlot config slot) s
      exact ⟨⟨hwrites.symm ▸ hj.ops, hon.symm ▸ hwrites.symm ▸ hj.current⟩, hv, hroom, hwrites.symm ▸ hfew⟩
    · rintro slot next health health' s hnext ⟨hj, hv, hroom', hfew⟩ hsel
      obtain ⟨r, hr, hfb⟩ := Health.selectFallback_spec hv next .kernelFile
      cases hr.symm.trans hsel
      have hlt := stepsLeft_fallbackSlot hnext
      have hop : (Health.step (.selectFallback next.code FailureStage.kernelFile.code) health).2 = health' := by
        rw [Health.step, hr]
      have ht := Takes.single hop hfb.generation (by omega)
      have hver : version health' = version health + 1 := ht.2
      have hlen := healthPersist_length drive health' s
      exact ⟨hj.persist drive (.inr ⟨next, rfl⟩) ht, hfb.valid, by omega, by
        show (healthPersist drive health' s).writes.length + _ ≤ _
        omega⟩
    · by_cases hpend : health.pendingGood = 0
      · have hsame : prepared = health := hprep.settled hpend
        subst hsame
        rw [if_neg (by simp)]
        exact ⟨h, hv, by omega, by rw [hw, List.length_nil]; omega⟩
      · have hop : (Health.step (.prepareAttempt Health.healthMaxAttempts) health).2 = prepared := by
          rw [Health.step, hp]
        have ht := Takes.single hop (hprep.trial hpend) (by omega)
        have hver : version prepared = version health + 1 := ht.2
        have hne : prepared.generation ≠ health.generation := by
          intro heq
          rw [version, version, heq] at hver
          omega
        have hlen := healthPersist_length drive prepared s
        rw [hw, List.length_nil] at hlen
        rw [if_pos hne]
        exact ⟨h.persist drive (.inl rfl) ht, hprep.valid, by omega, by
          show (healthPersist drive prepared s).writes.length + _ ≤ _
          omega⟩

section Boot
variable {drive : BiosDrive D} {contents : D → Sectors} (hd : DriveOk drive contents)
include hd

theorem loadKernelFile_journal {s : Bios D} {r : HealthRecord} (hw : s.writes = [])
    (hoff : s.healthPersistentEnabled = false) (hr : Readable drive s.drive)
    (hh : Holds valid version (cells (contents s.drive)) r) (hroom : version r + 3 < 2 ^ 64) :
    ∃ health, Journal r health (loadKernelFile drive s).2 ∧ (loadKernelFile drive s).2.writes.length ≤ 3 := by
  unfold loadKernelFile
  split
  · refine ⟨r, .empty hw hoff, ?_⟩
    simp only [hw]
    exact Nat.zero_le 3
  next files serial _ =>
    have hstart : Journal r (bootHealth drive files.layoutSafe { s with serial }).1
          (bootHealth drive files.layoutSafe { s with serial }).2 ∧
        valid (bootHealth drive files.layoutSafe { s with serial }).1 = true ∧
        version (bootHealth drive files.layoutSafe { s with serial }).1 ≤ version r ∧
        (bootHealth drive files.layoutSafe { s with serial }).2.writes = [] := by
      cases files.layoutSafe with
      | false => exact ⟨.empty hw rfl, Health.valid_healthDefault, Nat.zero_le _, hw⟩
      | true =>
        obtain ⟨hload, -⟩ := healthLoad_of_holds hd (s := { s with serial }) hh hr.1 hr.2
        have hwrites : (healthLoad drive { s with serial }).2.writes = [] := ((healthLoad_frame drive _).2).trans hw
        simp only [bootHealth, Bool.not_true, Bool.false_eq_true, if_false]
        rw [hload]
        refine ⟨⟨fun w older hs => ?_, fun _ => ?_⟩, hh.is_valid, Nat.le_refl _, hwrites⟩
        · rw [hwrites] at hs
          exact (List.cons_ne_nil _ _ (List.suffix_nil.1 hs)).elim
        · rw [hwrites, lastPersisted]
    obtain ⟨hj, hv, hle, hnone⟩ := hstart
    obtain ⟨slot, health', hlast⟩ := JournalAt.selectKernel drive hj hv hle hnone hroom files.fs files.config
    have hfew := hlast.few
    simp only
    split
    · exact ⟨health', hlast.journal, by simp only; omega⟩
    · exact ⟨health', ⟨hlast.journal.ops, hlast.journal.current⟩, by simp only; omega⟩

/-- The writes of a boot from the disk `d`, which holds `r`. -/
structure BootWrites (contents : D → Sectors) (d : D) (r : HealthRecord) (s : Bios D) : Prop where
  log : LogOk contents d r s.writes
  last : s.drive = driveAfter d s.writes
  ops : ∀ w older, (w :: older) <:+ s.writes → ∃ ops : List Health.Op, ops.length ≤ older.length + 1 ∧
    (∀ op ∈ ops, ByBoot op) ∧ Takes ops r w.record
  stored : ∀ older, older <:+ s.writes → ∃ ops : List Health.Op, ops.length ≤ older.length ∧
    (∀ op ∈ ops, ByBoot op) ∧ Takes ops r (lastPersisted r older)
  few : s.writes.length ≤ 3

theorem stage2PmMain_writes {p : PowerOn} {d : D} {r : HealthRecord} (hr : Readable drive d)
    (hh : Holds valid version (cells (contents d)) r) (hroom : version r + 3 < 2 ^ 64) :
    BootWrites contents d r (stage2PmMain drive p.machine (p.bios d)).2 := by
  have hnewest : newestCopy (contents d) = r := newestCopy_eq hh
  generalize hs : say "JOSHBOOT_FS_LOAD_BEGIN\n" (say "JOSHBOOT_CPU_LONG_MODE_OK\n" (p.bios d)) = s
  have hsd : s.drive = d := by
    rw [← hs]
    rfl
  have hsw : s.writes = [] := by
    rw [← hs]
    rfl
  have hoff : s.healthPersistentEnabled = false := by
    rw [← hs]
    rfl
  subst hsd
  obtain ⟨hlog, hdrive⟩ := loadKernelFile_store hd hsw hr.1 hr.2 hh.placed (by rw [hnewest]; exact hroom)
  rw [hnewest] at hlog
  obtain ⟨health, hj, hlen⟩ := loadKernelFile_journal hd hsw hoff hr hh hroom
  have hstore := @stage2PmMain_store D drive p.machine (p.bios s.drive)
  rw [hs] at hstore
  simp only at hstore
  generalize (stage2PmMain drive p.machine (p.bios s.drive)).2 = t at hstore
  generalize (loadKernelFile drive s).2 = k at hlog hdrive hj hlen hstore
  rcases hstore with ⟨htd, htw⟩ | ⟨htd, htw⟩
  · have htw' : t.writes = [] := htw
    refine ⟨htw' ▸ .nil, ?_, fun w older hs => ?_, fun older hs => ?_, by rw [htw']; exact Nat.zero_le 3⟩
    · rw [htd, htw']
      rfl
    · exact (List.cons_ne_nil _ _ (List.suffix_nil.1 (htw' ▸ hs))).elim
    · obtain rfl := List.suffix_nil.1 (htw' ▸ hs)
      exact ⟨[], Nat.le_refl _, nofun, rfl, rfl⟩
  · refine ⟨htw ▸ hlog, ?_, fun w older hs => ?_, fun older hs => hj.stored (htw ▸ hs), htw ▸ hlen⟩
    · rw [htd, htw]
      exact hdrive
    · have hs' : (w :: older) <:+ k.writes := htw ▸ hs
      obtain ⟨ops, hlen, hall, ht⟩ := hj.stored ((List.suffix_cons w older).trans hs')
      obtain ⟨op, hop, hlast⟩ := hj.ops w older hs'
      refine ⟨ops ++ [op], ?_, fun op' hop' => ?_, ht.trans hlast⟩
      · rw [List.length_append, List.length_singleton]
        exact Nat.add_le_add_right hlen 1
      · rcases List.mem_append.1 hop' with hmem | hmem
        · exact hall op' hmem
        · exact List.mem_singleton.1 hmem ▸ hop

omit hd in
/-- A boot that is cut short while it writes `w`. -/
theorem BootWrites.cut {d d' : D} {r : HealthRecord} {s : Bios D} (h : BootWrites contents d r s) {w : HealthWrite D}
    {older : List (HealthWrite D)} (hs : (w :: older) <:+ s.writes)
    (hw : Written (contents w.before) w.lba w.record.bytes (contents d')) (p : PowerOn) :
    ∃ r', Performs (.boot p) r r' ∧ Holds valid version (cells (contents d')) r' := by
  have hlen := hs.length_le
  have hfew := h.few
  rw [List.length_cons] at hlen
  rcases h.log.of_suffix hs with _ | ⟨-, hlba, hv, hver, -, hholds, -, -⟩
  rw [hlba] at hw
  rcases hholds.torn hv hver hw.torn with hold | hnew
  · obtain ⟨ops, hops, hall, ht⟩ := h.stored older ((List.suffix_cons w older).trans hs)
    exact ⟨_, ⟨ops, by omega, hall, ht⟩, hold⟩
  · obtain ⟨ops, hops, hall, ht⟩ := h.ops w older hs
    exact ⟨_, ⟨ops, by omega, hall, ht⟩, hnew⟩

omit hd in
/-- A boot that is cut short between two writes. -/
theorem BootWrites.stopped {d : D} {r : HealthRecord} {s : Bios D} (h : BootWrites contents d r s)
    (hh : Holds valid version (cells (contents d)) r) {older : List (HealthWrite D)} (hs : older <:+ s.writes) (p : PowerOn) :
    ∃ r', Performs (.boot p) r r' ∧ Holds valid version (cells (contents (driveAfter d older))) r' := by
  cases older with
  | nil => exact ⟨r, ⟨[], Nat.zero_le 3, nofun, rfl, rfl⟩, hh⟩
  | cons w older =>
    rcases h.log.of_suffix hs with _ | ⟨-, -, -, -, -, -, hw, -⟩
    exact h.cut hs hw p

end Boot

/-! ### The write of a command -/

section Tool
variable {ops : FileOps D} {contents : D → Sectors} {d : D} {r : HealthRecord}

theorem command_stores (hload : HealthCtl.loadState ops d = (true, r)) (hv : valid r = true) {argv : List String}
    (hargc : ¬ argv.length < 3) (hs : Steps ops argv d) :
    (HealthCtl.command ops argv d).file = d ∨ ∃ op r', Asks (.tool argv) op ∧ (Health.step op r).2 = r' ∧
      r'.generation = r.generation + 1 ∧ (HealthCtl.command ops argv d).file = (ops.write d (healthLba r') r'.bytes).2 := by
  have hfinish : ∀ r', (HealthCtl.finish ops r' d).file = (ops.write d (healthLba r') r'.bytes).2 := by
    intro r'
    simp only [HealthCtl.finish, HealthCtl.persist, HealthCtl.writeRecord]
    generalize ops.write d (healthLba r') r'.bytes = w
    obtain ⟨ok, d'⟩ := w
    cases ok with
    | false => rfl
    | true => rfl
  obtain ⟨hnotInit, htrial⟩ := hs
  rw [hload] at htrial
  have hinit : argv.getD 1 "" ≠ "init" := fun h => hnotInit (by simp only [commandOf, if_neg hargc, if_pos h])
  have hruns := command_runs hv hload hargc hinit
  unfold Asks
  generalize HealthCtl.command ops argv d = result at hruns ⊢
  generalize hc : commandOf argv = c at hruns htrial
  cases hruns with
  | usage => exact .inl rfl
  | shown => exact .inl rfl
  | refused => exact .inl rfl
  | attempted =>
    have hspec := Health.prepareAttempt_spec hv Health.healthMaxAttempts
    exact .inr ⟨_, _, .inl ⟨hc, rfl⟩, rfl, hspec.trial (htrial rfl), hfinish _⟩
  | @marked slot =>
    have hmarked := Health.markGood_eq hv slot
    exact .inr ⟨_, _, .inr (.inl ⟨slot, hc, rfl⟩), rfl, by rw [Health.step, hmarked]; rfl, hfinish _⟩
  | @began slot hrec =>
    have hbegan := Health.beginUpdate_eq hv slot hrec
    exact .inr ⟨_, _, .inr (.inr ⟨slot, hc, rfl⟩), rfl, by rw [Health.step, hbegan]; rfl, hfinish _⟩

end Tool

/-! ### Histories -/

section History
variable {drive : BiosDrive D} {contents : D → Sectors}

/-- Whatever a run leaves, the disk holds what some of its operations made of the record. -/
theorem leaves_performs (hd : DriveOk drive contents) {action : Action} {d d' : D} (h : Leaves drive contents action d d')
    {r : HealthRecord} (hh : Holds valid version (cells (contents d)) r) (hroom : version r + 3 < 2 ^ 64) :
    ∃ r', Performs action r r' ∧ Holds valid version (cells (contents d')) r' := by
  cases h with
  | @booted p _ hr =>
    have hw := stage2PmMain_writes hd (p := p) hr hh hroom
    rw [hw.last]
    exact hw.stopped hh List.suffix_rfl p
  | @stopped p _ _ hr hs => exact (stage2PmMain_writes hd hr hh hroom).stopped hh hs p
  | @cut p _ _ _ _ hr hs hw => exact (stage2PmMain_writes hd hr hh hroom).cut hs hw p
  | @ran argv _ ops hserves hsteps =>
    have hsame : ∃ r', Performs (.tool argv) r r' ∧ Holds valid version (cells (contents d)) r' :=
      ⟨r, ⟨[], Nat.zero_le 3, nofun, rfl, rfl⟩, hh⟩
    by_cases hargc : argv.length < 3
    · rw [HealthCtl.main, if_pos hargc]
      exact hsame
    rw [HealthCtl.main, if_neg hargc]
    simp only [Option.getD_some]
    rcases command_stores (loadState_of_read (hserves.read d) hh) hh.is_valid hargc hsteps with
      hfile | ⟨op, r', hasks, hop, hg, hfile⟩
    · rw [hfile]
      exact hsame
    · have ht := Takes.single hop hg (by omega)
      have hperforms : Performs (.tool argv) r r' :=
        ⟨[op], Nat.le_add_left 1 2, fun op' hop' => List.mem_singleton.1 hop' ▸ hasks, ht⟩
      rw [hfile]
      rcases hh.torn (ht.is_valid hh.is_valid) ht.2 (hserves.write d _ _).torn with hold | hnew
      · exact ⟨r, ⟨[], Nat.zero_le 3, nofun, rfl, rfl⟩, hold⟩
      · exact ⟨r', hperforms, hnew⟩

/-- What is left of a history, as a history of the record. -/
theorem leads_performs (hd : DriveOk drive contents) {actions : List Action} {d₀ d : D}
    (h : Leads (Leaves drive contents) actions d₀ d) {r₀ : HealthRecord}
    (h₀ : Holds valid version (cells (contents d₀)) r₀) (hroom : version r₀ + 3 * actions.length < 2 ^ 64) :
    ∃ r, Leads Performs actions r₀ r ∧ Holds valid version (cells (contents d)) r ∧
      version r₀ ≤ version r ∧ version r ≤ version r₀ + 3 * actions.length := by
  have hstep : ∀ (n : Nat) (action : Action) (d d' : D) (r : HealthRecord), Leaves drive contents action d d' →
      (Holds valid version (cells (contents d)) r ∧ version r₀ ≤ version r ∧
        version r + 3 * (n + 1) ≤ version r₀ + 3 * actions.length) →
      ∃ r', Performs action r r' ∧ Holds valid version (cells (contents d')) r' ∧ version r₀ ≤ version r' ∧
        version r' + 3 * n ≤ version r₀ + 3 * actions.length := by
    rintro n action d d' r hleaves ⟨hh, hold, hleft⟩
    obtain ⟨r', hperforms, hh'⟩ := leaves_performs hd hleaves hh (by omega)
    obtain ⟨ops, hlen, -, ht⟩ := id hperforms
    have hver := ht.2
    exact ⟨r', hperforms, hh', by omega, by omega⟩
  obtain ⟨r, hleads, hh, hold, hnew⟩ := @Leads.simulates _ _ _ (Leaves drive contents) Performs actions d₀ d
    (fun n d r => Holds valid version (cells (contents d)) r ∧ version r₀ ≤ version r ∧
      version r + 3 * n ≤ version r₀ + 3 * actions.length) hstep h 0 r₀ ⟨h₀, Nat.le_refl _, Nat.le_refl _⟩
  exact ⟨r, hleads, hh, hold, by omega⟩

/-- Boots and commands that go on from the record, in any order, each of them finished or cut short at any write, on
drives whose writes may fail: the disk holds a record that the health operations made of the first one, in the order of the runs, at most three of
them a run; both programs load that record; and it is never older than the first one. -/
theorem power_cuts_atomic (hd : DriveOk drive contents) {actions : List Action} {d₀ d : D}
    (h : Leads (Leaves drive contents) actions d₀ d) {r₀ : HealthRecord}
    (h₀ : Holds valid version (cells (contents d₀)) r₀) (hroom : version r₀ + 3 * actions.length < 2 ^ 64) :
    ∃ r, Leads Performs actions r₀ r ∧
      (∀ s : Bios D, s.drive = d → Readable drive d → (healthLoad drive s).1 = r) ∧
      (∀ ops : FileOps D, Serves ops contents → HealthCtl.loadState ops d = (true, r)) ∧
      version r₀ ≤ version r ∧ version r ≤ version r₀ + 3 * actions.length := by
  obtain ⟨r, hleads, hh, hbounds⟩ := leads_performs hd h h₀ hroom
  refine ⟨r, hleads, ?_, fun ops hops => loadState_of_read (hops.read d) hh, hbounds⟩
  rintro s rfl hr
  exact (healthLoad_of_holds hd hh hr.1 hr.2).1

end History

/-! ### Who decides -/

/-- Where the last good slot of `r'` and a trial in it come from. -/
structure SlotsFrom (marked began : UInt32 → Prop) (r r' : HealthRecord) : Prop where
  lastGood : r'.lastGoodSlot = r.lastGoodSlot ∨ marked r'.lastGoodSlot
  trial : r'.pendingGood ≠ 0 → (r.pendingGood ≠ 0 ∧ r'.selectedSlot = r.selectedSlot) ∨ began r'.selectedSlot

theorem SlotsFrom.trans {marked began : UInt32 → Prop} {r r' r'' : HealthRecord} (h : SlotsFrom marked began r r')
    (h' : SlotsFrom marked began r' r'') : SlotsFrom marked began r r'' := by
  refine ⟨?_, fun hpend => ?_⟩
  · rcases h'.lastGood with heq | hm
    · rw [heq]
      exact h.lastGood
    · exact .inr hm
  · rcases h'.trial hpend with ⟨hpend', heq⟩ | hb
    · rw [heq]
      exact h.trial hpend'
    · exact .inr hb

theorem slotsFrom_of_does {r r' : HealthRecord} {op : Health.Op} {a : Health.Answer} (h : Health.Does r op a r') :
    SlotsFrom (fun c => op = .markGood c) (fun c => op = .beginUpdate c) r r' := by
  cases h with
  | refused => exact ⟨.inl rfl, fun hpend => .inl ⟨hpend, rfl⟩⟩
  | ignored => exact ⟨.inl rfl, fun hpend => .inl ⟨hpend, rfl⟩⟩
  | settled hp => exact ⟨.inl rfl, fun hpend => absurd hp hpend⟩
  | began => exact ⟨.inl rfl, fun _ => .inr rfl⟩
  | tried hp => exact ⟨.inl rfl, fun _ => .inl ⟨hp, rfl⟩⟩
  | exhausted => exact ⟨.inl rfl, fun hpend => absurd rfl hpend⟩
  | marked => exact ⟨.inr rfl, fun hpend => absurd rfl hpend⟩
  | noted => exact ⟨.inl rfl, fun hpend => .inl ⟨hpend, rfl⟩⟩
  | fellBack => exact ⟨.inl rfl, fun hpend => absurd rfl hpend⟩

/-- A command of the history names the slot. -/
def Named (ask : BootSlot → Command) (actions : List Action) (c : UInt32) : Prop :=
  ∃ argv slot, Action.tool argv ∈ actions ∧ commandOf argv = ask slot ∧ c = slot.code

theorem Performs.slotsFrom {actions : List Action} {action : Action} (hmem : action ∈ actions) {r r' : HealthRecord}
    (hv : valid r = true) (h : Performs action r r') :
    valid r' = true ∧ SlotsFrom (Named .good actions) (Named .pending actions) r r' := by
  have hmarks : ∀ c, Asks action (.markGood c) → Named .good actions c := by
    intro c hasks
    cases action with
    | boot p =>
      rcases hasks with heq | ⟨slot, heq⟩
      · cases heq
      · cases heq
    | tool argv =>
      rcases hasks with ⟨-, heq⟩ | ⟨slot, hc, heq⟩ | ⟨slot, -, heq⟩
      · cases heq
      · exact ⟨argv, slot, hmem, hc, by simpa using heq⟩
      · cases heq
  have hbegins : ∀ c, Asks action (.beginUpdate c) → Named .pending actions c := by
    intro c hasks
    cases action with
    | boot p =>
      rcases hasks with heq | ⟨slot, heq⟩
      · cases heq
      · cases heq
    | tool argv =>
      rcases hasks with ⟨-, heq⟩ | ⟨slot, -, heq⟩ | ⟨slot, hc, heq⟩
      · cases heq
      · cases heq
      · exact ⟨argv, slot, hmem, hc, by simpa using heq⟩
  obtain ⟨ops, -, hall, rfl, -⟩ := h
  clear hmem
  induction ops generalizing r with
  | nil => exact ⟨hv, .inl rfl, fun hpend => .inl ⟨hpend, rfl⟩⟩
  | cons op ops ih =>
    have hasks := hall op List.mem_cons_self
    obtain ⟨hv', hrest⟩ := ih (Health.valid_step hv op) fun op' hop' => hall op' (List.mem_cons_of_mem _ hop')
    have hstep := slotsFrom_of_does (Health.step_does hv op)
    have hfirst : SlotsFrom (Named .good actions) (Named .pending actions) r (Health.step op r).2 := by
      refine ⟨hstep.lastGood.imp_right fun heq => ?_, fun hpend => (hstep.trial hpend).imp_right fun heq => ?_⟩
      · exact hmarks _ ((congrArg (Asks action) heq).mp hasks)
      · exact hbegins _ ((congrArg (Asks action) heq).mp hasks)
    exact ⟨hv', hfirst.trans hrest⟩

/-- Whatever is cut short or fails in a history of boots and commands that go on from the record, the record that the disk holds in the end has
the last good slot of the first one, or one that a `good` command named; and a slot that is on trial was on trial at
first, or a `pending` command named it. -/
theorem slots_by_command {drive : BiosDrive D} {contents : D → Sectors} (hd : DriveOk drive contents)
    {actions : List Action} {d₀ d : D} (h : Leads (Leaves drive contents) actions d₀ d) {r₀ r : HealthRecord}
    (h₀ : Holds valid version (cells (contents d₀)) r₀) (hroom : version r₀ + 3 * actions.length < 2 ^ 64)
    (hr : Holds valid version (cells (contents d)) r) :
    SlotsFrom (Named .good actions) (Named .pending actions) r₀ r := by
  obtain ⟨r', hleads, hh, -⟩ := leads_performs hd h h₀ hroom
  have hsame : r' = r := (newestCopy_eq hh).symm.trans (newestCopy_eq hr)
  subst hsame
  exact (hleads.invariant (I := fun r => valid r = true ∧ SlotsFrom (Named .good actions) (Named .pending actions) r₀ r)
    (fun action hmem r r' hp ⟨hv, hfrom⟩ => ⟨(hp.slotsFrom hmem hv).1, hfrom.trans (hp.slotsFrom hmem hv).2⟩)
    ⟨h₀.is_valid, .inl rfl, fun hpend => .inl ⟨hpend, rfl⟩⟩).2

/-! ### A command that is cut short, and a boot -/

/-- The power goes, and a write leaves zeros. -/
def cutOps : FileOps Sectors :=
  { sectorOps with write := fun d lba _ => (false, fun l => if l = lba then fun _ => 0 else d l) }

theorem cutOps_serves : Serves cutOps id := by
  refine ⟨fun d odd => ⟨d (cellLba odd), rfl, fun _ _ => rfl⟩, fun d lba data => ⟨fun l hl i _ => ?_, .inr (.inr ?_)⟩⟩
  · simp [cutOps, hl]
  · simpa [cutOps] using HealthCtl.invalid_zeros

def pendingPrevious : List String := ["josh-healthctl", "pending", "disk.img", "previous"]

def cutDisk : Sectors := (HealthCtl.main cutOps pendingPrevious (some installedDisk)).file.getD installedDisk

def bootedDisk : Sectors := (stage2PmMain plainDrive pcPower.machine (pcPower.bios cutDisk)).2.drive

theorem leads_bootedDisk :
    Leads (Leaves plainDrive id) [.tool pendingPrevious, .boot pcPower] installedDisk bootedDisk := by
  have hcut : Leaves plainDrive id (.tool pendingPrevious) installedDisk cutDisk := by
    unfold cutDisk
    exact .ran cutOps_serves ⟨by decide, fun h => absurd h (by decide)⟩
  have hbooted : Leaves plainDrive id (.boot pcPower) cutDisk bootedDisk := by
    have hreadable : ∀ d, Readable plainDrive d := fun d => ⟨rfl, rfl⟩
    unfold bootedDisk
    exact .booted (hreadable _)
  exact .cons hcut (.cons hbooted (.nil _))

theorem power_cuts_atomic_installed :
    ∃ r, Leads Performs [.tool pendingPrevious, .boot pcPower] Health.healthDefault r ∧
      HealthCtl.loadState cutOps bootedDisk = (true, r) := by
  obtain ⟨r, hleads, -, htool, -⟩ := power_cuts_atomic plainDrive_ok leads_bootedDisk keeps_installed.holds (by decide)
  exact ⟨r, hleads, htool cutOps cutOps_serves⟩

theorem slots_by_command_installed :
    ∃ r, Holds valid version (cells bootedDisk) r ∧
      SlotsFrom (Named .good [.tool pendingPrevious, .boot pcPower])
        (Named .pending [.tool pendingPrevious, .boot pcPower]) Health.healthDefault r := by
  obtain ⟨r, -, hh, -⟩ := leads_performs plainDrive_ok leads_bootedDisk keeps_installed.holds (by decide)
  exact ⟨r, hh, slots_by_command plainDrive_ok leads_bootedDisk keeps_installed.holds (by decide) hh⟩

end JoshBios.Stage2
