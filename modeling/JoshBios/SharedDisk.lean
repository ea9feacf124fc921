import JoshBios.BootPolicy
import JoshBios.GptWrites
import JoshBios.HealthCtl
import JoshBios.HealthFrame
import JoshBios.SlotOutcome
import JoshBios.TrialBoots

/-! # The loader and the tool on one disk

The loader and `josh-healthctl` never meet: they share the two health sectors of a disk, and run one after the other, in
any order. `diskStep` is one run of either on a disk; `policyStep` is what it means for the boot policy. On a disk that
serves the sectors, with the files on it as they are, the two programs together are the policy
(`shared_disk_follows_policy`): every boot takes the slot that the policy says, and every command ends with the status
that it says. -/

namespace JoshBios.Stage2

open Health (HealthRecord BootSlot FailureStage valid recordAt)
open HealthCtl (FileOps parseSlot)
open TwoCopy (Holds)
open Elf64 (segments)
open Lib

/-! ### What the programs do, and what they mean -/

/-- One run of a program: a boot, or the tool with its arguments. -/
inductive Action where
  | boot (p : PowerOn)
  | tool (argv : List String)

/-- What is seen of it: the slot whose kernel was taken, or the exit status. -/
inductive Seen where
  | booted (slot : Option BootSlot)
  | exited (status : Nat)
deriving DecidableEq, Repr

def diskStep {D : Type} (drive : BiosDrive D) (ops : FileOps D) : Action → D → Seen × D
  | .boot p, d =>
    let r := stage2PmMain drive p.machine (p.bios d)
    (.booted r.2.slot, r.2.drive)
  | .tool argv, d =>
    let r := HealthCtl.main ops argv (some d)
    (.exited r.status, r.file.getD d)

inductive Command where
  | usage | init | show | attempt
  | good (slot : BootSlot)
  | pending (slot : BootSlot)
deriving DecidableEq, Repr

/-- What a command line asks for. -/
def commandOf (argv : List String) : Command :=
  let name := argv.getD 1 ""
  if argv.length < 3 then .usage
  else if name = "init" then .init
  else if name = "show" then .show
  else if name = "good" ∨ name = "pending" then
    if argv.length ≠ 4 then .usage else
    match parseSlot (argv.getD 3 "") with
    | none => .usage
    | some slot => if name = "good" then .good slot else .pending slot
  else if name = "attempt" then .attempt
  else .usage

def policyCommand : Command → Policy → Nat × Policy
  | .usage, p => (2, p)
  | .init, _ => (0, .fresh)
  | .show, p => (0, p)
  | .attempt, p => (0, p.attempt)
  | .good slot, p => (0, p.markGood slot)
  | .pending slot, p =>
    match p.beginUpdate slot with
    | none => (1, p)
    | some p => (0, p)

def policyStep (config : Config.BootConfig) (loads : BootSlot → Bool) : Action → Policy → Seen × Policy
  | .boot _, p => (.booted (p.boot config loads).1, (p.boot config loads).2)
  | .tool argv, p => (.exited (policyCommand (commandOf argv) p).1, (policyCommand (commandOf argv) p).2)

/-- The machine gets as far as the files: a long-mode processor, a partitioned disk, a free staging window, and no
leftover in it. -/
structure PowerOn.Ready (p : PowerOn) : Prop where
  longMode : cpuHasLongMode p.machine = true
  filesystem : p.machine.filesystemBoot = true
  staging : stagingRangeIsUsable p.machine p.mem = true
  clean : hasElfMagic p.mem = false

def Action.Ready : Action → Prop
  | .boot p => p.Ready
  | .tool _ => True

/-- The drive of the loader and the image of the tool are one disk, which serves the two health sectors and has its files
elsewhere. -/
structure OneDisk {D : Type} (drive : BiosDrive D) (ops : FileOps D) (contents : D → Sectors) : Prop where
  drive_serves : Reliable drive contents
  drive_steady : Steady drive
  read : ∀ d odd, ∃ sector, ops.read d (cellLba odd) = some sector ∧
    ∀ i < sectorSize, sector i = contents d (cellLba odd) i
  write : ∀ d odd data, ∃ d', ops.write d (cellLba odd) data = (true, d') ∧
    (∀ i < sectorSize, contents d' (cellLba odd) i = data i) ∧
    (∀ i < sectorSize, contents d' (cellLba (!odd)) i = contents d (cellLba (!odd)) i) ∧ SameFiles drive d d'

/-- The disk `d` has the files of `d₀` and holds `r`, with generations left for `n` more runs. -/
structure Stores {D : Type} (drive : BiosDrive D) (contents : D → Sectors) (d₀ : D) (n : Nat) (d : D) (r : HealthRecord) :
    Prop where
  holds : Holds valid version (cells (contents d)) r
  room : version r + 3 * n < 2 ^ 64
  files : SameBootFiles drive d₀ d

theorem readBootFiles_fst (device : BlockDevice) (serial serial' : List String) :
    (readBootFiles device serial).1 = (readBootFiles device serial').1 := by
  unfold readBootFiles
  cases Partition.findBoot device with
  | error status => rfl
  | ok p =>
    simp only
    cases Fat32.mount device p with
    | error status => rfl
    | ok fs =>
      simp only
      cases Fat32.openPath device fs configPath with
      | error status => rfl
      | ok file =>
        simp only
        split
        · rfl
        split
        · rfl
        split <;> rfl

/-! ### A command -/

/-- What a command comes to, apart from `init`, on an image that holds the record `r`. -/
inductive Runs {D : Type} (ops : FileOps D) (r : HealthRecord) (d : D) : Command → HealthCtl.Result D → Prop where
  | usage {out err : List String} : Runs ops r d .usage ⟨2, d, out, err⟩
  | shown {out err : List String} : Runs ops r d .show ⟨0, d, out, err⟩
  | attempted : Runs ops r d .attempt (HealthCtl.finish ops (Health.prepareAttempt r Health.healthMaxAttempts).2 d)
  | marked {slot : BootSlot} : Runs ops r d (.good slot) (HealthCtl.finish ops (Health.markGood r slot.code).2 d)
  | began {slot : BootSlot} (hs : slot ≠ .recovery) :
      Runs ops r d (.pending slot) (HealthCtl.finish ops (Health.beginUpdate r slot.code).2 d)
  | refused {out err : List String} : Runs ops r d (.pending .recovery) ⟨1, d, out, err⟩

theorem command_runs {D : Type} {ops : FileOps D} {r : HealthRecord} {d : D} (hv : valid r = true)
    (hload : HealthCtl.loadState ops d = (true, r)) {argv : List String} (hargc : ¬ argv.length < 3)
    (hinit : argv.getD 1 "" ≠ "init") : Runs ops r d (commandOf argv) (HealthCtl.command ops argv d) := by
  by_cases hshow : argv.getD 1 "" = "show"
  · simp only [HealthCtl.command, commandOf, hload, if_neg hargc, if_neg hinit, if_pos hshow, Bool.not_true,
      Bool.false_eq_true, if_false]
    exact .shown
  by_cases hupdate : argv.getD 1 "" = "good" ∨ argv.getD 1 "" = "pending"
  · simp only [HealthCtl.command, commandOf, hload, if_neg hargc, if_neg hinit, if_neg hshow, if_pos hupdate, if_true]
    by_cases hcount : argv.length ≠ 4
    · simp only [if_pos hcount]
      exact .usage
    simp only [if_neg hcount]
    cases parseSlot (argv.getD 3 "") with
    | none => exact .usage
    | some slot =>
      simp only
      by_cases hgood : argv.getD 1 "" = "good"
      · have hmarked := Health.markGood_eq hv slot
        have hruns : Runs ops r d (.good slot) _ := .marked
        rw [hmarked] at hruns
        simp only [if_pos hgood, hmarked]
        exact hruns
      · simp only [if_neg hgood]
        by_cases hrec : slot = .recovery
        · subst hrec
          simp only [beginUpdate_recovery]
          exact .refused
        · have hbegan := Health.beginUpdate_eq hv slot hrec
          have hruns : Runs ops r d (.pending slot) _ := .began hrec
          rw [hbegan] at hruns
          simp only [hbegan]
          exact hruns
  by_cases hattempt : argv.getD 1 "" = "attempt"
  · simp only [HealthCtl.command, commandOf, hload, if_neg hargc, if_neg hinit, if_neg hshow, if_neg hupdate,
      if_pos hattempt, if_true]
    exact .attempted
  · simp only [HealthCtl.command, commandOf, hload, if_neg hargc, if_neg hinit, if_neg hshow, if_neg hupdate,
      if_neg hattempt]
    exact .usage

theorem loadState_of_read {D : Type} {ops : FileOps D} {contents : D → Sectors} {d : D} {r : HealthRecord}
    (hread : ∀ odd, ∃ sector, ops.read d (cellLba odd) = some sector ∧ ∀ i < sectorSize, sector i = contents d (cellLba odd) i)
    (h : Holds valid version (cells (contents d)) r) : HealthCtl.loadState ops d = (true, r) := by
  obtain ⟨a, ha, hca⟩ := hread false
  obtain ⟨b, hb, hcb⟩ := hread true
  have hA : recordAt a = cells (contents d) false := recordAt_sector hca
  have hB : recordAt b = cells (contents d) true := recordAt_sector hcb
  simp only [HealthCtl.loadState, HealthCtl.readRecord, show Health.healthLbaA = cellLba false from rfl,
    show Health.healthLbaB = cellLba true from rfl, ha, hb, Option.map_some, Option.getD_some, hA, hB, choose_of_holds h]

section OneDisk
variable {D : Type} {drive : BiosDrive D} {ops : FileOps D} {contents : D → Sectors} (hd : OneDisk drive ops contents)
  {d₀ d : D} {r : HealthRecord} {files : BootFiles}
include hd

/-! ### The tool -/

theorem persist_oneDisk (d : D) (r' : HealthRecord) : ∃ d', HealthCtl.persist ops d r' = (true, d') ∧
    cells (contents d') (TwoCopy.home version r') = r' ∧
    cells (contents d') (!TwoCopy.home version r') = cells (contents d) (!TwoCopy.home version r') ∧
    SameFiles drive d d' := by
  obtain ⟨d', hwrite, hnew, hother, hfiles⟩ := hd.write d (TwoCopy.home version r') r'.bytes
  refine ⟨d', ?_, ?_, recordAt_sector hother, hfiles⟩
  · rw [HealthCtl.persist, HealthCtl.writeRecord, healthLba_eq]
    exact hwrite
  · rw [cells, recordAt_sector hnew, Health.recordAt_bytes]

end OneDisk

/-- The files that the loader finds on a disk, with a partition table that leaves the health sectors alone. -/
structure Installed {D : Type} (drive : BiosDrive D) (d₀ : D) (files : BootFiles) : Prop where
  found : (readBootFiles (biosDevice drive d₀) []).1 = some files
  safe : files.layoutSafe = true

section Stores
variable {D : Type} {drive : BiosDrive D} {ops : FileOps D} {contents : D → Sectors} {d₀ d d' : D} {r r' : HealthRecord}
  {files : BootFiles} {n : Nat}

theorem Stores.found (h : Stores drive contents d₀ n d r) (hi : Installed drive d₀ files) (serial : List String) :
    ∃ serial', readBootFiles (biosDevice drive d) serial = (some files, serial') := by
  have hfst := hi.found
  rw [readBootFiles_fst _ [] serial, h.files.files] at hfst
  exact ⟨_, Prod.ext hfst rfl⟩

theorem Stores.next_files (h : Stores drive contents d₀ n d r) (hi : Installed drive d₀ files)
    (hs : SameFiles drive d d') : SameBootFiles drive d₀ d' := by
  obtain ⟨serial, hf⟩ := h.found hi []
  exact h.files.trans (hs.bootFiles ((readBootFiles_layout hf).symm.trans hi.safe))

theorem Stores.same (h : Stores drive contents d₀ (n + 1) d r) : Stores drive contents d₀ n d r :=
  ⟨h.holds, by have := h.room; omega, h.files⟩

theorem Stores.next (h : Stores drive contents d₀ (n + 1) d r) (hi : Installed drive d₀ files) (hv : valid r' = true)
    (hg : r'.generation = r.generation + 1) (hcell : cells (contents d') (TwoCopy.home version r') = r')
    (hother : cells (contents d') (!TwoCopy.home version r') = cells (contents d) (!TwoCopy.home version r'))
    (hs : SameFiles drive d d') : Stores drive contents d₀ n d' r' := by
  have hroom := h.room
  have hver : version r' = version r + 1 := Health.toNat_generation_succ hg (by change version r + 1 < 2 ^ 64; omega)
  exact ⟨h.holds.next hv hver hother hcell, by omega, h.next_files hi hs⟩

theorem Stores.again (h : Stores drive contents d₀ (n + 1) d r) (hi : Installed drive d₀ files)
    (hcell : cells (contents d') (TwoCopy.home version r) = r)
    (hother : cells (contents d') (!TwoCopy.home version r) = cells (contents d) (!TwoCopy.home version r))
    (hs : SameFiles drive d d') : Stores drive contents d₀ n d' r := by
  have hroom := h.room
  have hsame : cells (contents d') = cells (contents d) := by
    funext odd
    by_cases hodd : odd = TwoCopy.home version r
    · rw [hodd, hcell, h.holds.cell]
    · rw [Bool.eq_not_of_ne hodd, hother]
  exact ⟨hsame ▸ h.holds, by omega, h.next_files hi hs⟩

variable (hd : OneDisk drive ops contents)
include hd

theorem Stores.finish_next (h : Stores drive contents d₀ (n + 1) d r) (hi : Installed drive d₀ files)
    (hv : valid r' = true) (hg : r'.generation = r.generation + 1) :
    (HealthCtl.finish ops r' d).status = 0 ∧ Stores drive contents d₀ n (HealthCtl.finish ops r' d).file r' := by
  obtain ⟨d', hp, hcell, hother, hs⟩ := persist_oneDisk hd d r'
  rw [HealthCtl.finish, hp]
  exact ⟨rfl, h.next hi hv hg hcell hother hs⟩

theorem init_oneDisk (h : Stores drive contents d₀ (n + 1) d r) (hi : Installed drive d₀ files) {argv : List String}
    (hname : argv.getD 1 "" = "init") :
    (HealthCtl.command ops argv d).status = 0 ∧
      Stores drive contents d₀ n (HealthCtl.command ops argv d).file Health.healthDefault := by
  obtain ⟨d₁, hwriteA, hnewA, -, hsA⟩ := hd.write d false Health.healthDefault.bytes
  obtain ⟨d₂, hwriteB, hnewB, hotherB, hsB⟩ := hd.write d₁ true Health.healthDefault.bytes
  have hA : cells (contents d₂) false = Health.healthDefault := by
    have hkept : recordAt (contents d₂ (cellLba false)) = recordAt (contents d₁ (cellLba false)) := recordAt_sector hotherB
    rw [cells, hkept, recordAt_sector hnewA, Health.recordAt_bytes]
  have hB : cells (contents d₂) true = Health.healthDefault := by
    rw [cells, recordAt_sector hnewB, Health.recordAt_bytes]
  have hholds : Holds valid version (cells (contents d₂)) Health.healthDefault := by
    refine ⟨Health.valid_healthDefault, hA, ?_⟩
    simp only [TwoCopy.newest, hA, hB, Health.valid_healthDefault]
    rfl
  have hroom := h.room
  have hzero : version Health.healthDefault = 0 := rfl
  simp only [HealthCtl.command, hname, if_true, HealthCtl.writeRecord, show Health.healthLbaA = cellLba false from rfl,
    show Health.healthLbaB = cellLba true from rfl, hwriteA, hwriteB]
  exact ⟨trivial, hholds, by omega, h.next_files hi (hsA.trans hsB)⟩

theorem command_oneDisk (h : Stores drive contents d₀ (n + 1) d r) (hi : Installed drive d₀ files) {argv : List String}
    (hargc : ¬ argv.length < 3) :
    ∃ r', (HealthCtl.command ops argv d).status = (policyCommand (commandOf argv) (policyOf r)).1 ∧
      Stores drive contents d₀ n (HealthCtl.command ops argv d).file r' ∧
      policyOf r' = (policyCommand (commandOf argv) (policyOf r)).2 := by
  have hv := h.holds.is_valid
  by_cases hinit : argv.getD 1 "" = "init"
  · obtain ⟨hstatus, hstores⟩ := init_oneDisk hd h hi hinit
    rw [commandOf, if_neg hargc, if_pos hinit]
    exact ⟨_, hstatus, hstores, policyOf_healthDefault⟩
  have hruns := command_runs hv (loadState_of_read (hd.read d) h.holds) hargc hinit
  generalize HealthCtl.command ops argv d = result at hruns
  generalize commandOf argv = c at hruns
  cases hruns with
  | usage => exact ⟨r, rfl, h.same, rfl⟩
  | shown => exact ⟨r, rfl, h.same, rfl⟩
  | refused => exact ⟨r, rfl, h.same, rfl⟩
  | attempted =>
    have hspec := Health.prepareAttempt_spec hv Health.healthMaxAttempts
    by_cases hpend : r.pendingGood = 0
    · obtain ⟨d', hp, hcell, hother, hs⟩ := persist_oneDisk hd d r
      rw [hspec.settled hpend, HealthCtl.finish, hp]
      refine ⟨r, rfl, h.again hi hcell hother hs, ?_⟩
      show policyOf r = (policyOf r).attempt
      rw [← policyOf_attempt hv, hspec.settled hpend]
    · obtain ⟨hstatus, hstores⟩ := h.finish_next hd hi hspec.valid (hspec.trial hpend)
      exact ⟨_, hstatus, hstores, policyOf_attempt hv⟩
  | @marked slot =>
    obtain ⟨r', hr', hp⟩ := policyOf_markGood hv slot
    have hmarked := Health.markGood_eq hv slot
    obtain ⟨hstatus, hstores⟩ := h.finish_next hd hi (Health.valid_markGood hv slot.code) (by rw [hmarked]; rfl)
    rw [hr'] at hstatus hstores
    rw [hr']
    exact ⟨r', hstatus, hstores, hp⟩
  | @began slot hrec =>
    obtain ⟨r', hr', hp⟩ := policyOf_beginUpdate hv hrec
    have hbegan := Health.beginUpdate_eq hv slot hrec
    obtain ⟨hstatus, hstores⟩ := h.finish_next hd hi (Health.valid_beginUpdate hv slot.code) (by rw [hbegan]; rfl)
    rw [hr'] at hstatus hstores
    rw [hr', policyCommand, hp]
    exact ⟨r', hstatus, hstores, rfl⟩

theorem tool_oneDisk (h : Stores drive contents d₀ (n + 1) d r) (hi : Installed drive d₀ files) (argv : List String) :
    ∃ r', (diskStep drive ops (.tool argv) d).1 = .exited (policyCommand (commandOf argv) (policyOf r)).1 ∧
      Stores drive contents d₀ n (diskStep drive ops (.tool argv) d).2 r' ∧
      policyOf r' = (policyCommand (commandOf argv) (policyOf r)).2 := by
  by_cases hargc : argv.length < 3
  · rw [diskStep, HealthCtl.main, if_pos hargc, commandOf, if_pos hargc]
    exact ⟨r, rfl, h.same, rfl⟩
  · obtain ⟨r', hstatus, hstores, hp⟩ := command_oneDisk hd h hi hargc
    rw [diskStep, HealthCtl.main, if_neg hargc]
    exact ⟨r', congrArg Seen.exited hstatus, hstores, hp⟩

end Stores

/-! ### The loader -/

/-- The slots whose kernels load. -/
def kernelLoads (device : BlockDevice) (files : BootFiles) (slot : BootSlot) : Bool :=
  (kernelImage device files.fs (slotPath files.config slot)).isSome

section Boot
variable {D : Type} {drive : BiosDrive D} {ops : FileOps D} {contents : D → Sectors} {d₀ d : D} {r : HealthRecord}
  {files : BootFiles} {n : Nat}

theorem healthLoad_reliable (hd : Reliable drive contents) {s : Bios D}
    (h : Holds valid version (cells (contents s.drive)) r) :
    healthLoad drive s = (r, say "JOSHBOOT_HEALTH_LOADED\n" { s with healthPersistentEnabled := true }) := by
  obtain ⟨a, ha, hca⟩ := hd.read s.drive false
  obtain ⟨b, hb, hcb⟩ := hd.read s.drive true
  have hA : recordAt a = cells (contents s.drive) false := recordAt_sector hca
  have hB : recordAt b = cells (contents s.drive) true := recordAt_sector hcb
  have hchoose := choose_of_holds h
  have hsome : (!valid (cells (contents s.drive) false) && !valid (cells (contents s.drive) true)) = false := by
    rcases h.placed.some_valid with hv | hv
    · simp [hv]
    · simp [hv]
  simp only [healthLoad, healthReadCopy, show Health.healthLbaA = cellLba false from rfl,
    show Health.healthLbaB = cellLba true from rfl, ha, hb, hA, hB, hsome, Bool.false_eq_true, if_false, hchoose]

/-- The machine while a slot is chosen, on a disk that was `d`. -/
structure Choosing (drive : BiosDrive D) (contents : D → Sectors) (d : D) (health : HealthRecord) (s : Bios D) : Prop where
  holds : Holds valid version (cells (contents s.drive)) health
  enabled : s.healthPersistentEnabled = true
  files : SameFiles drive d s.drive
  slot : s.slot = none

theorem Choosing.persist (hr : Reliable drive contents) (hs : Steady drive) {health health' : HealthRecord} {s : Bios D}
    (h : Choosing drive contents d health s) (hv : valid health' = true) (hn : version health' = version health + 1) :
    Choosing drive contents d health' (healthPersist drive health' s) := by
  obtain ⟨d', hwrite, hcell, hother⟩ := healthWriteCopy_reliable hr hv s.drive
  have hfiles := h.files.trans (healthPersist_sameFiles hs health' s)
  have hpersist : healthPersist drive health' s = say "JOSHBOOT_HEALTH_PERSISTED\n"
      { s with drive := d', writes := ⟨healthLba health', health', s.drive, d', true⟩ :: s.writes } := by
    simp only [healthPersist, h.enabled, hwrite, Bool.not_true, Bool.false_eq_true, if_false]
  rw [hpersist] at hfiles ⊢
  exact ⟨h.holds.next hv hn hother hcell, h.enabled, hfiles, h.slot⟩

theorem biosWorld_steps (hr : Reliable drive contents) (hs : Steady drive) {serial serial' : List String}
    (hf : readBootFiles (biosDevice drive d) serial = (some files, serial')) (hsafe : files.layoutSafe = true) :
    SlotSteps (biosWorld drive files.fs files.config)
      (fun slot => (kernelImage (biosDevice drive d) files.fs (slotPath files.config slot)).map fun image =>
        UInt32.ofNat image.length)
      (Choosing drive contents d) fun _ _ _ => True where
  say _ _ _ h := ⟨h.holds, h.enabled, h.files, h.slot⟩
  say_made _ _ _ _ h := h
  persist _ _ _ h hv hn := h.persist hr hs hv hn
  read health slot s h := by
    have hcand := @readKernelCandidate_image D drive files.fs (slotPath files.config slot) s
    have hfree := (readBootFiles_layout hf).symm.trans hsafe
    obtain ⟨halike, hsound⟩ := readBootFiles_sound h.files.device hfree hf
    refine ⟨?_, ?_⟩
    · rw [kernelImage_alike hsound halike]
      exact hcand.size
    · obtain ⟨hdrive, -, hon⟩ := readKernelCandidate_frame drive files.fs (slotPath files.config slot) s
      have hslot : (readKernelCandidate drive files.fs (slotPath files.config slot) s).2.slot = s.slot := by
        obtain ⟨-, heq⟩ | ⟨-, size, m, heq, -⟩ := readKernelCandidate_cases drive files.fs (slotPath files.config slot) s
        · rw [heq]
        · rw [heq]
      show Choosing drive contents d health (readKernelCandidate drive files.fs (slotPath files.config slot) s).2
      exact ⟨hdrive ▸ h.holds, hon.trans h.enabled, hdrive ▸ h.files, hslot.trans h.slot⟩
  made _ _ _ _ _ _ := trivial

theorem loads_kernelImage (h : Stores drive contents d₀ n d r) (hi : Installed drive d₀ files) :
    loads (fun slot => (kernelImage (biosDevice drive d) files.fs (slotPath files.config slot)).map fun image =>
      UInt32.ofNat image.length) = kernelLoads (biosDevice drive d₀) files := by
  have hf : readBootFiles (biosDevice drive d₀) [] = (some files, (readBootFiles (biosDevice drive d₀) []).2) :=
    Prod.ext hi.found rfl
  funext slot
  rw [loads, kernelLoads, Option.isSome_map, h.files.image _ _ _ hf]

theorem loadKernelFile_oneDisk (hr : Reliable drive contents) (hs : Steady drive) {s : Bios D} (hslot : s.slot = none)
    (h : Stores drive contents d₀ (n + 1) s.drive r) (hi : Installed drive d₀ files) :
    (loadKernelFile drive s).2.slot =
      ((policyOf r).boot files.config (kernelLoads (biosDevice drive d₀) files)).1 ∧
    ∃ r', Stores drive contents d₀ n (loadKernelFile drive s).2.drive r' ∧
      policyOf r' = ((policyOf r).boot files.config (kernelLoads (biosDevice drive d₀) files)).2 := by
  have hv := h.holds.is_valid
  have hroom := h.room
  have hprep := Health.prepareAttempt_spec hv Health.healthMaxAttempts
  obtain ⟨serial, hf⟩ := h.found hi s.serial
  have hload : bootHealth drive files.layoutSafe { s with serial } = (r, say "JOSHBOOT_HEALTH_LOADED\n"
      { s with serial, healthPersistentEnabled := true }) := by
    rw [bootHealth, hi.safe]
    exact healthLoad_reliable hr (s := { s with serial }) h.holds
  have hstart : Choosing drive contents s.drive r (say "JOSHBOOT_HEALTH_LOADED\n"
      { s with serial, healthPersistentEnabled := true }) := ⟨h.holds, rfl, fun _ _ _ => rfl, hslot⟩
  have hsteps := biosWorld_steps hr hs hf hi.safe
  have hthree : r.generation.toNat + 3 < 2 ^ 64 := by
    change version r + 3 < 2 ^ 64
    omega
  have hout := selectKernel_outcome hsteps files.config hv hthree hstart
  have hfirst := hout.first
  have hrecord := congrArg policyOf hout.record
  rw [loads_kernelImage h hi] at hfirst hrecord
  rw [policyOf_fallbacks hprep.valid, policyOf_attempt hv] at hrecord
  rw [attemptSlot_eq hv] at hfirst hrecord
  have hnewer : version (selectKernel (biosWorld drive files.fs files.config) files.config r
      (say "JOSHBOOT_HEALTH_LOADED\n" { s with serial, healthPersistentEnabled := true })).health ≤ version r + 3 :=
    selectKernel_newer hsteps files.config hv hthree hstart
  have hkept := hout.kept
  unfold loadKernelFile
  rw [hf]
  simp only
  rw [hload]
  simp only
  generalize selectKernel (biosWorld drive files.fs files.config) files.config r _ = k at hfirst hrecord hnewer hkept ⊢
  obtain ⟨kernel, health, t⟩ := k
  have hstores : Stores drive contents d₀ n t.drive health :=
    ⟨hkept.holds, by simp only at hnewer; omega, h.next_files hi hkept.files⟩
  cases kernel with
  | none => exact ⟨hkept.slot.trans hfirst, health, hstores, hrecord⟩
  | some kernel => exact ⟨hfirst, health, hstores, hrecord⟩

theorem boot_oneDisk (hr : Reliable drive contents) (hs : Steady drive) {p : PowerOn} (hp : p.Ready)
    (h : Stores drive contents d₀ (n + 1) d r) (hi : Installed drive d₀ files) :
    (stage2PmMain drive p.machine (p.bios d)).2.slot =
      ((policyOf r).boot files.config (kernelLoads (biosDevice drive d₀) files)).1 ∧
    ∃ r', Stores drive contents d₀ n (stage2PmMain drive p.machine (p.bios d)).2.drive r' ∧
      policyOf r' = ((policyOf r).boot files.config (kernelLoads (biosDevice drive d₀) files)).2 := by
  have hload := loadKernelFile_oneDisk hr hs
    (s := say "JOSHBOOT_FS_LOAD_BEGIN\n" (say "JOSHBOOT_CPU_LONG_MODE_OK\n" (p.bios d))) rfl h hi
  have hstaging : stagingRangeIsUsable p.machine (p.bios d).mem = true := hp.staging
  have hclean : hasElfMagic (p.bios d).mem = false := hp.clean
  rw [stage2PmMain_eq hp.filesystem, hp.longMode, hstaging, hclean]
  simp only [Bool.not_true, Bool.false_eq_true, if_false]
  -- the image that was loaded changes neither the slot nor the disk
  have hrest : (fileBoot drive p.machine (say "JOSHBOOT_CPU_LONG_MODE_OK\n" (p.bios d))).2.slot =
      (loadKernelFile drive (say "JOSHBOOT_FS_LOAD_BEGIN\n" (say "JOSHBOOT_CPU_LONG_MODE_OK\n" (p.bios d)))).2.slot ∧
    (fileBoot drive p.machine (say "JOSHBOOT_CPU_LONG_MODE_OK\n" (p.bios d))).2.drive =
      (loadKernelFile drive (say "JOSHBOOT_FS_LOAD_BEGIN\n" (say "JOSHBOOT_CPU_LONG_MODE_OK\n" (p.bios d)))).2.drive := by
    unfold fileBoot
    generalize loadKernelFile drive (say "JOSHBOOT_FS_LOAD_BEGIN\n" (say "JOSHBOOT_CPU_LONG_MODE_OK\n" (p.bios d))) = k
    obtain ⟨kernel, t⟩ := k
    cases kernel with
    | none => exact ⟨rfl, rfl⟩
    | some kernel =>
      simp only
      split
      · exact ⟨rfl, rfl⟩
      · exact ⟨(handOver_facts p.machine kernel.1 (some kernel.2) t).2, handOver_drive p.machine kernel.1 (some kernel.2) t⟩
  rw [hrest.1, hrest.2]
  exact hload

end Boot

/-! ### Runs of both -/

section Runs
variable {D : Type} {drive : BiosDrive D} {ops : FileOps D} {contents : D → Sectors} (hd : OneDisk drive ops contents)
  {d₀ : D} {files : BootFiles} (hi : Installed drive d₀ files)
include hd hi

/-- The two programs on a disk refine the policy. -/
theorem diskStep_refines : Refines Action.Ready (diskStep drive ops)
    (policyStep files.config (kernelLoads (biosDevice drive d₀) files))
    fun n d p => ∃ r, Stores drive contents d₀ n d r ∧ policyOf r = p := by
  have hstep : ∀ (n : Nat) (action : Action) (d : D) (r : HealthRecord), action.Ready →
      Stores drive contents d₀ (n + 1) d r →
      (diskStep drive ops action d).1 =
        (policyStep files.config (kernelLoads (biosDevice drive d₀) files) action (policyOf r)).1 ∧
      ∃ r', Stores drive contents d₀ n (diskStep drive ops action d).2 r' ∧ policyOf r' =
        (policyStep files.config (kernelLoads (biosDevice drive d₀) files) action (policyOf r)).2 := by
    intro n action d r hready h
    cases action with
    | boot p =>
      obtain ⟨hslot, hrest⟩ := boot_oneDisk hd.drive_serves hd.drive_steady hready h hi
      exact ⟨congrArg Seen.booted hslot, hrest⟩
    | tool argv =>
      obtain ⟨r', hstatus, hrest⟩ := tool_oneDisk hd h hi argv
      exact ⟨hstatus, r', hrest⟩
  refine ⟨?_, ?_⟩
  · rintro n action d p hready ⟨r, h, rfl⟩
    exact (hstep n action d r hready h).1
  · rintro n action d p hready ⟨r, h, rfl⟩
    exact (hstep n action d r hready h).2

end Runs

/-- The disk of an installation whose newest record is `r`. -/
structure Keeps {D : Type} (drive : BiosDrive D) (contents : D → Sectors) (d₀ : D) (files : BootFiles) (r : HealthRecord) :
    Prop extends Installed drive d₀ files where
  holds : Holds valid version (cells (contents d₀)) r

theorem Keeps.stores {D : Type} {drive : BiosDrive D} {contents : D → Sectors} {d₀ : D} {files : BootFiles}
    {r : HealthRecord} (h : Keeps drive contents d₀ files r) {n : Nat} (hroom : version r + 3 * n < 2 ^ 64) :
    Stores drive contents d₀ n d₀ r :=
  ⟨h.holds, hroom, .refl d₀⟩

/-- Boots and commands in any order are the policy: the slots that are booted and the statuses that are seen are the
policy's, and so is the record that the disk ends with. -/
theorem shared_disk_follows_policy {D : Type} {drive : BiosDrive D} {ops : FileOps D} {contents : D → Sectors}
    (hd : OneDisk drive ops contents) {d₀ : D} {files : BootFiles} {r : HealthRecord} (hk : Keeps drive contents d₀ files r)
    (actions : List Action) (hready : ∀ action ∈ actions, action.Ready)
    (hroom : version r + 3 * actions.length < 2 ^ 64) :
    answers (diskStep drive ops) actions d₀ =
      answers (policyStep files.config (kernelLoads (biosDevice drive d₀) files)) actions (policyOf r) ∧
    ∃ r', Holds valid version (cells (contents (runOps (diskStep drive ops) actions d₀))) r' ∧ policyOf r' =
      runOps (policyStep files.config (kernelLoads (biosDevice drive d₀) files)) actions (policyOf r) := by
  obtain ⟨hanswers, r', hlast, hp⟩ := (diskStep_refines hd hk.toInstalled).answers_eq (n := 0) hready
    ⟨r, hk.stores hroom, rfl⟩
  exact ⟨hanswers, r', hlast.holds, hp⟩

/-! ### An update -/

theorem answers_boots (config : Config.BootConfig) (loads : BootSlot → Bool) (ps : List PowerOn) (policy : Policy) :
    answers (policyStep config loads) (ps.map Action.boot) policy =
      (Policy.bootTimes config loads ps.length policy).map Seen.booted := by
  induction ps generalizing policy with
  | nil => rfl
  | cons p ps ih =>
    rw [List.map_cons, answers, ih]
    rfl

/-- Boots after `pending`: three of the new slot, then those of the slot to retreat to. -/
theorem answers_trial {config : Config.BootConfig} {loads : BootSlot → Bool} {policy : Policy} {argv : List String}
    {slot : BootSlot} (hs : slot ≠ .recovery) (hbegin : commandOf argv = .pending slot) (hloads : loads slot = true)
    (ps : List PowerOn) (hretreat : 3 < ps.length → loads (Policy.retreat policy.lastGood slot) = true) :
    answers (policyStep config loads) (.tool argv :: ps.map Action.boot) policy =
      .exited 0 :: (.replicate (min ps.length 3) (.booted (some slot)) ++
        .replicate (ps.length - 3) (.booted (some (Policy.retreat policy.lastGood slot)))) := by
  have hstep : policyStep config loads (.tool argv) policy =
      (.exited 0, { policy with selected := slot, trial := some 0 }) := by
    rw [policyStep, hbegin, policyCommand, Policy.beginUpdate, if_neg hs]
  rw [answers, hstep, answers_boots, @Policy.bootTimes_trial config loads { policy with selected := slot, trial := some 0 } 0
    rfl hloads ps.length hretreat, List.map_append, List.map_replicate, List.map_replicate]

/-- Boots after `good`: those of the slot that was marked, whatever the policy was. -/
theorem answers_marked {config : Config.BootConfig} {loads : BootSlot → Bool} (policy : Policy) {argv : List String}
    {slot : BootSlot} (hgood : commandOf argv = .good slot) (hloads : loads slot = true) (qs : List PowerOn) :
    answers (policyStep config loads) (.tool argv :: qs.map Action.boot) policy =
      .exited 0 :: .replicate qs.length (.booted (some slot)) := by
  have hstep : policyStep config loads (.tool argv) policy = (.exited 0, policy.markGood slot) := by
    rw [policyStep, hgood, policyCommand]
  rw [answers, hstep, answers_boots, Policy.bootTimes_settled (p := policy.markGood slot) rfl hloads, List.map_replicate]
  rfl

/-- After `pending` the new slot is booted three times, and from the fourth boot on the slot that was good before, or
the recovery slot if there is no other. With a `good` after at most three boots, every later boot takes the new
slot. -/
theorem update_cycle {D : Type} {drive : BiosDrive D} {ops : FileOps D} {contents : D → Sectors}
    (hd : OneDisk drive ops contents) {d₀ : D} {files : BootFiles} {r : HealthRecord} (hk : Keeps drive contents d₀ files r)
    {slot : BootSlot} (hs : slot ≠ .recovery) (hloads : kernelLoads (biosDevice drive d₀) files slot = true)
    {begin good : List String} (hbegin : commandOf begin = .pending slot) (hgood : commandOf good = .good slot)
    (ps qs : List PowerOn) (hready : ∀ p ∈ ps ++ qs, p.Ready)
    (hroom : version r + 3 * (ps.length + qs.length + 2) < 2 ^ 64) :
    (kernelLoads (biosDevice drive d₀) files (Policy.retreat (Health.slotOf r.lastGoodSlot) slot) = true →
      answers (diskStep drive ops) (.tool begin :: ps.map Action.boot) d₀ =
        .exited 0 :: (.replicate (min ps.length 3) (.booted (some slot)) ++
          .replicate (ps.length - 3) (.booted (some (Policy.retreat (Health.slotOf r.lastGoodSlot) slot))))) ∧
    (ps.length ≤ 3 →
      answers (diskStep drive ops) ((.tool begin :: ps.map Action.boot) ++ (.tool good :: qs.map Action.boot)) d₀ =
        (.exited 0 :: .replicate ps.length (.booted (some slot))) ++
          (.exited 0 :: .replicate qs.length (.booted (some slot)))) := by
  have hrefines := diskStep_refines hd hk.toInstalled
  have hboots : ∀ xs : List PowerOn, (∀ p ∈ xs, p ∈ ps ++ qs) → ∀ argv : List String,
      ∀ action ∈ .tool argv :: xs.map Action.boot, action.Ready := by
    intro xs hxs argv action haction
    rcases List.mem_cons.1 haction with rfl | hmem
    · trivial
    · obtain ⟨p, hp, rfl⟩ := List.mem_map.1 hmem
      exact hready p (hxs p hp)
  have hfirst := hboots ps (fun p hp => List.mem_append_left _ hp) begin
  have hsecond := hboots qs (fun p hp => List.mem_append_right _ hp) good
  constructor
  · intro hretreat
    obtain ⟨hanswers, -⟩ := hrefines.answers_eq (n := 0) hfirst ⟨r, hk.stores (by simp; omega), rfl⟩
    rw [hanswers]
    exact answers_trial hs hbegin hloads ps fun _ => hretreat
  · intro hthree
    obtain ⟨hanswers, -⟩ := hrefines.answers_eq (n := 0)
      (fun action haction => (List.mem_append.1 haction).elim (hfirst action) (hsecond action))
      ⟨r, hk.stores (by simp; omega), rfl⟩
    rw [hanswers, answers_append, answers_marked _ hgood hloads,
      answers_trial hs hbegin hloads ps fun hlt => absurd hthree (Nat.not_le.2 hlt), Nat.min_eq_left hthree,
      Nat.sub_eq_zero_of_le hthree, List.replicate_zero, List.append_nil]

/-! ### A disk for the theorems -/

def sectorOps : FileOps Sectors where
  read d lba := some (d lba)
  write d lba data := (true, fun l => if l = lba then data else d l)

def fileEntry (name : String) (cluster size : Nat) : List UInt8 :=
  Config.ascii name ++ packBytes [(1, 0x20), (14, 0), (2, cluster), (4, size)]

/-- The sectors after the first one: the default health record, and a volume with a configuration and two kernels. -/
def installedSector (lba : UInt64) : Bytes :=
  if lba = Health.healthLbaA then Health.healthDefault.bytes
  else if lba = 2048 then Fat32.bootSector
  else if lba = 2561 then directoryEntry "BOOT       " 0x10 3 0
  else if lba = 2562 then directoryEntry "JOSH       " 0x10 4 0
  else if lba = 2563 then
    bytesOf (fileEntry "BOOT    CFG" 5 115 ++ fileEntry "NEW     ELF" 6 124 ++ fileEntry "OLD     ELF" 7 124)
  else if lba = 2564 then bytesOf twoKernelText
  else if lba = 2565 then bytesOf (Elf64.oneSegment 0xffffffff80000000 [1, 2, 3, 4] 8)
  else if lba = 2566 then bytesOf (Elf64.oneSegment 0xffffffff80200000 [1, 2, 3, 4] 8)
  else fun _ => 0

def installedDisk : Sectors := fun lba => if lba = 0 then mbrWith 1 ⟨0, 0, 0, 0⟩ else installedSector lba

abbrev installedDevice : BlockDevice := biosDevice plainDrive installedDisk

/-- The device without an MBR. -/
def installedVolume : BlockDevice where
  sectorCount := biosDeviceSectors
  read lba _ := some (installedSector lba)

theorem installedDevice_read {lba : UInt64} (h0 : lba ≠ 0) (h : lba < biosDeviceSectors) :
    installedDevice.blockRead lba 1 = some (installedSector lba) := by
  rw [biosDevice_blockRead _ _ h]
  exact congrArg some (if_neg h0)

theorem installedDevice_alike :
    BlockDevice.AlikeOn (fun i => i = 0 ∨ i = 2048) (gptDevice 1 ⟨0, 0, 0, 0⟩) installedDevice := by
  refine ⟨rfl, fun lba hlba => ?_⟩
  rcases hlba with h | h
  · obtain rfl : lba = 0 := UInt64.toNat_inj.1 h
    rw [gptDevice_mbr, biosDevice_blockRead _ _ (by decide)]
    rfl
  · obtain rfl : lba = 2048 := UInt64.toNat_inj.1 h
    have hvolume : volumeSector 2048 = Fat32.bootSector := rfl
    have hinstalled : installedSector 2048 = Fat32.bootSector := rfl
    rw [gptDevice_volume (by decide) (by decide), installedDevice_read (by decide) (by decide), hinstalled, ← hvolume,
      Partition.blockRead_of_lt (by decide)]
    rfl

theorem findInDirectory_installed {directory : UInt32} {name : List UInt8} {lba : UInt64} {file : Fat32.File}
    (hlba : Fat32.clusterLba Fat32.smallVolume directory = .ok lba) (h0 : lba ≠ 0) (h : lba < biosDeviceSectors)
    (hscan : Fat32.scanSector (installedSector lba) name 16 0 = some (.ok file)) :
    Fat32.findInDirectory installedDevice Fat32.smallVolume directory name = .ok file :=
  findInDirectory_first hlba rfl (installedDevice_read h0 h) hscan

theorem openPath_installed {path segment name : List UInt8} {file : Fat32.File}
    (hsegments : Fat32.segments path = [Config.ascii "boot", Config.ascii "josh", segment])
    (hname : Fat32.shortNameFromSegment segment = .ok name)
    (hscan : Fat32.scanSector (installedSector 2563) name 16 0 = some (.ok file)) :
    Fat32.openPath installedDevice Fat32.smallVolume path = .ok file := by
  have hboot : Fat32.findInDirectory installedDevice Fat32.smallVolume 2 (Config.ascii "BOOT       ") = .ok ⟨3, 0, 0x10⟩ :=
    @findInDirectory_installed _ _ 2561 _ (eq_ok_of_toOption (by decide)) (by decide) (by decide) (by decide)
  have hjosh : Fat32.findInDirectory installedDevice Fat32.smallVolume 3 (Config.ascii "JOSH       ") = .ok ⟨4, 0, 0x10⟩ :=
    @findInDirectory_installed _ _ 2562 _ (eq_ok_of_toOption (by decide)) (by decide) (by decide) (by decide)
  have hlast : Fat32.findInDirectory installedDevice Fat32.smallVolume 4 name = .ok file :=
    @findInDirectory_installed _ _ 2563 _ (eq_ok_of_toOption (by decide)) (by decide) (by decide) hscan
  have hnames : Fat32.shortNameFromSegment (Config.ascii "boot") = .ok (Config.ascii "BOOT       ") ∧
      Fat32.shortNameFromSegment (Config.ascii "josh") = .ok (Config.ascii "JOSH       ") := by decide
  have hvalid : Fat32.clusterValid Fat32.smallVolume 3 = true ∧ Fat32.clusterValid Fat32.smallVolume 4 = true := by
    decide
  rw [Fat32.openPath_eq, hsegments]
  simp only [Fat32.resolve, hnames.1, hnames.2, hname, show Fat32.smallVolume.rootCluster = 2 from rfl, hboot, hjosh, hlast,
    hvalid.1, hvalid.2, Bool.not_true, Bool.false_eq_true, if_false]
  rfl

theorem readFile_installed {file : Fat32.File} {lba : UInt64} (h0 : lba ≠ 0) (h : lba < biosDeviceSectors)
    (hreads : Fat32.readFileReads installedVolume Fat32.smallVolume file 0 file.size = [lba]) :
    Fat32.readFile installedDevice Fat32.smallVolume file 0 file.size =
      Fat32.readFile installedVolume Fat32.smallVolume file 0 file.size := by
  refine (Fat32.readFile_congr (hreads ▸ ?_)).symm
  intro lba' hlba
  rw [List.mem_singleton.1 hlba, installedDevice_read h0 h, Partition.blockRead_of_lt (UInt64.lt_iff_toNat_lt.1 h)]
  rfl

theorem layoutSafe_installed : Partition.rangeIsUnallocated installedDevice Health.healthLbaA 2 = true := by
  rw [← Partition.rangeIsUnallocated_alike installedDevice_alike (.inl rfl)]
  exact layoutSafe_gptDevice (by decide) rfl (.inl rfl)

theorem findBoot_installed : Partition.findBoot installedDevice = .ok (Partition.mbrPartition volumeEntry) := by
  rw [← Partition.findBoot_alike installedDevice_alike (layoutSafe_gptDevice (by decide) rfl (.inl rfl)) (.inl rfl)]
  exact findBoot_gptDevice (by decide) rfl (.inl rfl)

theorem mount_installed : Fat32.mount installedDevice (Partition.mbrPartition volumeEntry) = .ok Fat32.smallVolume := by
  rw [← Fat32.mount_congr installedDevice_alike.size (installedDevice_alike.read 2048 (.inr rfl))]
  exact mount_gptDevice

def installedFiles : BootFiles := ⟨true, Fat32.smallVolume, twoKernelConfig⟩

set_option maxRecDepth 2000 in
theorem readBootFiles_installed : (readBootFiles installedDevice []).1 = some installedFiles := by
  have hopen : Fat32.openPath installedDevice Fat32.smallVolume configPath = .ok ⟨5, 115, 0x20⟩ :=
    @openPath_installed _ (Config.ascii "boot.cfg") (Config.ascii "BOOT    CFG") _ (by decide) (by decide) (by decide)
  have hread := @readFile_installed ⟨5, 115, 0x20⟩ 2564 (by decide) (by decide) (by decide)
  obtain ⟨hstatus, hbytes, hout⟩ :
      (Fat32.readFile installedVolume Fat32.smallVolume ⟨5, 115, 0x20⟩ 0 115).status = .ok ∧
      (Fat32.readFile installedVolume Fat32.smallVolume ⟨5, 115, 0x20⟩ 0 115).bytesRead = 115 ∧
      (Fat32.readFile installedVolume Fat32.smallVolume ⟨5, 115, 0x20⟩ 0 115).out = twoKernelText := by decide
  have hsize : ((115 : UInt32) = 0 || (115 : UInt32).toNat > Config.configMaxBytes) = false := rfl
  simp only at hread
  simp only [readBootFiles, findBoot_installed, layoutSafe_installed, mount_installed, hopen, hsize, hread, hstatus, hbytes,
    hout, parse_twoKernelText]
  rfl

theorem isSome_kernelImage_installed {path segment name : List UInt8} {file : Fat32.File} {lba : UInt64}
    (hset : Config.isSet path = true)
    (hsegments : Fat32.segments (Config.cString path) = [Config.ascii "boot", Config.ascii "josh", segment])
    (hname : Fat32.shortNameFromSegment segment = .ok name)
    (hscan : Fat32.scanSector (installedSector 2563) name 16 0 = some (.ok file))
    (hsize : (file.size = 0 || file.size > kernelImageBytes) = false) (h0 : lba ≠ 0) (h : lba < biosDeviceSectors)
    (hreads : Fat32.readFileReads installedVolume Fat32.smallVolume file 0 file.size = [lba])
    (hstatus : (Fat32.readFile installedVolume Fat32.smallVolume file 0 file.size).status = .ok)
    (hbytes : (Fat32.readFile installedVolume Fat32.smallVolume file 0 file.size).bytesRead = file.size)
    (hvalid : (Elf64.validateImage (bytesOf (Fat32.readFile installedVolume Fat32.smallVolume file 0 file.size).out)
      file.size.toUInt64).toOption.isSome = true) :
    (kernelImage installedDevice Fat32.smallVolume path).isSome = true := by
  simp only [kernelImage, hset, openPath_installed hsegments hname hscan, hsize, readFile_installed h0 h hreads, hstatus,
    hbytes, ne_eq, not_true, decide_false, Bool.or_false, Bool.not_true, Bool.false_eq_true, if_false]
  cases hv : Elf64.validateImage (bytesOf (Fat32.readFile installedVolume Fat32.smallVolume file 0 file.size).out)
      file.size.toUInt64 with
  | error status =>
    rw [hv] at hvalid
    cases hvalid
  | ok summary => rfl

set_option maxRecDepth 2000 in
theorem kernelLoads_installed {slot : BootSlot} (hs : slot ≠ .recovery) :
    kernelLoads installedDevice installedFiles slot = true := by
  cases slot with
  | current =>
    exact @isSome_kernelImage_installed _ (Config.ascii "new.elf") (Config.ascii "NEW     ELF") ⟨6, 124, 0x20⟩ 2565
      (by decide) (by decide) (by decide) (by decide) (by decide) (by decide) (by decide) (by decide) (by decide) (by decide)
      (by decide)
  | previous =>
    exact @isSome_kernelImage_installed _ (Config.ascii "old.elf") (Config.ascii "OLD     ELF") ⟨7, 124, 0x20⟩ 2566
      (by decide) (by decide) (by decide) (by decide) (by decide) (by decide) (by decide) (by decide) (by decide) (by decide)
      (by decide)
  | recovery => exact absurd rfl hs

theorem oneDisk_installed : OneDisk plainDrive sectorOps id where
  drive_serves := plainDrive_reliable
  drive_steady := plainDrive_steady
  read d odd := ⟨d (cellLba odd), rfl, fun _ _ => rfl⟩
  write d odd data := by
    refine ⟨_, rfl, fun i _ => ?_, fun i _ => ?_, plainDrive_steady d odd data⟩
    · simp
    · have hne : cellLba (!odd) ≠ cellLba odd := fun heq => by simpa using cellLba_inj heq
      simp [hne]

theorem keeps_installed : Keeps plainDrive id installedDisk installedFiles Health.healthDefault where
  found := readBootFiles_installed
  safe := rfl
  holds := by
    have hA : cells installedDisk false = Health.healthDefault := Health.recordAt_bytes _
    have hB : valid (cells installedDisk true) = false := by decide
    exact Holds.intro Health.valid_healthDefault hA fun h => absurd h (by
      rw [show (!TwoCopy.home version Health.healthDefault) = true from rfl, id, hB]
      decide)

def pcPower : PowerOn := ⟨pcMachine, pcMemory⟩

theorem ready_pcMachine : PowerOn.Ready ⟨pcMachine, pcMemory⟩ where
  longMode := by decide
  filesystem := by decide
  staging := by decide
  clean := by decide

theorem shared_disk_follows_policy_installed :
    answers (diskStep plainDrive sectorOps)
        [.boot ⟨pcMachine, pcMemory⟩, .tool ["josh-healthctl", "pending", "disk.img", "previous"],
          .boot ⟨pcMachine, pcMemory⟩, .tool ["josh-healthctl", "show", "disk.img"]] installedDisk =
      answers (policyStep twoKernelConfig (kernelLoads installedDevice installedFiles))
        [.boot ⟨pcMachine, pcMemory⟩, .tool ["josh-healthctl", "pending", "disk.img", "previous"],
          .boot ⟨pcMachine, pcMemory⟩, .tool ["josh-healthctl", "show", "disk.img"]] .fresh := by
  refine (shared_disk_follows_policy oneDisk_installed keeps_installed _ (fun action haction => ?_) (by decide)).1
  simp only [List.mem_cons, List.not_mem_nil, or_false] at haction
  obtain rfl | rfl | rfl | rfl := haction
  · exact ready_pcMachine
  · trivial
  · exact ready_pcMachine
  · trivial

theorem update_cycle_installed :
    answers (diskStep plainDrive sectorOps) (.tool ["josh-healthctl", "pending", "disk.img", "previous"] ::
        (List.replicate 5 ⟨pcMachine, pcMemory⟩).map Action.boot) installedDisk =
      [.exited 0, .booted (some .previous), .booted (some .previous), .booted (some .previous), .booted (some .current),
        .booted (some .current)] :=
  (@update_cycle _ plainDrive sectorOps id oneDisk_installed _ _ _ keeps_installed .previous (by decide)
    (kernelLoads_installed (by decide)) ["josh-healthctl", "pending", "disk.img", "previous"]
    ["josh-healthctl", "good", "disk.img", "previous"] (by decide) (by decide) (.replicate 5 ⟨pcMachine, pcMemory⟩) []
    (fun p hp => List.eq_of_mem_replicate (List.append_nil _ ▸ hp) ▸ ready_pcMachine) (by decide)).1
    (kernelLoads_installed (by decide))

/-! ### The same disk, with a trial begun -/

theorem holds_odd {d : Sectors} {r old : HealthRecord} (hr : valid r = true) (hhome : TwoCopy.home version r = true)
    (hodd : cells d true = r) (heven : cells d false = old) (hnewer : version old < version r) :
    Holds valid version (cells d) r := by
  refine Holds.intro hr (hhome ▸ hodd) fun _ => ?_
  rw [hhome, Bool.not_true, heven]
  exact hnewer

/-- The old kernel is on trial. -/
def trialDisk : Sectors := fun lba => if lba = Health.healthLbaB then begunUpdate.bytes else installedDisk lba

theorem sameBootFiles_trial : SameBootFiles plainDrive installedDisk trialDisk := by
  have hsame : SameFiles plainDrive installedDisk trialDisk := fun lba _ hB => congrArg some (if_neg hB).symm
  exact hsame.bootFiles layoutSafe_installed

theorem readBootFiles_trial : (readBootFiles (biosDevice plainDrive trialDisk) []).1 = some installedFiles := by
  rw [← sameBootFiles_trial.files]
  exact readBootFiles_installed

/-- Four boots, which note three attempts and the retreat. -/
theorem boots_keep_files_trial :
    (readBootFiles (biosDevice plainDrive (boots plainDrive (.replicate 4 pcPower) trialDisk)) []).1 = some installedFiles ∧
    ∀ path, kernelImage (biosDevice plainDrive trialDisk) installedFiles.fs path =
      kernelImage (biosDevice plainDrive (boots plainDrive (.replicate 4 pcPower) trialDisk)) installedFiles.fs path := by
  have hkept := boots_keep_files plainDrive_steady (.replicate 4 pcPower) trialDisk
  rw [← hkept.files]
  exact ⟨readBootFiles_trial, hkept.image _ _ _ (Prod.fst_eq_iff.1 readBootFiles_trial)⟩

/-- The new kernel is on trial, and the sector with its image is spoilt. -/
def newKernelTrial : HealthRecord := (Health.beginUpdate Health.healthDefault BootSlot.current.code).2

def spoiltDisk : Sectors := fun lba =>
  if lba = Health.healthLbaB then newKernelTrial.bytes else if lba = 2565 then fun _ => 0 else installedDisk lba

theorem holds_spoilt : Holds valid version (cells spoiltDisk) newKernelTrial := by
  have hodd : cells spoiltDisk true = newKernelTrial := Health.recordAt_bytes _
  have heven : cells spoiltDisk false = Health.healthDefault := Health.recordAt_bytes _
  exact holds_odd (Health.valid_beginUpdate Health.valid_healthDefault _) (by decide +kernel) hodd heven (by decide +kernel)

/-- What the boot writes to the even sector first, and then to the odd one. -/
def attemptRecord : HealthRecord := (Health.prepareAttempt newKernelTrial Health.healthMaxAttempts).2

def fallbackRecord : HealthRecord :=
  (Health.selectFallback attemptRecord BootSlot.previous.code FailureStage.kernelFile.code).2

/-- A write to the odd sector that leaves zeros there. -/
def tornOdd (d : Sectors) : Sectors := fun lba => if lba = Health.healthLbaB then fun _ => 0 else d lba

theorem written_tornOdd (d : Sectors) (data : Bytes) : Written d Health.healthLbaB data (tornOdd d) where
  others l hl i _ := by rw [tornOdd, if_neg hl]
  sector :=
    have hzero : valid (recordAt fun _ => 0) = false := by decide
    .inr (.inr hzero)

/-- If the second write is torn, the first one counts. -/
theorem health_store_crash_safe_torn :
    ∃ fallback attempt, (loadKernelFile plainDrive (pcPower.bios spoiltDisk)).2.writes = [fallback, attempt] ∧
      attempt.record = attemptRecord ∧
      Recovers plainDrive id (tornOdd fallback.before) attempt.record := by
  have hwrites : (loadKernelFile plainDrive (pcPower.bios spoiltDisk)).2.writes.map (fun w =>
        (w.lba, w.record, w.persisted, (healthLoad plainDrive (pcPower.bios (tornOdd w.before))).1)) =
      [(Health.healthLbaB, fallbackRecord, true, attemptRecord),
        (Health.healthLbaA, attemptRecord, true, Health.healthDefault)] := by
    decide +kernel
  have hroom : version (newestCopy spoiltDisk) + 3 < 2 ^ 64 := by
    rw [newestCopy_eq holds_spoilt]
    decide +kernel
  obtain ⟨-, -, hcrash⟩ := @health_store_crash_safe _ plainDrive id plainDrive_ok (pcPower.bios spoiltDisk) rfl rfl rfl
    holds_spoilt.placed hroom
  obtain ⟨fallback, rest, hlist, hfirst, hrest⟩ := List.map_eq_cons_iff.1 hwrites
  obtain ⟨attempt, rest', rfl, hsecond, hnil⟩ := List.map_eq_cons_iff.1 hrest
  obtain rfl := List.map_eq_nil_iff.1 hnil
  simp only [Prod.mk.injEq] at hfirst hsecond
  obtain ⟨hlba, hrecord, -, hload⟩ := hfirst
  obtain ⟨-, hrecord', hpersisted, -⟩ := hsecond
  refine ⟨fallback, attempt, hlist, hrecord', ?_⟩
  obtain ⟨-, -, htorn, -⟩ := hcrash fallback [attempt] (hlist ▸ List.suffix_refl _)
  rw [hlba] at htorn
  rcases htorn (tornOdd fallback.before) (written_tornOdd _ _) with hnew | hold
  · have hreload := (hnew.load (pcPower.bios (tornOdd fallback.before)) rfl rfl rfl).1
    rw [hload, hrecord] at hreload
    exact absurd hreload (by decide +kernel)
  · rw [lastPersisted, hpersisted] at hold
    exact hold

/-! ### The same disk, with something left in memory -/

/-- The machine with the installed disk, and with the bytes `window` left at the start of the staging window. -/
def leftIn (window : List UInt8) : Bios Sectors :=
  { pcPower.bios installedDisk with mem := pcMemory.write kernelImageAddr window }

theorem leftIn_outside {window window' : List UInt8} (h : window.length ≤ kernelImageBytes.toNat)
    (h' : window'.length ≤ kernelImageBytes.toNat) (i : Nat) (hi : ¬ Staging i) :
    (leftIn window).mem i = (leftIn window').mem i :=
  (powerOn_outside h hi).trans (powerOn_outside h' hi).symm

theorem movesCleanly_leftIn : MovesCleanly (leftIn lowKernel).mem ∧ MovesCleanly (leftIn (lowKernel ++ [9])).mem ∧
    MovesCleanly (leftIn pairKernel).mem := by
  have hlow : ∀ window, (∀ c ∈ chunks ((leftIn window).mem.from kernelImageAddr), c.dest + c.size + c.zeros ≤ kernelImageAddr) →
      MovesCleanly (leftIn window).mem := fun _ hbelow => ⟨fun _ => headersKept_of_below hbelow, fun _ => kept_of_below hbelow⟩
  exact ⟨hlow _ (by decide +kernel), hlow _ (by decide +kernel), hlow _ (by decide +kernel)⟩

theorem leftKernel_of_one {window : List UInt8} {p : Elf64.ProgramHeader}
    (hvalid : (Elf64.validateImage ((leftIn window).mem.from kernelImageAddr) kernelImageBytes.toUInt64).toOption.isSome = true)
    (hsegments : segments ((leftIn window).mem.from kernelImageAddr) = [p]) (hfits : FitsWindow p) :
    LeftKernel (leftIn window).mem where
  format := Elf64.validateImage_isOk.1 ⟨_, eq_ok_of_toOption (Option.some_get hvalid).symm⟩
  fits q hq := by
    rw [hsegments] at hq
    rwa [List.mem_singleton.1 hq]

theorem segments_leftIn :
    segments ((leftIn lowKernel).mem.from kernelImageAddr) = [⟨1, 5, 120, 0xffffffff80000000, 4, 8, 1⟩] ∧
    segments ((leftIn (lowKernel ++ [9])).mem.from kernelImageAddr) = [⟨1, 5, 120, 0xffffffff80000000, 4, 8, 1⟩] ∧
    (segments ((leftIn pairKernel).mem.from kernelImageAddr)).length = 2 := by
  decide +kernel

theorem leftKernel_leftIn : LeftKernel (leftIn lowKernel).mem ∧ LeftKernel (leftIn (lowKernel ++ [9])).mem := by
  have hfits : FitsWindow ⟨1, 5, 120, 0xffffffff80000000, 4, 8, 1⟩ := ⟨by decide, by decide⟩
  obtain ⟨hsegments, hsegments', -⟩ := segments_leftIn
  exact ⟨leftKernel_of_one (by decide +kernel) hsegments hfits, leftKernel_of_one (by decide +kernel) hsegments' hfits⟩

theorem sameKernel_leftIn : SameKernel (leftIn lowKernel).mem (leftIn (lowKernel ++ [9])).mem := by
  obtain ⟨hsegments, hsegments', -⟩ := segments_leftIn
  refine ⟨iff_of_true leftKernel_leftIn.1 leftKernel_leftIn.2, fun _ => by decide +kernel, fun _ => ?_⟩
  rw [hsegments, hsegments']
  exact .cons ⟨rfl, rfl, by decide +kernel⟩ .nil

/-- The disk's kernel boots whatever was left without the magic. An earlier kernel boots instead, as far as it goes, and
another one makes another boot. -/
theorem leftovers_ignored_iff_installed :
    (stage2PmMain plainDrive pcMachine (leftIn [])).2.slot = some .current ∧
    SameBoot (stage2PmMain plainDrive pcMachine (leftIn [])) (stage2PmMain plainDrive pcMachine (leftIn [1, 2, 3])) ∧
    SameBoot (stage2PmMain plainDrive pcMachine (leftIn lowKernel))
      (stage2PmMain plainDrive pcMachine (leftIn (lowKernel ++ [9]))) ∧
    ¬ SameBoot (stage2PmMain plainDrive pcMachine (leftIn lowKernel))
      (stage2PmMain plainDrive pcMachine (leftIn pairKernel)) := by
  obtain ⟨hlow, hlow', hpair⟩ := movesCleanly_leftIn
  have hmagic : hasElfMagic (leftIn []).mem = false ∧ hasElfMagic (leftIn [1, 2, 3]).mem = false ∧
      hasElfMagic (leftIn lowKernel).mem = true ∧ hasElfMagic (leftIn (lowKernel ++ [9])).mem = true := by
    decide +kernel
  have hready : cpuHasLongMode pcMachine = true ∧ stagingRangeIsUsable pcMachine (leftIn lowKernel).mem = true := by
    decide +kernel
  obtain ⟨hnone, hnone', hsome, hsome'⟩ := hmagic
  have hfits : ([] : List UInt8).length ≤ kernelImageBytes.toNat ∧ [1, 2, 3].length ≤ kernelImageBytes.toNat ∧
      lowKernel.length ≤ kernelImageBytes.toNat ∧ (lowKernel ++ [9]).length ≤ kernelImageBytes.toNat ∧
      pairKernel.length ≤ kernelImageBytes.toNat := by
    decide +kernel
  obtain ⟨h₀, h₁, h₂, h₃, h₄⟩ := hfits
  refine ⟨by decide +kernel, ?_, ?_, fun h => ?_⟩
  · exact (@leftovers_ignored_iff _ plainDrive pcMachine rfl (leftIn []) rfl rfl _ (leftIn_outside h₀ h₁)).1
      (.inr (.inr (.inl ⟨hnone, hnone'⟩)))
  · exact (@leftovers_ignored_iff _ plainDrive pcMachine rfl (leftIn lowKernel) rfl rfl _ (leftIn_outside h₂ h₃)).1
      (.inr (.inr (.inr ⟨hsome, hsome', hlow, hlow', sameKernel_leftIn⟩)))
  · have hsame := (@leftovers_ignored_iff _ plainDrive pcMachine rfl (leftIn lowKernel) rfl rfl _
      (leftIn_outside h₂ h₄)).2 (fun _ _ => ⟨hlow, hpair⟩) h
    rcases hsame with hno | hno | hno | ⟨-, -, -, -, hsame⟩
    · exact absurd (hready.1.symm.trans hno) (by decide)
    · exact absurd (hready.2.symm.trans hno) (by decide)
    · exact absurd (hsome.symm.trans hno.1) (by decide)
    · have hlen := (hsame.same leftKernel_leftIn.1).length_eq
      rw [segments_leftIn.1, segments_leftIn.2.2] at hlen
      exact absurd hlen (by decide)

end JoshBios.Stage2
