import JoshBios.HealthRun
import JoshBios.HealthStore

/-! # The health tool (`tools/josh-healthctl.c`)

The tool edits the two health sectors of a disk image. The image is behind `FileOps`: what reading a sector gives, and
what writing one does. `main` is the program, with its exit status and what it prints.

`good` and `pending` raise the generation, so `persist` writes the sector that does not hold the current record, and a
write that is cut short costs nothing. `attempt` does not change a record that is not on trial; `persist` then writes the
same record over itself, and a write that is cut short costs the current record (`healthctl_crash_safe_iff`). -/

namespace JoshBios.HealthCtl

open Health (HealthRecord BootSlot valid recordAt)
open Stage2 (version cellLba healthLba zeroRecord)
open TwoCopy (Holds Placed home)

structure FileOps (F : Type) where
  read : F → UInt64 → Option Bytes
  write : F → UInt64 → Bytes → Bool × F

/-- How the program ends: its exit status, the image, and what it printed to the two streams. -/
structure Result (F : Type) where
  status : Nat
  file : F
  out : List String
  err : List String

section Tool
variable {F : Type} (ops : FileOps F)

def readRecord (f : F) (lba : UInt64) : Option HealthRecord := (ops.read f lba).map recordAt

def writeRecord (f : F) (lba : UInt64) (record : HealthRecord) : Bool × F := ops.write f lba record.bytes

/-- A copy that cannot be read counts as a zeroed one. -/
def loadState (f : F) : Bool × HealthRecord :=
  Health.choose ((readRecord ops f Health.healthLbaA).getD zeroRecord) ((readRecord ops f Health.healthLbaB).getD zeroRecord)

def persist (f : F) (record : HealthRecord) : Bool × F := writeRecord ops f (healthLba record) record

def parseSlot (name : String) : Option BootSlot :=
  if name = "current" then some .current
  else if name = "previous" then some .previous
  else if name = "recovery" then some .recovery
  else none

def slotName (slot : UInt32) : String :=
  if slot = BootSlot.current.code then "current"
  else if slot = BootSlot.previous.code then "previous"
  else if slot = BootSlot.recovery.code then "recovery"
  else "invalid"

/-- `show` -/
def showRecord (record : HealthRecord) : List String :=
  ["generation=" ++ toString record.generation ++ "\n", "selected=" ++ slotName record.selectedSlot ++ "\n",
    "last_good=" ++ slotName record.lastGoodSlot ++ "\n", "pending_good=" ++ toString record.pendingGood ++ "\n",
    "attempt_count=" ++ toString record.attemptCount ++ "\n",
    "last_failure_stage=" ++ toString record.lastFailureStage ++ "\n",
    "update_generation=" ++ toString record.updateGeneration ++ "\n"]

/-- The end of a command that changed the record. -/
def finish (record : HealthRecord) (f : F) : Result F :=
  match persist ops f record with
  | (false, f) => ⟨1, f, [], []⟩
  | (true, f) => ⟨0, f, showRecord record, []⟩

/-- `main` from the opened image on. -/
def command (argv : List String) (f : F) : Result F :=
  let (existed, record) := loadState ops f
  let name := argv.getD 1 ""
  if name = "init" then
    match writeRecord ops f Health.healthLbaA Health.healthDefault with
    | (false, f) => ⟨1, f, [], []⟩
    | (true, f) =>
      match writeRecord ops f Health.healthLbaB Health.healthDefault with
      | (false, f) => ⟨1, f, [], []⟩
      | (true, f) => ⟨0, f, showRecord Health.healthDefault, []⟩
  else if name = "show" then
    if !existed then ⟨1, f, [], ["no valid boot-health record\n"]⟩ else ⟨0, f, showRecord record, []⟩
  else if name = "good" ∨ name = "pending" then
    if argv.length ≠ 4 then ⟨2, f, [], []⟩ else
    match parseSlot (argv.getD 3 "") with
    | none => ⟨2, f, [], []⟩
    | some slot =>
      let record := if existed then record else Health.healthDefault
      match (if name = "good" then Health.markGood record slot.code else Health.beginUpdate record slot.code) with
      | (false, _) => ⟨1, f, [], []⟩
      | (true, record) => finish ops record f
  else if name = "attempt" then
    let record := if existed then record else Health.healthDefault
    finish ops (Health.prepareAttempt record Health.healthMaxAttempts).2 f
  else ⟨2, f, [], []⟩

/-- `main`; `image` is what opening the file gives. -/
def main (argv : List String) (image : Option F) : Result (Option F) :=
  if argv.length < 3 then
    ⟨2, image, [], ["usage: " ++ argv.getD 0 "" ++ " <show|init|good|pending|attempt> <image> [slot]\n"]⟩
  else
    match image with
    -- `perror` adds what went wrong
    | none => ⟨1, none, [], [argv.getD 2 ""]⟩
    | some f =>
      let r := command ops argv f
      ⟨r.status, some r.file, r.out, r.err⟩

end Tool

/-! ### A disk image, and a write that is cut short -/

/-- The sectors of an image, as far as it reaches. -/
abbrev Disk := UInt64 → Option Bytes

def diskOps : FileOps Disk where
  read d lba := d lba
  write d lba data := (true, fun l => if l = lba then some data else d l)

/-- A write that leaves `bad` in its sector. -/
def tornOps (bad : Bytes) : FileOps Disk :=
  { diskOps with write := fun d lba _ => (false, fun l => if l = lba then some bad else d l) }

/-- The two copies. -/
def copies (d : Disk) (odd : Bool) : HealthRecord := ((d (cellLba odd)).map recordAt).getD zeroRecord

def current (d : Disk) : HealthRecord := (loadState diskOps d).2

/-- Whatever invalid bytes a torn write leaves, the record is still there. -/
def CrashSafe (argv : List String) (d : Disk) : Prop :=
  ∀ bad, valid (recordAt bad) = false → ∃ d', (main (tornOps bad) argv (some d)).file = some d' ∧
    loadState diskOps d' = loadState diskOps d

theorem loadState_eq (d : Disk) : loadState diskOps d = Health.choose (copies d false) (copies d true) := rfl

theorem loadState_holds {d : Disk} {r : HealthRecord} (h : Holds valid version (copies d) r) :
    loadState diskOps d = (true, r) := by
  rw [loadState_eq, Stage2.choose_of_holds h]

theorem home_next {r r' : HealthRecord} (h : r'.generation = r.generation + 1) :
    home version r' = !home version r := by
  have hnat : version r' = (version r + 1) % 2 ^ 64 := by
    rw [version, h, UInt64.toNat_add]
    rfl
  unfold home
  rcases Nat.mod_two_eq_zero_or_one (version r) with h2 | h2
  · rw [h2, show version r' % 2 = 1 by omega]
    rfl
  · rw [h2, show version r' % 2 = 0 by omega]
    rfl

/-- What a torn write of `r` leaves. -/
def tear (d : Disk) (r : HealthRecord) (bad : Bytes) : Disk := fun l => if l = healthLba r then some bad else d l

theorem copies_tear_home (d : Disk) (r : HealthRecord) (bad : Bytes) :
    copies (tear d r bad) (home version r) = recordAt bad := by
  simp only [copies, tear, Stage2.healthLba_eq, if_true, Option.map_some, Option.getD_some]

theorem copies_tear_other (d : Disk) (r : HealthRecord) (bad : Bytes) :
    copies (tear d r bad) (!home version r) = copies d (!home version r) := by
  have hne : cellLba (!home version r) ≠ cellLba (home version r) := fun heq => by simpa using Stage2.cellLba_inj heq
  simp only [copies, tear, Stage2.healthLba_eq, if_neg hne]

section Crash
variable {d : Disk} {r r' : HealthRecord} (h : Holds valid version (copies d) r)
include h

/-- A torn write of the next generation. -/
theorem loadState_torn_next (hg : r'.generation = r.generation + 1) {bad : Bytes} (hb : valid (recordAt bad) = false) :
    loadState diskOps (tear d r' bad) = (true, r) := by
  have hhome := home_next hg
  have hbad := copies_tear_home d r' bad
  have hkeep := copies_tear_other d r' bad
  rw [hhome] at hbad
  rw [hhome, Bool.not_not, h.cell] at hkeep
  refine loadState_holds (Holds.intro h.is_valid hkeep fun hv => ?_)
  rw [hbad, hb] at hv
  cases hv

omit h in
theorem choose_of_invalid {c : Bool → HealthRecord} {odd : Bool} (hi : valid (c odd) = false) :
    Health.choose (c false) (c true) =
      if valid (c (!odd)) = true then (true, c (!odd)) else (false, Health.healthDefault) := by
  cases odd with
  | false =>
    cases hv : valid (c true) with
    | false => simp [Health.choose, hi, hv]
    | true => simp [Health.choose, hi, hv]
  | true =>
    cases hv : valid (c false) with
    | false => simp [Health.choose, hi, hv]
    | true => simp [Health.choose, hi, hv]

theorem loadState_torn_same {bad : Bytes} (hb : valid (recordAt bad) = false) :
    loadState diskOps (tear d r bad) = (true, r) ↔ copies d (!home version r) = r := by
  have hinvalid : valid (copies (tear d r bad) (home version r)) = false := by
    rw [copies_tear_home]
    exact hb
  rw [loadState_eq, choose_of_invalid hinvalid, copies_tear_other]
  constructor
  · intro heq
    split at heq
    · exact (Prod.mk.inj heq).2
    · cases (Prod.mk.inj heq).1
  · intro heq
    rw [heq, if_pos h.is_valid]

/-- `good` and `pending` write nothing, or the next generation. -/
theorem command_update {argv : List String} (hname : argv.getD 1 "" = "good" ∨ argv.getD 1 "" = "pending") (bad : Bytes) :
    (command (tornOps bad) argv d).file = d ∨
      ∃ r', r'.generation = r.generation + 1 ∧ (command (tornOps bad) argv d).file = tear d r' bad := by
  have hload : loadState (tornOps bad) d = (true, r) := loadState_holds h
  have hother : argv.getD 1 "" ≠ "init" ∧ argv.getD 1 "" ≠ "show" := by
    rcases hname with hn | hn
    · rw [hn]
      decide
    · rw [hn]
      decide
  simp only [command, hload, if_neg hother.1, if_neg hother.2, if_pos hname, if_true]
  split
  · exact Or.inl rfl
  split
  · exact Or.inl rfl
  next slot hslot =>
  split
  · exact Or.inl rfl
  next r' hr' =>
  refine Or.inr ⟨r', ?_, rfl⟩
  split at hr'
  · have hdoes := Health.does_markGood h.is_valid slot.code
    rw [hr'] at hdoes
    cases hdoes with
    | marked => rfl
  · cases (Health.beginUpdate_ok hr').2 with
    | began => rfl

theorem command_attempt {argv : List String} (hname : argv.getD 1 "" = "attempt") (bad : Bytes) :
    (command (tornOps bad) argv d).file = tear d (Health.prepareAttempt r Health.healthMaxAttempts).2 bad := by
  have hload : loadState (tornOps bad) d = (true, r) := loadState_holds h
  simp only [command, hload, hname]
  rfl

end Crash

theorem main_file (ops : FileOps Disk) {argv : List String} (hargc : ¬ argv.length < 3) (d : Disk) :
    (main ops argv (some d)).file = some (command ops argv d).file := by
  rw [main, if_neg hargc]

theorem invalid_zeros : valid (recordAt fun _ => 0) = false := by decide

/-- On an image whose newest copy is in the sector of its parity, a torn write of `good`, `pending` or `attempt` never
costs the current record, unless it is an `attempt` on a record that is not on trial and the other sector does not
hold that record too. -/
theorem healthctl_crash_safe_iff {argv : List String} (hname : argv.getD 1 "" ∈ ["good", "pending", "attempt"]) {d : Disk}
    (hp : Placed valid version (copies d)) :
    CrashSafe argv d ↔ (argv.getD 1 "" = "attempt" → 3 ≤ argv.length → (current d).pendingGood = 0 →
      ∀ odd, copies d odd = current d) := by
  have h := hp.holds
  generalize copies d (TwoCopy.newest valid version (copies d)) = r at h
  have hload := loadState_holds h
  have hcur : current d = r := congrArg Prod.snd hload
  unfold CrashSafe
  rw [hcur, hload]
  by_cases hargc : argv.length < 3
  · -- the usage message, and no write
    refine ⟨fun _ _ h3 => absurd h3 (by omega), fun _ bad _ => ⟨d, ?_, hload⟩⟩
    rw [main, if_pos hargc]
  by_cases hatt : argv.getD 1 "" = "attempt"
  · have hprep := Health.prepareAttempt_spec h.is_valid Health.healthMaxAttempts
    by_cases hpend : r.pendingGood = 0
    · have hsame := hprep.settled hpend
      have hfile : ∀ bad, (main (tornOps bad) argv (some d)).file = some (tear d r bad) := fun bad => by
        rw [main_file _ hargc, command_attempt h hatt, hsame]
      constructor
      · intro hsafe _ _ _ odd
        obtain ⟨d', hd', hload'⟩ := hsafe _ invalid_zeros
        rw [hfile, Option.some.injEq] at hd'
        rw [← hd'] at hload'
        have hother := (loadState_torn_same h invalid_zeros).1 hload'
        by_cases hodd : odd = home version r
        · rw [hodd]
          exact h.cell
        · rw [Bool.eq_not_of_ne hodd]
          exact hother
      · intro hboth bad hbad
        exact ⟨_, hfile bad, (loadState_torn_same h hbad).2 (hboth hatt (by omega) hpend _)⟩
    · refine ⟨fun _ _ _ h0 => absurd h0 hpend, fun _ bad hbad => ⟨_, ?_, loadState_torn_next h (hprep.trial hpend) hbad⟩⟩
      rw [main_file _ hargc, command_attempt h hatt]
  · have hupdate : argv.getD 1 "" = "good" ∨ argv.getD 1 "" = "pending" := by
      simp only [List.mem_cons, List.not_mem_nil, or_false] at hname
      rcases hname with hn | hn | hn
      · exact Or.inl hn
      · exact Or.inr hn
      · exact absurd hn hatt
    refine ⟨fun _ h0 => absurd h0 hatt, fun _ bad hbad => ⟨_, main_file _ hargc d, ?_⟩⟩
    rcases command_update h hupdate bad with hsame | ⟨r', hg, hfile⟩
    · rw [hsame]
      exact hload
    · rw [hfile]
      exact loadState_torn_next h hg hbad

/-! ### An image -/

/-- The default record marked good twice: the current slot first, the previous slot then. -/
def firstGood : HealthRecord := (Health.markGood Health.healthDefault 0).2

def secondGood : HealthRecord := (Health.markGood firstGood 1).2

/-- The image with these two records. -/
def twiceGood : Disk := fun lba =>
  if lba = Health.healthLbaA then some secondGood.bytes
  else if lba = Health.healthLbaB then some firstGood.bytes
  else none

theorem copies_twiceGood : copies twiceGood false = secondGood ∧ copies twiceGood true = firstGood := by
  refine ⟨?_, ?_⟩
  · show recordAt secondGood.bytes = secondGood
    exact Health.recordAt_bytes _
  · show recordAt firstGood.bytes = firstGood
    exact Health.recordAt_bytes _

theorem valid_firstGood : valid firstGood = true := Health.valid_markGood Health.valid_healthDefault 0

theorem markGood_firstGood : Health.markGood firstGood 1 = (true, Health.sealRecord
    { firstGood with
      generation := firstGood.generation + 1, selectedSlot := 1, lastGoodSlot := 1, pendingGood := 0, attemptCount := 0
      lastFailureStage := 0 }) :=
  Health.markGood_eq valid_firstGood .previous

theorem version_twiceGood : version firstGood = 1 ∧ version secondGood = 2 := by
  have hfirst : firstGood.generation = 1 := by
    have heq : Health.markGood Health.healthDefault 0 = _ := Health.markGood_eq Health.valid_healthDefault .current
    rw [firstGood, heq]
    rfl
  have hsecond : secondGood.generation = firstGood.generation + 1 := by
    rw [secondGood, markGood_firstGood]
    rfl
  rw [version, version, hsecond, hfirst]
  exact ⟨rfl, rfl⟩

theorem holds_twiceGood : Holds valid version (copies twiceGood) secondGood := by
  have hhome : home version secondGood = false := by
    rw [home, version_twiceGood.2]
    rfl
  refine Holds.intro (Health.valid_markGood valid_firstGood 1) ?_ fun _ => ?_
  · rw [hhome]
    exact copies_twiceGood.1
  · rw [hhome, Bool.not_false, copies_twiceGood.2, version_twiceGood.1, version_twiceGood.2]
    decide

theorem healthctl_crash_safe_iff_pending :
    Placed valid version (copies twiceGood) ∧ CrashSafe ["josh-healthctl", "pending", "disk.img", "current"] twiceGood :=
  ⟨holds_twiceGood.placed, (healthctl_crash_safe_iff (by decide) holds_twiceGood.placed).2 fun h => absurd h (by decide)⟩

/-- The image after a torn `attempt`. -/
theorem torn_attempt_file (bad : Bytes) :
    (main (tornOps bad) ["josh-healthctl", "attempt", "disk.img"] (some twiceGood)).file =
      some (tear twiceGood secondGood bad) := by
  have hsettled : secondGood.pendingGood = 0 := by
    rw [secondGood, markGood_firstGood]
    rfl
  have hsame := (Health.prepareAttempt_spec holds_twiceGood.is_valid Health.healthMaxAttempts).settled hsettled
  rw [main_file _ (by decide), command_attempt holds_twiceGood (by decide), hsame]

/-- `attempt` on a record that is not on trial: a torn write brings back the record before it. -/
theorem torn_attempt_falls_back :
    loadState diskOps twiceGood = (true, secondGood) ∧
      (main (tornOps fun _ => 0) ["josh-healthctl", "attempt", "disk.img"] (some twiceGood)).file =
        some (tear twiceGood secondGood fun _ => 0) ∧
      loadState diskOps (tear twiceGood secondGood fun _ => 0) = (true, firstGood) ∧
      ¬ CrashSafe ["josh-healthctl", "attempt", "disk.img"] twiceGood := by
  have hload := loadState_holds holds_twiceGood
  have hhome : home version secondGood = false := by
    rw [home, version_twiceGood.2]
    rfl
  have htorn : loadState diskOps (tear twiceGood secondGood fun _ => 0) = (true, firstGood) := by
    have hinvalid : valid (copies (tear twiceGood secondGood fun _ => 0) (home version secondGood)) = false := by
      rw [copies_tear_home]
      exact invalid_zeros
    rw [loadState_eq, choose_of_invalid hinvalid, copies_tear_other, hhome, Bool.not_false, copies_twiceGood.2,
      if_pos valid_firstGood]
  refine ⟨hload, torn_attempt_file _, htorn, fun hsafe => ?_⟩
  obtain ⟨d', hd', hd⟩ := hsafe _ invalid_zeros
  rw [torn_attempt_file, Option.some.injEq] at hd'
  rw [← hd', htorn, hload, Prod.mk.injEq] at hd
  have hversion := congrArg version hd.2
  rw [version_twiceGood.1, version_twiceGood.2] at hversion
  cases hversion

end JoshBios.HealthCtl
