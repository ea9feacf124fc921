import JoshBios.Health
import JoshBios.Lib.Runs

/-! # The boot-health record over whole runs

The five operations of `boot/core/health.c` as a machine: any calls with any arguments, from the default record.
`Does` lists what a call can do to a valid record. `RunInv` is what every run keeps: a record on trial is never the
recovery slot, which is why a trial that has used up its attempts always leads to another slot. -/

namespace JoshBios.Health
open Lib

/-- A call, with the numbers it is given. -/
inductive Op where
  | beginUpdate (candidate : UInt32)
  | prepareAttempt (maxAttempts : UInt32)
  | markGood (slot : UInt32)
  | noteFailure (stage : UInt32)
  | selectFallback (slot stage : UInt32)
deriving DecidableEq, Repr

/-- What a call returns; `note_failure` returns nothing. -/
inductive Answer where
  | done (ok : Bool)
  | boot (slot : BootSlot)
  | nothing
deriving DecidableEq, Repr

def step : Op → HealthRecord → Answer × HealthRecord
  | .beginUpdate candidate, r => (.done (beginUpdate r candidate).1, (beginUpdate r candidate).2)
  | .prepareAttempt maxAttempts, r => (.boot (prepareAttempt r maxAttempts).1, (prepareAttempt r maxAttempts).2)
  | .markGood slot, r => (.done (markGood r slot).1, (markGood r slot).2)
  | .noteFailure stage, r => (.nothing, noteFailure r stage)
  | .selectFallback slot stage, r => (.done (selectFallback r slot stage).1, (selectFallback r slot stage).2)

abbrev Call := Event Op HealthRecord Answer

/-- The attempts that `prepare_attempt` allows. -/
def attemptsAllowed (maxAttempts : UInt32) : UInt32 := if maxAttempts = 0 then healthMaxAttempts else maxAttempts

/-! ### What a call can do -/

/-- Everything a call can do to a valid record. -/
inductive Does (r : HealthRecord) : Op → Answer → HealthRecord → Prop where
  | refused {op : Op} (hop : ∀ maxAttempts, op ≠ .prepareAttempt maxAttempts) : Does r op (.done false) r
  | ignored {stage : UInt32} : Does r (.noteFailure stage) .nothing r
  | settled {maxAttempts : UInt32} (h : r.pendingGood = 0) :
      Does r (.prepareAttempt maxAttempts) (.boot (slotOf r.selectedSlot)) r
  | began {candidate : UInt32} (hc : slotValid candidate = true) (hr : candidate ≠ BootSlot.recovery.code) :
      Does r (.beginUpdate candidate) (.done true) (sealRecord
        { r with
          generation := r.generation + 1, updateGeneration := r.updateGeneration + 1, selectedSlot := candidate
          pendingGood := 1, attemptCount := 0, lastFailureStage := FailureStage.none.code })
  | tried {maxAttempts : UInt32} (h : r.pendingGood ≠ 0) (hn : r.attemptCount < attemptsAllowed maxAttempts) :
      Does r (.prepareAttempt maxAttempts) (.boot (slotOf r.selectedSlot)) (sealRecord
        { r with generation := r.generation + 1, attemptCount := r.attemptCount + 1 })
  | exhausted {maxAttempts slot : UInt32} (h : r.pendingGood ≠ 0) (hn : attemptsAllowed maxAttempts ≤ r.attemptCount)
      (hslot : slot = if r.lastGoodSlot ≠ r.selectedSlot then r.lastGoodSlot else BootSlot.recovery.code) :
      Does r (.prepareAttempt maxAttempts) (.boot (slotOf slot)) (sealRecord
        { r with
          generation := r.generation + 1, selectedSlot := slot, pendingGood := 0, attemptCount := 0
          lastFailureStage := FailureStage.kernel.code })
  | marked {slot : UInt32} (hs : slotValid slot = true) :
      Does r (.markGood slot) (.done true) (sealRecord
        { r with
          generation := r.generation + 1, selectedSlot := slot, lastGoodSlot := slot, pendingGood := 0
          attemptCount := 0, lastFailureStage := FailureStage.none.code })
  | noted {stage : UInt32} (hs : stage ≤ FailureStage.desktop.code) :
      Does r (.noteFailure stage) .nothing (sealRecord
        { r with generation := r.generation + 1, lastFailureStage := stage })
  | fellBack {slot stage : UInt32} (hs : slotValid slot = true) (hst : stage ≤ FailureStage.desktop.code) :
      Does r (.selectFallback slot stage) (.done true) (sealRecord
        { r with
          generation := r.generation + 1, selectedSlot := slot, pendingGood := 0, attemptCount := 0
          lastFailureStage := stage })

variable {r r' : HealthRecord} {op : Op} {a : Answer}

theorem does_beginUpdate (h : valid r = true) (candidate : UInt32) :
    Does r (.beginUpdate candidate) (.done (beginUpdate r candidate).1) (beginUpdate r candidate).2 := by
  unfold beginUpdate
  split
  · exact .refused nofun
  next hc =>
    simp only [h, Bool.not_true, Bool.false_or, Bool.or_eq_true, Bool.not_eq_true', beq_iff_eq, not_or,
      Bool.not_eq_false] at hc
    exact .began hc.1 hc.2

theorem beginUpdate_ok {candidate : UInt32} (h : beginUpdate r candidate = (true, r')) :
    valid r = true ∧ Does r (.beginUpdate candidate) (.done true) r' := by
  have hv : valid r = true := by
    by_contra hn
    rw [beginUpdate, if_pos (by simp [Bool.eq_false_iff.2 hn])] at h
    cases h
  have hdoes := does_beginUpdate hv candidate
  rw [h] at hdoes
  exact ⟨hv, hdoes⟩

theorem does_prepareAttempt (h : valid r = true) (maxAttempts : UInt32) :
    Does r (.prepareAttempt maxAttempts) (.boot (prepareAttempt r maxAttempts).1) (prepareAttempt r maxAttempts).2 := by
  simp only [prepareAttempt, h, Bool.not_true, Bool.false_eq_true, if_false]
  rw [show (if maxAttempts = 0 then healthMaxAttempts else maxAttempts) = attemptsAllowed maxAttempts from rfl]
  by_cases hp : r.pendingGood = 0
  · rw [if_neg (not_not.2 hp)]
    exact .settled hp
  rw [if_pos hp]
  by_cases hn : r.attemptCount ≥ attemptsAllowed maxAttempts
  · rw [if_pos hn]
    exact .exhausted hp hn rfl
  · rw [if_neg hn]
    exact .tried hp (UInt32.not_le.1 hn)

theorem does_markGood (h : valid r = true) (slot : UInt32) :
    Does r (.markGood slot) (.done (markGood r slot).1) (markGood r slot).2 := by
  unfold markGood
  split
  · exact .refused nofun
  next hc =>
    simp only [h, Bool.not_true, Bool.false_or, Bool.not_eq_true', Bool.not_eq_false] at hc
    exact .marked hc

theorem does_noteFailure (h : valid r = true) (stage : UInt32) :
    Does r (.noteFailure stage) .nothing (noteFailure r stage) := by
  unfold noteFailure
  split
  · exact .ignored
  next hc =>
    simp only [h, Bool.not_true, Bool.false_or, decide_eq_true_iff] at hc
    exact .noted (UInt32.not_lt.1 hc)

theorem does_selectFallback (h : valid r = true) (slot stage : UInt32) :
    Does r (.selectFallback slot stage) (.done (selectFallback r slot stage).1) (selectFallback r slot stage).2 := by
  unfold selectFallback
  split
  · exact .refused nofun
  next hc =>
    simp only [h, Bool.not_true, Bool.false_or, Bool.or_eq_true, Bool.not_eq_true', decide_eq_true_iff, not_or,
      Bool.not_eq_false] at hc
    exact .fellBack hc.1 (UInt32.not_lt.1 hc.2)

theorem step_does (h : valid r = true) (op : Op) : Does r op (step op r).1 (step op r).2 := by
  cases op with
  | beginUpdate candidate => exact does_beginUpdate h candidate
  | prepareAttempt maxAttempts => exact does_prepareAttempt h maxAttempts
  | markGood slot => exact does_markGood h slot
  | noteFailure stage => exact does_noteFailure h stage
  | selectFallback slot stage => exact does_selectFallback h slot stage

theorem valid_step (h : valid r = true) (op : Op) : valid (step op r).2 = true := by
  cases op with
  | beginUpdate candidate => exact valid_beginUpdate h candidate
  | prepareAttempt maxAttempts => exact (prepareAttempt_spec h maxAttempts).valid
  | markGood slot => exact valid_markGood h slot
  | noteFailure stage => exact valid_noteFailure h stage
  | selectFallback slot stage => exact valid_selectFallback h slot stage

/-! ### Runs -/

/-- The argument of a successful `mark_good`. -/
def markedSlot : Op → Answer → Option UInt32
  | .markGood slot, .done true => some slot
  | _, _ => none

/-- The argument of the most recent successful `mark_good`, the current slot when there was none. -/
def lastMarked : List Call → UInt32
  | [] => BootSlot.current.code
  | ev :: older => (markedSlot ev.op ev.res).getD (lastMarked older)

structure RunInv (hist : List Call) (r : HealthRecord) : Prop where
  is_valid : valid r = true
  trial : r.pendingGood = 1 → r.selectedSlot ≠ BootSlot.recovery.code
  last_good : r.lastGoodSlot = lastMarked hist

/-- What one call of a run does: a failed one nothing, an effective one the next generation; and a trial that has used
up its attempts ends with another slot, the last good one if that is another. -/
structure CallOk (ev : Call) : Prop where
  failed : ev.res = .done false → ev.post = ev.pre
  changed : ev.post ≠ ev.pre → ev.post.generation = ev.pre.generation + 1
  exhausted : ∀ maxAttempts, ev.op = .prepareAttempt maxAttempts → ev.pre.pendingGood = 1 →
    attemptsAllowed maxAttempts ≤ ev.pre.attemptCount →
    ∃ slot, ev.res = .boot slot ∧ ev.post.pendingGood = 0 ∧ ev.post.selectedSlot = slot.code ∧
      slot.code ≠ ev.pre.selectedSlot ∧
      (slot.code = ev.pre.lastGoodSlot ∨ slot = .recovery ∧ ev.pre.selectedSlot = ev.pre.lastGoodSlot)

/-- The slot that follows a trial is not the slot on trial. -/
theorem fallback_ne (ht : r.selectedSlot ≠ BootSlot.recovery.code) :
    (if r.lastGoodSlot ≠ r.selectedSlot then r.lastGoodSlot else BootSlot.recovery.code) ≠ r.selectedSlot := by
  split
  next hne => exact hne
  · exact ht.symm

theorem slotValid_fallback (h : slotValid r.lastGoodSlot = true) :
    slotValid (if r.lastGoodSlot ≠ r.selectedSlot then r.lastGoodSlot else BootSlot.recovery.code) = true := by
  split
  · exact h
  · rfl

theorem RunInv.step_inv {hist : List Call} (h : RunInv hist r) (op : Op) :
    RunInv (Event.of step op r :: hist) (step op r).2 := by
  refine ⟨valid_step h.is_valid op, ?_, ?_⟩
  · have hdoes := step_does h.is_valid op
    generalize (step op r).1 = a at hdoes
    generalize (step op r).2 = r' at hdoes ⊢
    intro hp
    cases hdoes with
    | refused => exact h.trial hp
    | ignored => exact h.trial hp
    | settled => exact h.trial hp
    | began _ hr => exact hr
    | tried => exact h.trial hp
    | exhausted => cases (show (0 : UInt32) = 1 from hp)
    | marked => cases (show (0 : UInt32) = 1 from hp)
    | noted => exact h.trial hp
    | fellBack => cases (show (0 : UInt32) = 1 from hp)
  · show (step op r).2.lastGoodSlot = (markedSlot op (step op r).1).getD (lastMarked hist)
    have hdoes := step_does h.is_valid op
    have hlast := h.last_good
    generalize (step op r).1 = a at hdoes ⊢
    generalize (step op r).2 = r' at hdoes ⊢
    cases hdoes with
    | refused =>
      cases op with
      | _ => exact hlast
    | ignored => exact hlast
    | settled => exact hlast
    | began => exact hlast
    | tried => exact hlast
    | exhausted => exact hlast
    | marked => rfl
    | noted => exact hlast
    | fellBack => exact hlast

theorem RunInv.call_ok {hist : List Call} (h : RunInv hist r) (op : Op) : CallOk (Event.of step op r) := by
  have hdoes := step_does h.is_valid op
  have hwf := wellFormed_of_valid h.is_valid
  have hev : Event.of step op r = ⟨op, r, (step op r).1, (step op r).2⟩ := rfl
  rw [hev]
  generalize (step op r).1 = a at hdoes
  generalize (step op r).2 = r' at hdoes
  cases hdoes with
  | refused hop => exact ⟨fun _ => rfl, fun hne => absurd rfl hne, fun m hm => absurd hm (hop m)⟩
  | ignored => exact ⟨fun _ => rfl, fun hne => absurd rfl hne, nofun⟩
  | settled hp =>
    refine ⟨nofun, fun hne => absurd rfl hne, fun _ _ hp' => ?_⟩
    rw [show r.pendingGood = 1 from hp'] at hp
    cases hp
  | began => exact ⟨nofun, fun _ => rfl, nofun⟩
  | @tried m hp hn =>
    refine ⟨nofun, fun _ => rfl, ?_⟩
    rintro _ ⟨⟩ - hle
    exact absurd hle (UInt32.not_le.2 hn)
  | @exhausted m slot hp hn hslot =>
    refine ⟨nofun, fun _ => rfl, ?_⟩
    rintro _ ⟨⟩ hp' -
    have hvalid : slotValid slot = true := hslot ▸ slotValid_fallback hwf.lastGood
    have hcode : (slotOf slot).code = slot := code_slotOf hvalid
    refine ⟨slotOf slot, rfl, rfl, hcode.symm, ?_, ?_⟩
    · rw [hcode, hslot]
      exact fallback_ne (h.trial hp')
    · rw [hcode, hslot]
      split
      · exact Or.inl rfl
      next heq => exact Or.inr ⟨rfl, (not_not.1 heq).symm⟩
  | marked => exact ⟨nofun, fun _ => rfl, nofun⟩
  | noted => exact ⟨nofun, fun _ => rfl, nofun⟩
  | fellBack => exact ⟨nofun, fun _ => rfl, nofun⟩

/-- In every run from the default record, with any calls and any arguments: the record is valid, a slot on trial is
not the recovery slot, and the last good slot is the one marked good last; and every call that fails changes nothing,
every effective one raises the generation by one, and a trial that has used up its attempts ends with another slot. -/
theorem health_machine {hist : List Call} (h : Reaches step healthDefault hist r) :
    valid r = true ∧ (r.pendingGood = 1 → r.selectedSlot ≠ BootSlot.recovery.code) ∧
    r.lastGoodSlot = lastMarked hist ∧ ∀ ev ∈ hist, CallOk ev := by
  have hinv : RunInv hist r ∧ ∀ ev ∈ hist, CallOk ev := by
    refine h.invariant (fun _ => True) (fun hist r => RunInv hist r ∧ ∀ ev ∈ hist, CallOk ev) ?_ ?_ (fun _ _ => trivial)
    · exact ⟨⟨valid_healthDefault, fun hp => (by cases hp), rfl⟩, fun _ hev => absurd hev List.not_mem_nil⟩
    · rintro hist r op - ⟨hi, hold⟩ -
      refine ⟨hi.step_inv op, fun ev hev => ?_⟩
      rcases List.mem_cons.1 hev with rfl | hev
      · exact hi.call_ok op
      · exact hold ev hev
  exact ⟨hinv.1.is_valid, hinv.1.trial, hinv.1.last_good, hinv.2⟩

/-- A run to a trial of the current slot that has used up its one attempt. -/
theorem health_machine_trial :
    let ops := [.markGood 1, .beginUpdate 0, .prepareAttempt 1, .noteFailure 5, .prepareAttempt 1]
    let r := runOps step ops healthDefault
    valid r = true ∧ r.pendingGood = 0 ∧ r.lastGoodSlot = 1 := by
  intro ops r
  obtain ⟨hv, -, hlast, -⟩ := health_machine (reaches_runOps step ops healthDefault)
  have hmarked : lastMarked (histOps step ops healthDefault []) = 1 := by decide +kernel
  exact ⟨hv, by decide +kernel, hlast.trans hmarked⟩

end JoshBios.Health
