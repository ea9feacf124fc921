import JoshBios.SlotChain

/-! # What the choice of a slot leaves behind

`selectKernel_chain` says which slot is chosen when each slot always gives the same answer. Here the answers may rest on the
state, as long as every step keeps what they rest on (`I`, with the record it goes with); and the slot that is chosen leaves
the state that its read made (`Q`). -/

namespace JoshBios.Stage2

open Health (HealthRecord BootSlot FailureStage)
open Config (BootConfig)

/-- The steps of a loop: `I` is kept, a read answers as `out` says, and one that gives something makes `Q`. -/
structure SlotSteps {S α : Type} (w : SlotWorld S α) (out : BootSlot → Option α) (I : HealthRecord → S → Prop)
    (Q : BootSlot → α → S → Prop) : Prop where
  say : ∀ health message s, I health s → I health (w.say message s)
  say_made : ∀ slot a message s, Q slot a s → Q slot a (w.say message s)
  persist : ∀ health health' s, I health s → Health.valid health' = true →
    health'.generation.toNat = health.generation.toNat + 1 → I health' (w.persist health' s)
  read : ∀ health slot s, I health s → (w.read slot s).1 = out slot ∧ I health (w.read slot s).2
  made : ∀ health slot a s, I health s → out slot = some a → Q slot a (w.read slot s).2

/-- The slots that give something. -/
def loads {α : Type} (out : BootSlot → Option α) (slot : BootSlot) : Bool := (out slot).isSome

/-- What a choice comes to that starts from `slot`, with the record `health`. -/
structure Outcome {S α : Type} (config : BootConfig) (out : BootSlot → Option α) (I : HealthRecord → S → Prop)
    (Q : BootSlot → α → S → Prop) (slot : BootSlot) (health : HealthRecord) (r : Selected S α) : Prop where
  first : r.kernel.map Prod.fst = (chain config slot).find? (loads out)
  record : r.health = fallbacks health (tried (loads out) (chain config slot)).tail
  kept : I r.health r.world
  steps : r.health.generation.toNat ≤ health.generation.toNat + stepsLeft slot
  made : ∀ slot a, r.kernel = some (slot, a) → out slot = some a ∧ Q slot a r.world

variable {S α : Type} {w : SlotWorld S α} {out : BootSlot → Option α} {I : HealthRecord → S → Prop}
  {Q : BootSlot → α → S → Prop}

theorem candidateLoop_outcome (hw : SlotSteps w out I Q) (config : BootConfig) {n : Nat} {slot : BootSlot}
    {health : HealthRecord} {s : S} (hv : Health.valid health = true) (hn : stepsLeft slot < n)
    (hroom : health.generation.toNat + stepsLeft slot < 2 ^ 64) (h : I health s) :
    Outcome config out I Q slot health (candidateLoop w config n slot health s) := by
  induction n generalizing slot health s with
  | zero => omega
  | succ n ih =>
    have hsaid := hw.say health (slotMarker slot) s h
    obtain ⟨hread, hkept⟩ := hw.read health slot _ hsaid
    rw [candidateLoop_succ]
    split
    next a s' hs =>
      rw [hs] at hread hkept
      have hout : out slot = some a := hread.symm
      have hmade := hw.made health slot a _ hsaid hout
      rw [hs] at hmade
      have hload : loads out slot = true := by rw [loads, hout]; rfl
      refine ⟨?_, ?_, hw.say _ _ _ (hw.say _ _ _ hkept), Nat.le_add_right _ _, ?_⟩
      · rw [chain_eq, List.find?_cons_of_pos hload]
        rfl
      · rw [chain_eq, tried, if_pos hload]
        rfl
      · intro slot' a' heq
        cases heq
        exact ⟨hout, hw.say_made _ _ _ _ (hw.say_made _ _ _ _ hmade)⟩
    next s' hs =>
      rw [hs] at hread hkept
      have hload : ¬ loads out slot = true := by
        rw [loads, ← hread]
        exact Bool.false_ne_true
      cases hnext : fallbackSlot config slot with
      | none =>
        refine ⟨?_, ?_, hkept, Nat.le_add_right _ _, fun _ _ heq => by cases heq⟩
        · rw [chain_eq, hnext, List.find?_cons_of_neg hload]
          rfl
        · rw [chain_eq, hnext, tried, if_neg hload]
          rfl
      | some next =>
        obtain ⟨r, hr, hfb⟩ := Health.selectFallback_spec hv next .kernelFile
        have hlt := stepsLeft_fallbackSlot hnext
        have hgen := Health.toNat_generation_succ hfb.generation (by omega)
        have hkept' : I r (w.say (fallbackMessage next) (w.persist r s')) :=
          hw.say _ _ _ (hw.persist _ _ _ hkept hfb.valid hgen)
        have hout := ih hfb.valid (show stepsLeft next < n by omega) (by omega) hkept'
        simp only [hr]
        have hsteps := hout.steps
        refine ⟨?_, ?_, hout.kept, by omega, hout.made⟩
        · rw [chain_eq, hnext, List.find?_cons_of_neg hload]
          exact hout.first
        · -- the next slot is tried in any case, and its step is the first of the list
          have htried : tried (loads out) (chain config next) =
              next :: (tried (loads out) (chain config next)).tail := by
            rw [chain_eq, tried]
            split <;> rfl
          rw [hout.record, chain_eq config slot, hnext, tried, if_neg hload]
          simp only [List.tail_cons]
          rw [htried, List.tail_cons, fallbacks, fallbacks, List.foldl_cons, hr]

theorem selectKernel_outcome (hw : SlotSteps w out I Q) (config : BootConfig) {health : HealthRecord} {s : S}
    (hv : Health.valid health = true) (hroom : health.generation.toNat + 3 < 2 ^ 64) (h : I health s) :
    Outcome config out I Q (Health.attemptSlot health) (Health.prepareAttempt health Health.healthMaxAttempts).2
      (selectKernel w config health s) := by
  have hprep := Health.prepareAttempt_spec hv Health.healthMaxAttempts
  have hslot := Health.prepareAttempt_slot hv
  rw [selectKernel_eq]
  generalize Health.prepareAttempt health Health.healthMaxAttempts = p at hprep hslot ⊢
  obtain ⟨slot, prepared⟩ := p
  simp only at hslot hprep ⊢
  subst hslot
  -- the attempt is stored when it changed the record, which then is one generation newer
  have hstored : prepared.generation.toNat ≤ health.generation.toNat + 1 ∧
      I prepared (if prepared.generation ≠ health.generation then w.persist prepared s else s) := by
    by_cases hpend : health.pendingGood = 0
    · rw [hprep.settled hpend, if_neg (by simp)]
      exact ⟨Nat.le_succ _, h⟩
    · have hgen := Health.toNat_generation_succ (hprep.trial hpend) (by omega)
      have hne : prepared.generation ≠ health.generation := by
        intro heq
        rw [heq] at hgen
        omega
      rw [if_pos hne]
      exact ⟨by omega, hw.persist _ _ _ h hprep.valid hgen⟩
  have hstart : I prepared (attemptWorld w health (Health.attemptSlot health, prepared) s) := by
    unfold attemptWorld
    simp only
    split
    · exact hw.say _ _ _ hstored.2
    · exact hstored.2
  have hsteps : stepsLeft (Health.attemptSlot health) ≤ 2 := by cases Health.attemptSlot health <;> decide
  have hout := candidateLoop_outcome hw config hprep.valid (show stepsLeft (Health.attemptSlot health) < 3 by omega)
    (by omega) hstart
  split
  · exact hout
  next hnone =>
    exact ⟨hout.first, hout.record, hw.say _ _ _ hout.kept, hout.steps, fun slot a heq => by cases hnone.symm.trans heq⟩

theorem selectKernel_newer (hw : SlotSteps w out I Q) (config : BootConfig) {health : HealthRecord} {s : S}
    (hv : Health.valid health = true) (hroom : health.generation.toNat + 3 < 2 ^ 64) (h : I health s) :
    (selectKernel w config health s).health.generation.toNat ≤ health.generation.toNat + 3 := by
  have hprep := Health.prepareAttempt_spec hv Health.healthMaxAttempts
  have hsteps := (selectKernel_outcome hw config hv hroom h).steps
  have hattempt : (Health.prepareAttempt health Health.healthMaxAttempts).2.generation.toNat ≤
      health.generation.toNat + 1 := by
    by_cases hpend : health.pendingGood = 0
    · rw [hprep.settled hpend]
      omega
    · exact Nat.le_of_eq (Health.toNat_generation_succ (hprep.trial hpend) (by omega))
  have hleft : stepsLeft (Health.attemptSlot health) ≤ 2 := by cases Health.attemptSlot health <;> decide
  omega

end JoshBios.Stage2
