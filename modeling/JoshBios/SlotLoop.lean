import JoshBios.Stage2

/-! # The candidate loop of the BIOS path

With `fallbackSlot` the loop has one equation (`candidateLoop_succ`) and one induction rule
(`candidateLoop_rule`): what the reads, the printed lines and the fallback steps preserve, the loop preserves. -/

namespace JoshBios.Stage2

open Health (HealthRecord BootSlot FailureStage)
open Config (BootConfig isSet)

def fallbackMessage : BootSlot → String
  | .previous => "JOSHBOOT_FALLBACK_PREVIOUS\n"
  | _ => "JOSHBOOT_FALLBACK_RECOVERY\n"

section Loop
variable {S α : Type} (w : SlotWorld S α) (config : BootConfig)

theorem candidateLoop_succ (n : Nat) (slot : BootSlot) (health : HealthRecord) (s : S) :
    candidateLoop w config (n + 1) slot health s =
      match w.read slot (w.say (slotMarker slot) s) with
      | (some a, s) =>
        ⟨some (slot, a), health, w.say "JOSHBOOT_KERNEL_FILE_LOADED\n" (w.say "JOSHBOOT_KERNEL_PATH_OK\n" s)⟩
      | (none, s) =>
        match fallbackSlot config slot with
        | none => ⟨none, health, s⟩
        | some next =>
          match Health.selectFallback health next.code FailureStage.kernelFile.code with
          | (false, health) => ⟨none, health, s⟩
          | (true, health) => candidateLoop w config n next health (w.say (fallbackMessage next) (w.persist health s)) := by
  rw [candidateLoop]
  match w.read slot (w.say (slotMarker slot) s) with
  | (some a, s) => rfl
  | (none, s) =>
    by_cases h₁ : slot = .current ∧ isSet config.previousKernelPath = true
    · simp only [fallbackSlot, if_pos h₁]
      rfl
    by_cases h₂ : slot ≠ .recovery ∧ isSet config.recoveryKernelPath = true
    · simp only [fallbackSlot, if_neg h₁, if_pos h₂]
      rfl
    · simp only [fallbackSlot, if_neg h₁, if_neg h₂]

/-- The world in which the loop starts: the attempt is recorded, and a rollback is reported. -/
def attemptWorld (health : HealthRecord) (p : BootSlot × HealthRecord) (s : S) : S :=
  let s := if p.2.generation ≠ health.generation then w.persist p.2 s else s
  if health.pendingGood ≠ 0 ∧ health.selectedSlot ≠ p.1.code then
    w.say (if p.1 = .previous then "JOSHBOOT_HEALTH_ROLLBACK_PREVIOUS\n" else "JOSHBOOT_HEALTH_ROLLBACK_RECOVERY\n") s
  else s

theorem selectKernel_eq (health : HealthRecord) (s : S) :
    selectKernel w config health s =
      let p := Health.prepareAttempt health Health.healthMaxAttempts
      let r := candidateLoop w config 3 p.1 p.2 (attemptWorld w health p s)
      match r.kernel with
      | some _ => r
      | none => { r with world := w.say "JOSHBOOT_ERROR_KERNEL_CANDIDATES\n" r.world } := rfl

variable {w config}

/-- A property of slot, record and world that every step of the loop keeps holds when it ends. -/
theorem candidateLoop_rule {I : BootSlot → HealthRecord → S → Prop}
    (hsay : ∀ slot health s message, I slot health s → I slot health (w.say message s))
    (hread : ∀ slot health s, I slot health s → I slot health (w.read slot s).2)
    (hfall : ∀ slot next health health' s, fallbackSlot config slot = some next → I slot health s →
      Health.selectFallback health next.code FailureStage.kernelFile.code = (true, health') →
      I next health' (w.persist health' s))
    (n : Nat) {slot : BootSlot} {health : HealthRecord} {s : S} (h : I slot health s) :
    ∃ last, I last (candidateLoop w config n slot health s).health (candidateLoop w config n slot health s).world := by
  induction n generalizing slot health s with
  | zero => exact ⟨slot, h⟩
  | succ n ih =>
    have hr := hread slot health _ (hsay slot health s (slotMarker slot) h)
    rw [candidateLoop_succ]
    split
    next a s' hs =>
      rw [hs] at hr
      exact ⟨slot, hsay _ _ _ _ (hsay _ _ _ _ hr)⟩
    next s' hs =>
      rw [hs] at hr
      split
      · exact ⟨slot, hr⟩
      next next hnext =>
        split
        next health' hsel =>
          -- a refused fallback leaves the record alone
          have hsame : health' = health := by
            unfold Health.selectFallback at hsel
            split at hsel
            · exact (Prod.mk.inj hsel).2.symm
            · cases (Prod.mk.inj hsel).1
          exact ⟨slot, hsame ▸ hr⟩
        next health' hsel => exact ih (hsay _ _ _ _ (hfall slot next health health' s' hnext hr hsel))

/-- The state after a read in two runs: `Q` when it gave something, `R` when it did not. -/
def Both (R : S → S → Prop) (Q : α → S → S → Prop) : Option α → S → S → Prop
  | some a => Q a
  | none => R

/-- Two runs of the loop whose worlds are related, when every step keeps them so and the reads give the same. -/
theorem candidateLoop_rel {R : S → S → Prop} {Q : α → S → S → Prop}
    (hsay : ∀ message s s', R s s' → R (w.say message s) (w.say message s'))
    (hsayQ : ∀ message a s s', Q a s s' → Q a (w.say message s) (w.say message s'))
    (hpersist : ∀ health s s', R s s' → R (w.persist health s) (w.persist health s'))
    (hread : ∀ slot s s', R s s' → (w.read slot s).1 = (w.read slot s').1 ∧
      Both R Q (w.read slot s).1 (w.read slot s).2 (w.read slot s').2)
    (config : BootConfig) (n : Nat) (slot : BootSlot) (health : HealthRecord) {s s' : S} (h : R s s') :
    (candidateLoop w config n slot health s).kernel = (candidateLoop w config n slot health s').kernel ∧
      Both R Q ((candidateLoop w config n slot health s).kernel.map Prod.snd)
        (candidateLoop w config n slot health s).world (candidateLoop w config n slot health s').world := by
  induction n generalizing slot health s s' with
  | zero => exact ⟨rfl, h⟩
  | succ n ih =>
    obtain ⟨hsame, hrel⟩ := hread slot _ _ (hsay (slotMarker slot) s s' h)
    rw [candidateLoop_succ, candidateLoop_succ]
    generalize w.read slot (w.say (slotMarker slot) s) = r at hsame hrel
    generalize w.read slot (w.say (slotMarker slot) s') = r' at hsame hrel
    obtain ⟨a, t⟩ := r
    obtain ⟨a', t'⟩ := r'
    cases (show a = a' from hsame)
    cases a with
    | some a => exact ⟨rfl, hsayQ _ a _ _ (hsayQ _ a _ _ hrel)⟩
    | none =>
      simp only
      cases fallbackSlot config slot with
      | none => exact ⟨rfl, hrel⟩
      | some next =>
        simp only
        match Health.selectFallback health next.code FailureStage.kernelFile.code with
        | (false, health) => exact ⟨rfl, hrel⟩
        | (true, health) => exact ih next health (hsay _ _ _ (hpersist _ _ _ hrel))

theorem selectKernel_rel {R : S → S → Prop} {Q : α → S → S → Prop}
    (hsay : ∀ message s s', R s s' → R (w.say message s) (w.say message s'))
    (hsayQ : ∀ message a s s', Q a s s' → Q a (w.say message s) (w.say message s'))
    (hpersist : ∀ health s s', R s s' → R (w.persist health s) (w.persist health s'))
    (hread : ∀ slot s s', R s s' → (w.read slot s).1 = (w.read slot s').1 ∧
      Both R Q (w.read slot s).1 (w.read slot s).2 (w.read slot s').2)
    (config : BootConfig) (health : HealthRecord) {s s' : S} (h : R s s') :
    (selectKernel w config health s).kernel = (selectKernel w config health s').kernel ∧
      Both R Q ((selectKernel w config health s).kernel.map Prod.snd)
        (selectKernel w config health s).world (selectKernel w config health s').world := by
  have hstart : R (attemptWorld w health (Health.prepareAttempt health Health.healthMaxAttempts) s)
      (attemptWorld w health (Health.prepareAttempt health Health.healthMaxAttempts) s') := by
    unfold attemptWorld
    simp only
    split
    · refine hsay _ _ _ ?_
      split
      · exact hpersist _ _ _ h
      · exact h
    · split
      · exact hpersist _ _ _ h
      · exact h
  have hloop := candidateLoop_rel hsay hsayQ hpersist hread config 3
    (Health.prepareAttempt health Health.healthMaxAttempts).1
    (Health.prepareAttempt health Health.healthMaxAttempts).2 hstart
  rw [selectKernel_eq, selectKernel_eq]
  simp only
  generalize candidateLoop w config 3 _ _ (attemptWorld w health _ s) = r at hloop ⊢
  generalize candidateLoop w config 3 _ _ (attemptWorld w health _ s') = r' at hloop ⊢
  obtain ⟨kernel, health, t⟩ := r
  obtain ⟨kernel', health', t'⟩ := r'
  obtain ⟨hk, hrel⟩ := hloop
  cases (show kernel = kernel' from hk)
  cases kernel with
  | some k => exact ⟨rfl, hrel⟩
  | none => exact ⟨rfl, hsay _ _ _ hrel⟩

theorem selectKernel_keeps {I : S → Prop} (hsay : ∀ message s, I s → I (w.say message s))
    (hpersist : ∀ health s, I s → I (w.persist health s)) (hread : ∀ slot s, I s → I (w.read slot s).2)
    (config : BootConfig) (health : HealthRecord) {s : S} (h : I s) : I (selectKernel w config health s).world := by
  have hrel := selectKernel_rel (w := w) (R := fun s s' => s = s' ∧ I s) (Q := fun _ s s' => s = s' ∧ I s)
    ?_ ?_ ?_ ?_ config health ⟨rfl, h⟩
  · generalize (selectKernel w config health s).kernel.map Prod.snd = k at hrel
    cases k with
    | none => exact hrel.2.2
    | some a => exact hrel.2.2
  · rintro message s _ ⟨rfl, hs⟩
    exact ⟨rfl, hsay message s hs⟩
  · rintro message _ s _ ⟨rfl, hs⟩
    exact ⟨rfl, hsay message s hs⟩
  · rintro record s _ ⟨rfl, hs⟩
    exact ⟨rfl, hpersist record s hs⟩
  · rintro slot s _ ⟨rfl, hs⟩
    refine ⟨rfl, ?_⟩
    cases (w.read slot s).1 with
    | none => exact ⟨rfl, hread slot s hs⟩
    | some a => exact ⟨rfl, hread slot s hs⟩

theorem selectKernel_rule (config : BootConfig) {I : BootSlot → HealthRecord → S → Prop}
    (hsay : ∀ slot health s message, I slot health s → I slot health (w.say message s))
    (hread : ∀ slot health s, I slot health s → I slot health (w.read slot s).2)
    (hfall : ∀ slot next health health' s, fallbackSlot config slot = some next → I slot health s →
      Health.selectFallback health next.code FailureStage.kernelFile.code = (true, health') →
      I next health' (w.persist health' s))
    {health prepared : HealthRecord} {slot : BootSlot} {s : S}
    (hp : Health.prepareAttempt health Health.healthMaxAttempts = (slot, prepared))
    (h : I slot prepared (if prepared.generation ≠ health.generation then w.persist prepared s else s)) :
    ∃ last health', I last health' (selectKernel w config health s).world := by
  have hstart : I slot prepared (attemptWorld w health (slot, prepared) s) := by
    unfold attemptWorld
    simp only
    split
    · exact hsay _ _ _ _ h
    · exact h
  obtain ⟨last, hlast⟩ := candidateLoop_rule hsay hread hfall 3 hstart
  refine ⟨last, (candidateLoop w config 3 slot prepared (attemptWorld w health (slot, prepared) s)).health, ?_⟩
  rw [selectKernel_eq, hp]
  simp only
  split
  · exact hlast
  · exact hsay _ _ _ _ hlast

theorem selectKernel_valid {I : S → Prop} (hsay : ∀ message s, I s → I (w.say message s))
    (hpersist : ∀ r s, Health.valid r = true → I s → I (w.persist r s)) (hread : ∀ slot s, I s → I (w.read slot s).2)
    (config : BootConfig) {health : HealthRecord} (hv : Health.valid health = true) {s : S} (h : I s) :
    I (selectKernel w config health s).world := by
  have hprep := (Health.prepareAttempt_spec hv Health.healthMaxAttempts).valid
  match hp : Health.prepareAttempt health Health.healthMaxAttempts with
  | (slot, prepared) =>
    rw [hp] at hprep
    have hrule := selectKernel_rule config (I := fun _ health s => Health.valid health = true ∧ I s)
      (w := w) (s := s) ?_ ?_ ?_ hp ⟨hprep, ?_⟩
    · obtain ⟨-, -, -, hworld⟩ := hrule
      exact hworld
    · rintro slot health s message ⟨hv, hs⟩
      exact ⟨hv, hsay message s hs⟩
    · rintro slot health s ⟨hv, hs⟩
      exact ⟨hv, hread slot s hs⟩
    · rintro slot next health health' s - ⟨hv, hs⟩ hsel
      obtain ⟨r, hr, hfb⟩ := Health.selectFallback_spec hv next .kernelFile
      cases hr.symm.trans hsel
      exact ⟨hfb.valid, hpersist _ _ hfb.valid hs⟩
    · split
      · exact hpersist _ _ hprep h
      · exact h

/-- What every step keeps when each record that is stored is valid and the next generation of the one before,
given generations enough for the attempt and two fallback steps. -/
theorem selectKernel_next {I : HealthRecord → S → Prop}
    (hsay : ∀ health message s, I health s → I health (w.say message s))
    (hread : ∀ health slot s, I health s → I health (w.read slot s).2)
    (hpersist : ∀ health health' s, I health s → Health.valid health' = true →
      health'.generation.toNat = health.generation.toNat + 1 → I health' (w.persist health' s))
    (config : BootConfig) {health : HealthRecord} (hv : Health.valid health = true)
    (hroom : health.generation.toNat + 3 < 2 ^ 64) {s : S} (h : I health s) :
    ∃ health', I health' (selectKernel w config health s).world := by
  have hprep := Health.prepareAttempt_spec hv Health.healthMaxAttempts
  match hp : Health.prepareAttempt health Health.healthMaxAttempts with
  | (slot, prepared) =>
    rw [hp] at hprep
    have hsteps : stepsLeft slot ≤ 2 := by cases slot <;> decide
    have hrule := selectKernel_rule config (w := w) (s := s)
      (I := fun slot health s => I health s ∧ Health.valid health = true ∧
        health.generation.toNat + stepsLeft slot < 2 ^ 64) ?_ ?_ ?_ hp ?_
    · obtain ⟨-, health', hworld, -⟩ := hrule
      exact ⟨health', hworld⟩
    · rintro slot health s message ⟨hI, hrest⟩
      exact ⟨hsay health message s hI, hrest⟩
    · rintro slot health s ⟨hI, hrest⟩
      exact ⟨hread health slot s hI, hrest⟩
    · rintro slot next health health' s hnext ⟨hI, hv, hroom⟩ hsel
      obtain ⟨r, hr, hfb⟩ := Health.selectFallback_spec hv next .kernelFile
      cases hr.symm.trans hsel
      have hlt := stepsLeft_fallbackSlot hnext
      have hgen := Health.toNat_generation_succ hfb.generation (by omega)
      exact ⟨hpersist _ _ s hI hfb.valid hgen, hfb.valid, by omega⟩
    · -- the attempt is stored when it changed the record, which then is one generation newer
      by_cases hpend : health.pendingGood = 0
      · have hsame : prepared = health := hprep.settled hpend
        subst hsame
        rw [if_neg (by simp)]
        exact ⟨h, hv, by omega⟩
      · have hgen : prepared.generation.toNat = health.generation.toNat + 1 :=
          Health.toNat_generation_succ (hprep.trial hpend) (by omega)
        have hne : prepared.generation ≠ health.generation := by
          intro heq
          rw [heq] at hgen
          omega
        rw [if_pos hne]
        exact ⟨hpersist _ _ s h hprep.valid hgen, hprep.valid, by omega⟩

end Loop

/-! ### One candidate -/

theorem readKernelCandidate_cases {D : Type} (drive : BiosDrive D) (fs : Fat32) (path : List UInt8) (s : Bios D) :
    (isSet path = false ∧ readKernelCandidate drive fs path s = (none, s)) ∨
    (isSet path = true ∧ ∃ r m,
      readKernelCandidate drive fs path s = (r, { s with opened := path :: s.opened, mem := m }) ∧
      ∀ size, r = some size → ∃ sum, Elf64.validateImage (m.from kernelImageAddr) size.toUInt64 = .ok sum) := by
  cases hp : isSet path with
  | false => exact Or.inl ⟨rfl, by simp only [readKernelCandidate, hp, Bool.not_false, if_true]⟩
  | true =>
    refine Or.inr ⟨rfl, ?_⟩
    simp only [readKernelCandidate, hp, Bool.not_true, Bool.false_eq_true, if_false]
    split
    · exact ⟨none, s.mem, rfl, nofun⟩
    split
    · exact ⟨none, s.mem, rfl, nofun⟩
    split
    · exact ⟨none, _, rfl, nofun⟩
    split
    · exact ⟨none, _, rfl, nofun⟩
    next sum hv =>
      refine ⟨some _, _, rfl, ?_⟩
      rintro size ⟨⟩
      exact ⟨sum, hv⟩

end JoshBios.Stage2
