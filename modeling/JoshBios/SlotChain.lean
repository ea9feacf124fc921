import JoshBios.SlotLoop
import JoshBios.UefiFiles

/-! # Both loaders choose the same slot

The UEFI loop is the BIOS loop with other lines printed (`uefi_selectKernel_eq`), so what holds of one holds of both.
Given which slots load, the loop takes the first of the `chain` that does, and leaves the record of that many
fallback steps (`selectKernel_chain`). -/

namespace JoshBios

open Health (HealthRecord BootSlot FailureStage)
open Config (BootConfig isSet cString)

/-- The line the UEFI loop prints where the BIOS loop prints `message`. -/
def uefiLine (message : String) : Option String :=
  [("JOSHBOOT_SLOT_CURRENT\n", "JOSHUEFI_SLOT_CURRENT\r\n"),
    ("JOSHBOOT_SLOT_PREVIOUS\n", "JOSHUEFI_SLOT_PREVIOUS\r\n"),
    ("JOSHBOOT_SLOT_RECOVERY\n", "JOSHUEFI_SLOT_RECOVERY\r\n"),
    ("JOSHBOOT_KERNEL_FILE_LOADED\n", "JOSHUEFI_KERNEL_FILE_LOADED\r\n"),
    ("JOSHBOOT_FALLBACK_PREVIOUS\n", "JOSHUEFI_FALLBACK_PREVIOUS\r\n"),
    ("JOSHBOOT_FALLBACK_RECOVERY\n", "JOSHUEFI_FALLBACK_RECOVERY\r\n"),
    ("JOSHBOOT_HEALTH_ROLLBACK_PREVIOUS\n", "JOSHUEFI_HEALTH_ROLLBACK_PREVIOUS\r\n"),
    ("JOSHBOOT_HEALTH_ROLLBACK_RECOVERY\n", "JOSHUEFI_HEALTH_ROLLBACK_RECOVERY\r\n"),
    ("JOSHBOOT_ERROR_KERNEL_CANDIDATES\n", "JOSHUEFI_ERROR_KERNEL_CANDIDATES\r\n")].lookup message

section
variable {S α : Type} (w : SlotWorld S α) (config : BootConfig)

/-- The world of a UEFI loop, to be run by the BIOS loop. -/
def asBios : SlotWorld S α where
  read := w.read
  persist := w.persist
  say message s :=
    match uefiLine message with
    | some line => w.say line s
    | none => s

variable {w} in
theorem asBios_say {I : S → Prop} (hsay : ∀ message s, I s → I (w.say message s)) (message : String) {s : S} (h : I s) :
    I ((asBios w).say message s) := by
  unfold asBios
  simp only
  split
  · exact hsay _ _ h
  · exact h

theorem uefi_candidateLoop_eq (n : Nat) (slot : BootSlot) (health : HealthRecord) (s : S) :
    Uefi.candidateLoop w config n slot health s = Stage2.candidateLoop (asBios w) config n slot health s := by
  induction n generalizing slot health s with
  | zero => rfl
  | succ n ih =>
    have hmark : (asBios w).say (Stage2.slotMarker slot) s = w.say (Uefi.uefiSlotMarker slot) s := by
      cases slot <;> rfl
    have hloaded : ∀ s, (asBios w).say "JOSHBOOT_KERNEL_FILE_LOADED\n" ((asBios w).say "JOSHBOOT_KERNEL_PATH_OK\n" s) =
        w.say "JOSHUEFI_KERNEL_FILE_LOADED\r\n" s := fun _ => rfl
    have hprev : ∀ s, (asBios w).say "JOSHBOOT_FALLBACK_PREVIOUS\n" s = w.say "JOSHUEFI_FALLBACK_PREVIOUS\r\n" s :=
      fun _ => rfl
    have hrec : ∀ s, (asBios w).say "JOSHBOOT_FALLBACK_RECOVERY\n" s = w.say "JOSHUEFI_FALLBACK_RECOVERY\r\n" s :=
      fun _ => rfl
    simp only [Uefi.candidateLoop, Stage2.candidateLoop, hmark, hloaded, hprev, hrec, ih]
    rfl

theorem uefi_selectKernel_eq (health : HealthRecord) (s : S) :
    Uefi.selectKernel w config health s = Stage2.selectKernel (asBios w) config health s := by
  have hroll : ∀ (slot : BootSlot) s,
      (asBios w).say (if slot = .previous then "JOSHBOOT_HEALTH_ROLLBACK_PREVIOUS\n"
        else "JOSHBOOT_HEALTH_ROLLBACK_RECOVERY\n") s =
      w.say (if slot = .previous then "JOSHUEFI_HEALTH_ROLLBACK_PREVIOUS\r\n"
        else "JOSHUEFI_HEALTH_ROLLBACK_RECOVERY\r\n") s := by
    intro slot s
    cases slot <;> rfl
  have herr : ∀ s, (asBios w).say "JOSHBOOT_ERROR_KERNEL_CANDIDATES\n" s =
      w.say "JOSHUEFI_ERROR_KERNEL_CANDIDATES\r\n" s := fun _ => rfl
  simp only [Uefi.selectKernel, Stage2.selectKernel, uefi_candidateLoop_eq, hroll, herr]
  rfl

/-! ### The chosen slot and the record -/

variable {w}

theorem candidateLoop_chain {loads : BootSlot → Bool} (hread : ∀ slot s, (w.read slot s).1.isSome = loads slot)
    {n : Nat} {slot : BootSlot} {health : HealthRecord} {s : S} (hv : Health.valid health = true)
    (hn : stepsLeft slot < n) :
    (Stage2.candidateLoop w config n slot health s).kernel.map Prod.fst = (chain config slot).find? loads ∧
      (Stage2.candidateLoop w config n slot health s).health =
        fallbacks health (tried loads (chain config slot)).tail := by
  induction n generalizing slot health s with
  | zero => omega
  | succ n ih =>
    have hl := hread slot (w.say (Stage2.slotMarker slot) s)
    rw [Stage2.candidateLoop_succ, chain_eq]
    split
    next a s' hs =>
      rw [hs] at hl
      have hload : loads slot = true := hl.symm
      simp [tried, hload, fallbacks]
    next s' hs =>
      rw [hs] at hl
      have hload : loads slot = false := hl.symm
      simp only [List.find?_cons, tried, hload, Bool.false_eq_true, if_false, List.tail_cons]
      cases hnext : fallbackSlot config slot with
      | none => exact ⟨rfl, rfl⟩
      | some next =>
        obtain ⟨r, hr, hfb⟩ := Health.selectFallback_spec hv next .kernelFile
        have hlt := stepsLeft_fallbackSlot hnext
        have hih := ih (s := w.say (Stage2.fallbackMessage next) (w.persist r s')) hfb.valid (show stepsLeft next < n by omega)
        simp only [hr]
        refine ⟨hih.1, hih.2.trans ?_⟩
        -- the next slot is tried in any case, and its step is the first of the list
        have htried : tried loads (chain config next) = next :: (tried loads (chain config next)).tail := by
          rw [chain_eq]
          unfold tried
          split <;> rfl
        rw [htried, List.tail_cons, fallbacks, fallbacks, List.foldl_cons, hr]

/-- What `selectKernel` leaves, given which slots load. -/
theorem selectKernel_chain {loads : BootSlot → Bool} (hread : ∀ slot s, (w.read slot s).1.isSome = loads slot)
    {health : HealthRecord} (hv : Health.valid health = true) (s : S) :
    (Stage2.selectKernel w config health s).kernel.map Prod.fst = (chain config (Health.attemptSlot health)).find? loads ∧
      (Stage2.selectKernel w config health s).health =
        fallbacks (Health.prepareAttempt health Health.healthMaxAttempts).2
          (tried loads (chain config (Health.attemptSlot health))).tail := by
  have hp := Health.prepareAttempt_spec hv Health.healthMaxAttempts
  have hslot := Health.prepareAttempt_slot hv
  unfold Stage2.selectKernel
  generalize Health.prepareAttempt health Health.healthMaxAttempts = p at hp hslot
  obtain ⟨slot, prepared⟩ := p
  simp only at hp hslot ⊢
  subst hslot
  have hn : stepsLeft (Health.attemptSlot health) < 3 := by cases Health.attemptSlot health <;> decide
  have key := fun s => candidateLoop_chain config (s := s) hread hp.valid hn
  split
  · exact key _
  · exact key _

end

/-- The outcome of a choice among the slots: the first of the chain that loads, and a record that says so. -/
structure Chooses (config : BootConfig) (loads : BootSlot → Bool) (health : HealthRecord) (slot : Option BootSlot)
    (health' : HealthRecord) : Prop where
  first : slot = (chain config (Health.prepareAttempt health Health.healthMaxAttempts).1).find? loads
  valid : Health.valid health' = true
  selected : some health'.selectedSlot =
    (tried loads (chain config (Health.prepareAttempt health Health.healthMaxAttempts).1)).getLast?.map BootSlot.code
  lastGood : health'.lastGoodSlot = health.lastGoodSlot
  update : health'.updateGeneration = health.updateGeneration
  settled : 1 < (tried loads (chain config (Health.prepareAttempt health Health.healthMaxAttempts).1)).length →
    health'.pendingGood = 0
  generation : health'.generation = health.generation + (if health.pendingGood ≠ 0 then 1 else 0) +
    UInt64.ofNat ((tried loads (chain config (Health.prepareAttempt health Health.healthMaxAttempts).1)).length - 1)

theorem selectKernel_chooses {S α : Type} {w : SlotWorld S α} {config : BootConfig} {loads : BootSlot → Bool}
    (hread : ∀ slot s, (w.read slot s).1.isSome = loads slot) {health : HealthRecord} (hv : Health.valid health = true)
    (s : S) :
    Chooses config loads health ((Stage2.selectKernel w config health s).kernel.map Prod.fst)
      (Stage2.selectKernel w config health s).health := by
  have hp := Health.prepareAttempt_spec hv Health.healthMaxAttempts
  obtain ⟨hfirst, hhealth⟩ := selectKernel_chain config hread hv s
  have hslot := Health.prepareAttempt_slot hv
  rw [← hslot] at hfirst hhealth
  have hf := fallbacks_spec hp.valid
    (tried loads (chain config (Health.prepareAttempt health Health.healthMaxAttempts).1)).tail
  rw [← hhealth] at hf
  generalize hslots : tried loads (chain config (Health.prepareAttempt health Health.healthMaxAttempts).1) = slots at hf
  -- the first slot is tried in any case
  obtain ⟨rest, rfl⟩ : ∃ rest, slots = (Health.prepareAttempt health Health.healthMaxAttempts).1 :: rest := by
    rw [← hslots, chain_eq]
    unfold tried
    split <;> exact ⟨_, rfl⟩
  rw [List.tail_cons] at hf
  refine ⟨hfirst, hf.valid, ?_, hf.lastGood.trans hp.lastGood, hf.update.trans hp.update, ?_, ?_⟩
  · rw [hslots, hf.selected, ← hp.slot]
    cases rest with
    | nil => rfl
    | cons a l => rw [List.getLast?_cons_cons, List.getLast?_eq_some_getLast (List.cons_ne_nil a l)]; rfl
  · rw [hslots, List.length_cons]
    intro hlen
    refine hf.pending ?_
    rintro rfl
    exact absurd hlen (by decide)
  · rw [hslots, hf.generation, List.length_cons, Nat.add_sub_cancel]
    by_cases hpend : health.pendingGood = 0
    · rw [hp.settled hpend, if_neg (by simpa using hpend), UInt64.add_zero]
    · rw [hp.trial hpend, if_pos hpend]

/-- The two loaders choose alike, whatever the rest of the machine is like, as long as the same slots load. -/
theorem slot_selection_agrees {S U α β : Type} {bios : SlotWorld S α} {uefi : SlotWorld U β} {loads : BootSlot → Bool}
    (hbios : ∀ slot s, (bios.read slot s).1.isSome = loads slot)
    (huefi : ∀ slot u, (uefi.read slot u).1.isSome = loads slot)
    (config : BootConfig) {health : HealthRecord} (hv : Health.valid health = true) (s : S) (u : U) :
    Chooses config loads health ((Stage2.selectKernel bios config health s).kernel.map Prod.fst)
      (Stage2.selectKernel bios config health s).health ∧
    (Uefi.selectKernel uefi config health u).kernel.map Prod.fst =
      (Stage2.selectKernel bios config health s).kernel.map Prod.fst ∧
    (Uefi.selectKernel uefi config health u).health = (Stage2.selectKernel bios config health s).health := by
  refine ⟨selectKernel_chooses hbios hv s, ?_, ?_⟩
  · rw [uefi_selectKernel_eq, (selectKernel_chain config (w := asBios uefi) huefi hv u).1,
      (selectKernel_chain config hbios hv s).1]
  · rw [uefi_selectKernel_eq, (selectKernel_chain config (w := asBios uefi) huefi hv u).2,
      (selectKernel_chain config hbios hv s).2]

/-- A world in which only the previous kernel loads. -/
def previousOnly : SlotWorld Unit Unit where
  read slot s := (if slot = .previous then some () else none, s)
  persist _ s := s
  say _ s := s

theorem previousOnly_read (slot : BootSlot) (s : Unit) :
    (previousOnly.read slot s).1.isSome = decide (slot = .previous) := by
  cases slot <;> rfl

def withPrevious : BootConfig :=
  { Config.zeroConfig with kernelPath := Config.ascii "/kernel", previousKernelPath := Config.ascii "/previous" }

theorem slot_selection_agrees_previous :
    Health.valid Health.healthDefault = true ∧
    Chooses withPrevious (fun slot => decide (slot = .previous)) Health.healthDefault
      ((Stage2.selectKernel previousOnly withPrevious Health.healthDefault ()).kernel.map Prod.fst)
      (Stage2.selectKernel previousOnly withPrevious Health.healthDefault ()).health ∧
    (Uefi.selectKernel previousOnly withPrevious Health.healthDefault ()).health =
      (Stage2.selectKernel previousOnly withPrevious Health.healthDefault ()).health :=
  have h := slot_selection_agrees previousOnly_read previousOnly_read withPrevious Health.valid_healthDefault () ()
  ⟨Health.valid_healthDefault, h.1, h.2.2⟩

end JoshBios
