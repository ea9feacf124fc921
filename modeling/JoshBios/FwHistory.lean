import JoshBios.FwRun

/-! # Generations and the previous good slot

Two promises about whole runs of the update engine.

Without permission to roll back, a staging needs a newer generation than the active one. The promotion comes later, but
nothing in between changes the pending generation or the active one (`GenerationInv`), so `active_generation` only grows.

`previous_good_slot` is a slot whose bytes are those it had when it was last active. With two slots the next staging
goes to that very slot; if it succeeds the field names the active slot instead, but if the flash fails the field still
names the slot that was erased. `KeepsPrevious` says, call by call, when this does not happen. -/

namespace JoshBios.Fw
open Lib

variable {E : Type} {B : FlashBackend E} {contents : E → UInt32 → Bytes} {e₀ : E} {hist : List (Call E)}
  {x : Sys E}

/-! ### Generations -/

theorem stageChecks_newer {m : Manifest} {img board : Bytes} {s : UpdateState}
    (h : stageChecks B (some m) img board s false = .ok) : s.activeGeneration < m.generation := by
  simp only [stageChecks] at h
  split at h
  · cases h
  split at h
  · cases h
  split at h
  · cases h
  next hgen =>
    simp only [Bool.not_false, Bool.true_and, decide_eq_true_iff, UInt64.not_le] at hgen
    exact hgen

theorem step_stage_newer {manifest : Option Manifest} {image board : Option Bytes}
    (h : (step B (.stage manifest image board false) x).1.status = some .ok) :
    ∃ m, manifest = some m ∧ x.state.activeGeneration < m.generation := by
  have hst : (stageUpdate B manifest image board false x.state x.env).status = .ok := Option.some.inj h
  cases manifest with
  | none =>
    simp only [stageUpdate, stageChecks] at hst
    split at hst
    · cases hst
    · cases hst
  | some m =>
    refine ⟨m, rfl, ?_⟩
    unfold stageUpdate at hst
    split at hst
    · split at hst
      next hok hm =>
        cases hm
        exact stageChecks_newer hok
      next hne => exact absurd rfl (hne m hst)
    · cases hst

/-- The call is not allowed to roll back. -/
def NoRollback (ev : Call E) : Prop :=
  ∀ manifest image board allow, ev.op = .stage manifest image board allow → allow = false

/-- What is pending is newer than what is active. -/
def GenerationInv (s : UpdateState) : Prop := s.pendingSlot ≠ slotNone → s.activeGeneration < s.pendingGeneration

/-- What one call does to the generations. -/
structure Advances (x : Sys E) (a : Answer) (y : Sys E) : Prop where
  inv : GenerationInv y.state
  le : x.state.activeGeneration ≤ y.state.activeGeneration
  lt : a = .marked true → x.state.activeGeneration < y.state.activeGeneration

theorem Does.advances {y : Sys E} {op : Op} {a : Answer} (hd : Does B x op a y)
    (hnew : ∀ m image board allow, op = .stage (some m) image board allow → a.status = some .ok →
      x.state.activeGeneration < m.generation)
    (hi : GenerationInv x.state) : Advances x a y := by
  have hle := UInt64.le_refl x.state.activeGeneration
  cases hd with
  | rejected => exact ⟨hi, hle, nofun⟩
  | failed => exact ⟨hi, hle, nofun⟩
  | staged => exact ⟨fun _ => hnew _ _ _ _ rfl rfl, hle, nofun⟩
  | idle => exact ⟨hi, hle, nofun⟩
  | expired => exact ⟨fun hp => absurd rfl hp, hle, nofun⟩
  | tried h => exact ⟨fun _ => hi h, hle, nofun⟩
  | refused => exact ⟨hi, hle, nofun⟩
  | promoted h =>
    have hlt := hi h
    exact ⟨fun hp => absurd rfl hp, UInt64.le_of_lt hlt, fun _ => hlt⟩

theorem step_advances (op : Op) (x : Sys E) (hok : NoRollback (Event.of (step B) op x)) (hi : GenerationInv x.state) :
    Advances x (step B op x).1 (step B op x).2 := by
  refine (step_does B op x).advances (fun m image board allow hop hst => ?_) hi
  subst hop
  obtain rfl : allow = false := hok _ _ _ _ rfl
  obtain ⟨m', hm, hlt⟩ := step_stage_newer hst
  rw [Option.some.inj hm]
  exact hlt

/-- In a run whose stagings are not allowed to roll back, a pending image is newer than the active one, no call lowers
the active generation, and every promotion raises it. -/
theorem active_generation_grows (h : Reaches (step B) (.start e₀) hist x) (hno : ∀ ev ∈ hist, NoRollback ev) :
    (x.state.pendingSlot ≠ slotNone → x.state.activeGeneration < x.state.pendingGeneration) ∧
    ∀ ev ∈ hist, ev.pre.state.activeGeneration ≤ ev.post.state.activeGeneration ∧
      (ev.res = .marked true → ev.pre.state.activeGeneration < ev.post.state.activeGeneration) := by
  refine h.invariant NoRollback (fun hist x => GenerationInv x.state ∧
    ∀ ev ∈ hist, ev.pre.state.activeGeneration ≤ ev.post.state.activeGeneration ∧
      (ev.res = .marked true → ev.pre.state.activeGeneration < ev.post.state.activeGeneration)) ?_ ?_ hno
  · exact ⟨fun hp => absurd rfl hp, fun _ hev => absurd hev List.not_mem_nil⟩
  · rintro hist x op - ⟨hi, hold⟩ hok
    have hadv := step_advances op x hok hi
    refine ⟨hadv.inv, fun ev hev => ?_⟩
    rcases List.mem_cons.1 hev with rfl | hev
    · exact ⟨hadv.le, hadv.lt⟩
    · exact hold ev hev

/-- A run of all kinds of calls: staged, staged again, expired, staged, promoted. -/
theorem active_generation_grows_mock :
    let ops := [mockStage 1, mockStage 2, .select 1, .select 1, mockStage 3, .markGood 1, mockStage 4]
    let x := runOps (step mockBackend) ops (.start (mockFlash 4))
    x.state.activeGeneration = 3 ∧ x.state.pendingSlot ≠ slotNone ∧
      x.state.activeGeneration < x.state.pendingGeneration := by
  intro ops x
  have hno : ∀ ev ∈ histOps (step mockBackend) ops (.start (mockFlash 4)) [], NoRollback ev := by
    simp only [ops, histOps, List.forall_mem_cons, List.not_mem_nil, false_imp_iff, implies_true, and_true]
    refine ⟨?_, ?_, ?_, ?_, ?_, ?_, ?_⟩ <;> rintro _ _ _ _ ⟨⟩
    all_goals rfl
  have hr : Reaches (step mockBackend) (.start (mockFlash 4)) (histOps (step mockBackend) ops _ []) x :=
    reaches_runOps _ _ _
  obtain ⟨hgrows, -⟩ := active_generation_grows hr hno
  have hp : x.state.pendingSlot ≠ slotNone := by decide
  have hgen : x.state.activeGeneration = 3 := by decide
  exact ⟨hgen, hp, hgrows hp⟩

/-! ### The previous good slot -/

/-- The states of a run, newest first. -/
def visited (x : Sys E) (hist : List (Call E)) : List (Sys E) := x :: hist.map Event.pre

/-- The state in which `slot` was last the active slot. -/
def lastActive (slot : UInt32) (x : Sys E) (hist : List (Call E)) : Option (Sys E) :=
  (visited x hist).find? fun y => y.state.activeSlot == slot

/-- The bytes of `slot` are those it had when it was last active. -/
def AsWhenActive (contents : E → UInt32 → Bytes) (slot : UInt32) (x : Sys E) (hist : List (Call E)) : Prop :=
  ∃ y, lastActive slot x hist = some y ∧ contents x.env slot = contents y.env slot

/-- A staging whose target is the previous good slot gets every flash call served. A staging that a check turns down
makes none. -/
def KeepsPrevious (B : FlashBackend E) (ev : Call E) : Prop :=
  ∀ m img board allow, ev.op = .stage m (some img) board allow →
    targetSlot B ev.pre.state ≠ ev.pre.state.previousGoodSlot ∨ ∀ c ∈ ev.res.calls, c.Served img

theorem AsWhenActive.active (x : Sys E) (hist : List (Call E)) : AsWhenActive contents x.state.activeSlot x hist :=
  ⟨x, by simp [lastActive, visited], rfl⟩

theorem AsWhenActive.older {y : Sys E} {slot : UInt32} {op : Op} {a : Answer} (h : AsWhenActive contents slot x hist)
    (hc : contents y.env slot = contents x.env slot) :
    AsWhenActive contents slot y (⟨op, x, a, y⟩ :: hist) := by
  by_cases hslot : y.state.activeSlot = slot
  · rw [← hslot]
    exact .active _ _
  · obtain ⟨z, hz, heq⟩ := h
    refine ⟨z, ?_, hc.trans heq⟩
    have hskip : (y.state.activeSlot == slot) = false := beq_eq_false_iff_ne.2 hslot
    rw [lastActive, visited, List.find?_cons, hskip]
    exact hz

theorem Does.previous_kept {y : Sys E} {op : Op} {a : Answer} (hB : B.SlotLocal contents) (hn : 2 ≤ B.slotCount)
    (hinv : StateInv B x.state) (hd : Does B x op a y) (hok : KeepsPrevious B ⟨op, x, a, y⟩)
    (hi : AsWhenActive contents x.state.previousGoodSlot x hist) :
    AsWhenActive contents y.state.previousGoodSlot y (⟨op, x, a, y⟩ :: hist) := by
  cases hd with
  | rejected => exact hi.older rfl
  | failed h hs =>
    rcases hok _ _ _ _ rfl with hne | hserved
    · exact hi.older (h.frame contents hB _ hne.symm)
    · exact absurd (h.ok_iff.2 hserved) hs
  | staged => exact .active _ _
  | idle => exact hi.older rfl
  | expired => exact hi.older rfl
  | tried => exact hi.older rfl
  | refused => exact hi.older rfl
  | promoted hp =>
    -- the slot that was active up to this call
    refine ⟨x, ?_, rfl⟩
    have hskip : (x.state.pendingSlot == x.state.activeSlot) = false :=
      beq_eq_false_iff_ne.2 (hinv.pending_ne_active hn hp)
    simp [lastActive, visited, clearPending, hskip]

/-- In a run whose stagings to the previous good slot get their flash calls served, that slot holds what it held when
it was last active. -/
theorem previous_good_kept (hB : B.SlotLocal contents) (hn : 2 ≤ B.slotCount)
    (h : Reaches (step B) (.start e₀) hist x) (hkeep : ∀ ev ∈ hist, KeepsPrevious B ev) :
    AsWhenActive contents x.state.previousGoodSlot x hist :=
  h.invariant (KeepsPrevious B) (fun hist x => AsWhenActive contents x.state.previousGoodSlot x hist)
    (.active (.start e₀) [])
    (fun _ x op hx hi hok => (step_does B op x).previous_kept hB hn (stateInv_of_reaches hn hx) hok hi) hkeep

/-- The two slots of the mock flash: after a promotion slot 0 is the previous good one. -/
theorem previous_good_kept_mock :
    let ops := [mockStage 1, .select 3, .markGood 1]
    let hist := histOps (step mockBackend) ops (.start (mockFlash 1)) []
    let x := runOps (step mockBackend) ops (.start (mockFlash 1))
    x.state.previousGoodSlot = 0 ∧ x.state.activeSlot = 1 ∧ AsWhenActive MockFlash.slots 0 x hist := by
  intro ops hist x
  have hkeep : ∀ ev ∈ hist, KeepsPrevious mockBackend ev := by
    simp only [hist, ops, histOps, List.forall_mem_cons, List.not_mem_nil, false_imp_iff, implies_true, and_true]
    refine ⟨?_, ?_, ?_⟩
    · rintro _ _ _ _ ⟨⟩
    · rintro _ _ _ _ ⟨⟩
    · exact fun _ _ _ _ _ => .inl (by decide)
  have hprev : x.state.previousGoodSlot = 0 := by decide
  have hactive : x.state.activeSlot = 1 := by decide
  have hr : Reaches (step mockBackend) (.start (mockFlash 1)) hist x := reaches_runOps _ _ _
  have hkept := previous_good_kept mockBackend_faithful.toSlotLocal (by decide) hr hkeep
  rw [hprev] at hkept
  exact ⟨hprev, hactive, hkept⟩

/-- A staging after the promotion, whose write fails: slot 0 is still the previous good slot, but it is erased. -/
theorem previous_good_erased :
    mockBackend.Faithful MockFlash.slots ∧ 2 ≤ mockBackend.slotCount ∧
    let ops := [mockStage 1, .select 3, .markGood 1, mockStage 2]
    let hist := histOps (step mockBackend) ops (.start (mockFlash 1)) []
    let x := runOps (step mockBackend) ops (.start (mockFlash 1))
    Reaches (step mockBackend) (.start (mockFlash 1)) hist x ∧ x.state.previousGoodSlot = 0 ∧
      x.env.slots 0 0 = 0xff ∧ ¬ AsWhenActive MockFlash.slots x.state.previousGoodSlot x hist := by
  refine ⟨mockBackend_faithful, by decide, ?_⟩
  intro ops hist x
  have hprev : x.state.previousGoodSlot = 0 := by decide
  have herased : x.env.slots 0 0 = 0xff := by decide
  refine ⟨reaches_runOps _ _ _, hprev, herased, ?_⟩
  rw [hprev]
  rintro ⟨y, hy, hc⟩
  have hwas : ((lastActive 0 x hist).map fun y => y.env.slots 0 0) = some 0xa5 := by decide
  rw [hy, Option.map_some, ← congrFun hc 0, herased] at hwas
  exact absurd hwas (by decide)

end JoshBios.Fw
