import JoshBios.FwSpec
import JoshBios.Lib.Runs

/-!
# Runs of the update engine

`step B` is one call of the engine on the update state and the flash (`Sys`). A run is any sequence of
calls; a staging may get any manifest, image, board id and rollback permission, and the backend may
answer as it likes.

`StateInv` is the invariant of the update state: the slots it names exist, and a pending slot is the
one after the active slot. The second half is what keeps every erase and write off the active slot, and
also what makes a new staging go to the slot already pending.
-/

namespace JoshBios.Fw
open Lib

variable {E : Type}

inductive Op where
  | stage (manifest : Option Manifest) (image expectedBoardId : Option Bytes) (allowRollback : Bool)
  | select (max : UInt32)
  | markGood (slot : UInt32)

inductive Answer where
  | staged (status : UpdateStatus) (calls : List FlashCall)
  | selected (slot : UInt32)
  | marked (good : Bool)

/-- The update state and the backend's state. -/
structure Sys (E : Type) where
  state : UpdateState
  env : E

def step (B : FlashBackend E) : Op → Sys E → Answer × Sys E
  | .stage manifest image board allow, x =>
    let r := stageUpdate B manifest image board allow x.state x.env
    (.staged r.status r.calls, ⟨r.state, r.env⟩)
  | .select max, x =>
    let r := selectBootSlot x.state max
    (.selected r.1, ⟨r.2, x.env⟩)
  | .markGood slot, x =>
    let r := markBootGood x.state slot
    (.marked r.1, ⟨r.2, x.env⟩)

/-- The start of every run. -/
def Sys.start (e : E) : Sys E := ⟨updateStateDefault, e⟩

abbrev Call (E : Type) := Event Op (Sys E) Answer

/-- The flash calls made by one call of the engine. -/
def Answer.calls : Answer → List FlashCall
  | .staged _ calls => calls
  | _ => []

/-- The status of a staging. -/
def Answer.status : Answer → Option UpdateStatus
  | .staged status _ => some status
  | _ => none

/-- What is known of a write to the target slot that ended with `status`, left the backend in `e'` and
made `calls`. -/
structure Flashed (B : FlashBackend E) (x : Sys E) (m : Manifest) (img : Bytes) (status : UpdateStatus)
    (e' : E) (calls : List FlashCall) : Prop where
  valid : stateValid x.state B = true
  slot : ∀ c ∈ calls, c.slot = targetSlot B x.state
  ok_iff : status = .ok ↔ ∀ c ∈ calls, c.Served img
  readBack : status = .ok → ∀ i < m.imageSize.toNat, ReadBack calls (targetSlot B x.state) img i
  frame : ∀ contents, B.SlotLocal contents → ∀ other, other ≠ targetSlot B x.state →
    contents e' other = contents x.env other
  written : ∀ contents, B.Faithful contents → status = .ok → ∀ i < m.imageSize.toNat,
    contents e' (targetSlot B x.state) i = img i

/-- Everything a call can do to `x`, with its answer. -/
inductive Does (B : FlashBackend E) (x : Sys E) : Op → Answer → Sys E → Prop
  /-- a staging turned down by a check -/
  | rejected {manifest image board allow status} (h : status.Rejected) :
      Does B x (.stage manifest image board allow) (.staged status []) x
  /-- a staging that failed on the flash: the update state stays, the target slot is spoilt -/
  | failed {m img board allow status e' calls} (h : Flashed B x m img status e' calls) (hs : status ≠ .ok) :
      Does B x (.stage (some m) (some img) board allow) (.staged status calls) ⟨x.state, e'⟩
  | staged {m img board allow e' calls} (h : Flashed B x m img .ok e' calls) :
      Does B x (.stage (some m) (some img) board allow) (.staged .ok calls)
        ⟨stagedState m (targetSlot B x.state) x.state, e'⟩
  /-- a selection with nothing pending -/
  | idle {max} (h : x.state.pendingSlot = slotNone) : Does B x (.select max) (.selected x.state.activeSlot) x
  /-- a selection that ends the trial -/
  | expired {max} (h : x.state.pendingSlot ≠ slotNone) (hm : effectiveMax max ≤ x.state.pendingAttempts) :
      Does B x (.select max) (.selected x.state.activeSlot) ⟨clearPending x.state, x.env⟩
  /-- a trial boot -/
  | tried {max} (h : x.state.pendingSlot ≠ slotNone) (hm : x.state.pendingAttempts < effectiveMax max) :
      Does B x (.select max) (.selected x.state.pendingSlot)
        ⟨{ x.state with pendingAttempts := x.state.pendingAttempts + 1 }, x.env⟩
  | refused {slot} (h : x.state.pendingSlot ≠ slotNone → slot ≠ x.state.pendingSlot) :
      Does B x (.markGood slot) (.marked false) x
  | promoted (h : x.state.pendingSlot ≠ slotNone) :
      Does B x (.markGood x.state.pendingSlot) (.marked true)
        ⟨clearPending { x.state with
            previousGoodSlot := x.state.activeSlot
            activeSlot := x.state.pendingSlot
            activeGeneration := x.state.pendingGeneration }, x.env⟩

theorem step_does (B : FlashBackend E) (op : Op) (x : Sys E) :
    Does B x op (step B op x).1 (step B op x).2 := by
  cases op with
  | stage manifest image board allow =>
    obtain ⟨status, hrej, h⟩ |
        ⟨m, img, brd, erase, write, read, rfl, rfl, rfl, he, hw, hr, hchecks, status, e', calls, hf, h⟩ :=
      stageUpdate_cases B manifest image board allow x.state x.env
    · simp only [step, h]
      exact .rejected hrej
    · have hF : Flashed B x m img status e' calls := by
        obtain ⟨rfl, rfl, rfl⟩ : (flashImage erase write read m img (targetSlot B x.state) x.env).1 = status ∧
            (flashImage erase write read m img (targetSlot B x.state) x.env).2.1 = e' ∧
            (flashImage erase write read m img (targetSlot B x.state) x.env).2.2 = calls := by simp [hf]
        exact ⟨stageChecks_ok hchecks, flashImage_slot, flashImage_ok_iff, flashImage_readBack,
          fun _ hB _ ho => flashImage_frame hr hB he hw ho, fun _ hB => flashImage_contents hr hB⟩
      simp only [step, h]
      split
      · next hok => subst hok; exact .staged hF
      · next hok => exact .failed hF hok
  | select max =>
    simp only [step, selectBootSlot]
    split
    · next hp => exact .idle hp
    · next hp =>
      split
      · next hm => exact .expired hp hm
      · next hm => exact .tried hp (by simpa using hm)
  | markGood slot =>
    simp only [step, markBootGood]
    split
    · next hp => exact .refused fun h => hp.resolve_left h
    · next hp =>
      obtain ⟨h, rfl⟩ : x.state.pendingSlot ≠ slotNone ∧ slot = x.state.pendingSlot := by tauto
      exact .promoted h

/-! ### The update state -/

/-- The slots the state names exist, and a pending slot is the one after the active slot. -/
structure StateInv (B : FlashBackend E) (s : UpdateState) : Prop where
  active_lt : s.activeSlot < B.slotCount
  previous_lt : s.previousGoodSlot < B.slotCount
  pending : s.pendingSlot = slotNone ∨ s.pendingSlot = targetSlot B s

namespace StateInv
variable {B : FlashBackend E} {s : UpdateState}

theorem default (hn : 2 ≤ B.slotCount) : StateInv B updateStateDefault := by
  have h0 : (0 : UInt32) < B.slotCount := by
    have := UInt32.le_iff_toNat_le.1 hn
    rw [UInt32.lt_iff_toNat_lt]
    simp at this ⊢; omega
  exact ⟨h0, h0, .inl rfl⟩

theorem clear (h : StateInv B s) : StateInv B (clearPending s) :=
  ⟨h.active_lt, h.previous_lt, .inl rfl⟩

theorem staged (h : StateInv B s) (m : Manifest) : StateInv B (stagedState m (targetSlot B s) s) :=
  ⟨h.active_lt, h.active_lt, .inr rfl⟩

theorem pending_lt (h : StateInv B s) (hn : 2 ≤ B.slotCount) (hp : s.pendingSlot ≠ slotNone) :
    s.pendingSlot < B.slotCount := by
  rw [h.pending.resolve_left hp]
  exact targetSlot_lt hn h.active_lt

theorem pending_ne_active (h : StateInv B s) (hn : 2 ≤ B.slotCount) (hp : s.pendingSlot ≠ slotNone) :
    s.pendingSlot ≠ s.activeSlot := by
  rw [h.pending.resolve_left hp]
  exact targetSlot_ne_active hn h.active_lt

end StateInv

theorem Does.stateInv {B : FlashBackend E} {x y : Sys E} {op : Op} {a : Answer} (hn : 2 ≤ B.slotCount)
    (h : Does B x op a y) (hi : StateInv B x.state) : StateInv B y.state := by
  cases h with
  | rejected => exact hi
  | failed => exact hi
  | staged => exact hi.staged _
  | idle => exact hi
  | expired => exact hi.clear
  | tried => exact ⟨hi.active_lt, hi.previous_lt, hi.pending⟩
  | refused => exact hi
  | promoted hp => exact ⟨hi.pending_lt hn hp, hi.active_lt, .inl rfl⟩

section Run
variable {B : FlashBackend E} {contents : E → UInt32 → Bytes} {e₀ : E} {hist : List (Call E)} {x y : Sys E}
  {op : Op} {a : Answer}

theorem stateInv_of_reaches (hn : 2 ≤ B.slotCount) (h : Reaches (step B) (.start e₀) hist x) :
    StateInv B x.state :=
  h.invariant (fun _ => True) (fun _ x => StateInv B x.state) (StateInv.default hn)
    (fun _ x op _ hi _ => (step_does B op x).stateInv hn hi) fun _ _ => trivial

/-! ### The active slot -/

theorem Flashed.slot_ne_active {m : Manifest} {img : Bytes} {status : UpdateStatus} {e' : E}
    {calls : List FlashCall} (h : Flashed B x m img status e' calls) :
    targetSlot B x.state ≠ x.state.activeSlot ∧ targetSlot B x.state < B.slotCount := by
  obtain ⟨hn, ha, -⟩ := stateValid_iff.1 h.valid
  exact ⟨targetSlot_ne_active hn ha, targetSlot_lt hn ha⟩

theorem Does.calls_slot (h : Does B x op a y) :
    ∀ c ∈ a.calls, c.slot ≠ x.state.activeSlot ∧ c.slot < B.slotCount := by
  cases h with
  | failed h | staged h => intro c hc; rw [h.slot c hc]; exact h.slot_ne_active
  | rejected | idle | expired | tried | refused | promoted => simp [Answer.calls]

theorem Does.active_contents (hB : B.SlotLocal contents) (h : Does B x op a y) :
    contents y.env x.state.activeSlot = contents x.env x.state.activeSlot := by
  cases h with
  | failed h | staged h => exact h.frame contents hB _ h.slot_ne_active.1.symm
  | rejected | idle | expired | tried | refused | promoted => rfl

/-- Only a promotion changes the active slot, and it leaves the flash alone. -/
theorem Does.active_changed (h : Does B x op a y) (hne : y.state.activeSlot ≠ x.state.activeSlot) :
    op = .markGood x.state.pendingSlot ∧ a = .marked true ∧ y.env = x.env := by
  cases h with
  | promoted => exact ⟨rfl, rfl, rfl⟩
  | rejected | failed | staged | idle | expired | tried | refused => exact absurd rfl hne

theorem active_contents_of_reaches (hB : B.SlotLocal contents) {later : List (Call E)}
    (h : Reaches (step B) x later y)
    (hkeep : ∀ ev ∈ later, ev.post.state.activeSlot = ev.pre.state.activeSlot) :
    y.state.activeSlot = x.state.activeSlot ∧
      contents y.env x.state.activeSlot = contents x.env x.state.activeSlot := by
  refine h.invariant (fun ev => ev.post.state.activeSlot = ev.pre.state.activeSlot)
    (fun _ y => y.state.activeSlot = x.state.activeSlot ∧
      contents y.env x.state.activeSlot = contents x.env x.state.activeSlot) ⟨rfl, rfl⟩ ?_ hkeep
  intro _ y op _ ⟨hact, hcont⟩ hsame
  have hy := (step_does B op y).active_contents hB
  rw [hact] at hy
  exact ⟨hsame.trans hact, hy.trans hcont⟩

/-- The active slot is never damaged: in every run each flash call goes to another slot that exists,
no call changes the bytes of the slot that is active, and only a promotion changes which slot that is.
As long as it stays the same its bytes do too, and it is what a selection falls back to when the trial
boots are used up. -/
theorem active_slot_undamaged (hB : B.SlotLocal contents) (hn : 2 ≤ B.slotCount)
    (h : Reaches (step B) (.start e₀) hist x) :
    (∀ ev ∈ hist,
      (∀ c ∈ ev.res.calls, c.slot ≠ ev.pre.state.activeSlot ∧ c.slot < B.slotCount) ∧
      contents ev.post.env ev.pre.state.activeSlot = contents ev.pre.env ev.pre.state.activeSlot ∧
      (ev.post.state.activeSlot ≠ ev.pre.state.activeSlot →
        ev.op = .markGood ev.pre.state.pendingSlot ∧ ev.res = .marked true ∧ ev.post.env = ev.pre.env)) ∧
    x.state.activeSlot < B.slotCount ∧
    ∀ later y, Reaches (step B) x later y →
      (∀ ev ∈ later, ev.post.state.activeSlot = ev.pre.state.activeSlot) →
      contents y.env y.state.activeSlot = contents x.env x.state.activeSlot ∧
      ∀ max, y.state.pendingSlot ≠ slotNone → effectiveMax max ≤ y.state.pendingAttempts →
        (selectBootSlot y.state max).1 = x.state.activeSlot := by
  refine ⟨fun ev hev => ?_, (stateInv_of_reaches hn h).active_lt, fun later y hy hkeep => ?_⟩
  · obtain ⟨newer, older, rfl⟩ := List.append_of_mem hev
    obtain ⟨-, hev⟩ := h.of_append
    have hd := step_does B ev.op ev.pre
    rw [hev]
    exact ⟨hd.calls_slot, hd.active_contents hB, hd.active_changed⟩
  · obtain ⟨hact, hcont⟩ := active_contents_of_reaches hB hy hkeep
    refine ⟨by rw [hact]; exact hcont, fun max hp hm => ?_⟩
    simp only [selectBootSlot, hp, ite_false, ge_iff_le, hm, ite_true]
    exact hact

end Run

/-! ### The flash of the engine's tests -/

/-- The RAM flash of `tests/test_firmware_update.c`; its writes fail once `goodWrites` of them are
done. -/
structure MockFlash where
  slots : UInt32 → Bytes
  goodWrites : Nat

def mockSlotSize : UInt32 := 4096

def mockBackend : FlashBackend MockFlash where
  slotCount := 2
  slotSize := mockSlotSize
  eraseSlot := some fun slot f =>
    if slot ≥ 2 then (-1, f) else (0, { f with slots := fun s => if s = slot then fun _ => 0xff else f.slots s })
  writeSlot := some fun slot offset data length f =>
    if slot ≥ 2 ∨ offset > mockSlotSize ∨ length > mockSlotSize - offset then (-1, f) else
    match f.goodWrites with
    | 0 => (-1, f)
    | n + 1 => (0, ⟨fun s => if s = slot then
        fun i => if offset.toNat ≤ i ∧ i < offset.toNat + length.toNat then data (i - offset.toNat) else f.slots s i
        else f.slots s, n⟩)
  readSlot := some fun slot offset length f =>
    if slot ≥ 2 ∨ offset > mockSlotSize ∨ length > mockSlotSize - offset then (-1, fun _ => 0, f)
    else (0, fun i => f.slots slot (offset.toNat + i), f)

theorem mockBackend_faithful : mockBackend.Faithful MockFlash.slots where
  erase_frame erase h slot e other ho := by
    cases h
    simp only
    split
    · rfl
    · simp [ho]
  write_frame write h slot offset data length e other ho := by
    cases h
    simp only
    split
    · rfl
    · split
      · rfl
      · simp [ho]
  read_frame read h slot offset length e other _ := by
    cases h
    simp only
    split <;> rfl
  read_kept read h slot offset length e := by
    cases h
    simp only
    split <;> rfl
  read_data read h slot offset length e hrc := by
    cases h
    simp only at hrc ⊢
    split at hrc
    · simp at hrc
    · next hin => simp [hin]

/-- A one-byte image and its manifest. -/
def mockImage : Bytes := bytesOf [0x4a]

def mockBoard : Bytes := bytesOf [0x71, 0]

def mockManifest (generation : UInt64) : Manifest where
  magic := updateMagic
  version := updateVersion
  headerSize := manifestSize
  boardId := (Vector.replicate 32 0).set 0 0x71
  generation := generation
  imageSize := 1
  imageCrc32 := 1141589763

def mockStage (generation : UInt64) : Op := .stage (some (mockManifest generation)) (some mockImage) (some mockBoard) false

/-- A blank flash that serves `n` writes. -/
def mockFlash (n : Nat) : MockFlash := ⟨fun _ _ => 0xa5, n⟩

/-- One trial boot, then the limit of one is used up: slot 0 is as it was, and selected again. -/
theorem active_slot_undamaged_mock :
    let x : Sys MockFlash := .start (mockFlash 1)
    let y := runOps (step mockBackend) [mockStage 1, .select 1] x
    y.state.pendingSlot ≠ slotNone ∧ y.env.slots 1 0 = 0x4a ∧
      y.env.slots y.state.activeSlot = x.env.slots x.state.activeSlot ∧
      (selectBootSlot y.state 1).1 = x.state.activeSlot := by
  intro x y
  obtain ⟨-, -, h⟩ := active_slot_undamaged mockBackend_faithful.toSlotLocal (by decide)
    (.start : Reaches (step mockBackend) (.start (mockFlash 1)) [] _)
  have hkeep : ∀ ev ∈ histOps (step mockBackend) [mockStage 1, .select 1] x [],
      ev.post.state.activeSlot = ev.pre.state.activeSlot := by
    simp only [histOps, List.forall_mem_cons, List.not_mem_nil, false_imp_iff, implies_true, and_true]
    decide
  obtain ⟨hc, hs⟩ := h _ y (reaches_runOps _ _ _) hkeep
  have hp : y.state.pendingSlot ≠ slotNone := by decide
  exact ⟨hp, by decide, hc, hs 1 hp (by decide)⟩

end JoshBios.Fw
