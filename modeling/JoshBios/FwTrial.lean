import JoshBios.FwRun

/-!
# The pending slot

What the engine promises about the slot it puts on trial: it holds an image that the last successful
staging wrote, read back and compared (`Verified`), and only an image that was booted is promoted
(`Booted`).

Neither holds in every run. A staging erases the slot after the active one, which is the slot already
pending if there is one, and when it then fails it leaves `pending_slot` as it was: the erased slot
stays on trial, is selected and can be promoted. `josh_fw_mark_boot_good` does not look at
`pending_attempts` either, so a slot that was never selected is promoted as well. `KeepsPending` and
`KeepsTrial` say, call by call, when this does not happen; then both promises hold.
-/

namespace JoshBios.Fw
open Lib

variable {E : Type} {B : FlashBackend E} {contents : E → UInt32 → Bytes} {e₀ : E} {hist : List (Call E)}
  {x : Sys E}

/-- The call is a staging that succeeded, of this manifest and image. -/
def StageOk (m : Manifest) (img : Bytes) (ev : Call E) : Prop :=
  ∃ board allow, ev.op = .stage (some m) (some img) board allow ∧ ev.res.status = some .ok

/-- The image of the last successful staging of `hist` is `img`, with manifest `m`, and that staging
read every byte of it back from `slot`. -/
inductive LastStaged (m : Manifest) (img : Bytes) (slot : UInt32) : List (Call E) → Prop
  | here {ev : Call E} {older : List (Call E)} (h : StageOk m img ev)
      (hread : ∀ i < m.imageSize.toNat, ReadBack ev.res.calls slot img i) : LastStaged m img slot (ev :: older)
  | older {ev : Call E} {older : List (Call E)} (h : ∀ m' img', ¬ StageOk m' img' ev)
      (ho : LastStaged m img slot older) : LastStaged m img slot (ev :: older)

/-- `slot` holds the image of the last successful staging, whose generation is the pending one. -/
def Verified (contents : E → UInt32 → Bytes) (hist : List (Call E)) (x : Sys E) (slot : UInt32) : Prop :=
  ∃ m img, LastStaged m img slot hist ∧ m.generation = x.state.pendingGeneration ∧
    ∀ i < m.imageSize.toNat, contents x.env slot i = img i

/-- A staging made while a slot is pending gets every flash call served. A staging that a check turns
down makes none. -/
def KeepsPending (ev : Call E) : Prop :=
  ∀ m img board allow, ev.op = .stage m (some img) board allow →
    ev.pre.state.pendingSlot = slotNone ∨ ∀ c ∈ ev.res.calls, c.Served img

theorem Verified.older {y : Sys E} {slot : UInt32} {op : Op} {a : Answer} (h : Verified contents hist x slot)
    (ha : a.status ≠ some .ok) (he : y.env = x.env)
    (hg : y.state.pendingGeneration = x.state.pendingGeneration) :
    Verified contents (⟨op, x, a, y⟩ :: hist) y slot := by
  obtain ⟨m, img, hlast, hgen, hc⟩ := h
  refine ⟨m, img, .older ?_ hlast, hgen.trans hg.symm, by rw [he]; exact hc⟩
  rintro m' img' ⟨_, _, -, hr⟩
  exact ha hr

/-- One call: what is pending after it is verified, if what was pending before it was. -/
theorem Does.verified {y : Sys E} {op : Op} {a : Answer} (hB : B.Faithful contents) (hd : Does B x op a y)
    (hok : KeepsPending ⟨op, x, a, y⟩)
    (hi : x.state.pendingSlot ≠ slotNone → Verified contents hist x x.state.pendingSlot)
    (hp : y.state.pendingSlot ≠ slotNone) :
    Verified contents (⟨op, x, a, y⟩ :: hist) y y.state.pendingSlot := by
  cases hd with
  | @rejected _ _ _ _ status hs =>
    refine (hi hp).older ?_ rfl rfl
    rintro ⟨⟩
    simp [UpdateStatus.Rejected] at hs
  | failed h hs =>
    -- the slot is pending, so the erase and the write would have had to succeed
    rcases hok _ _ _ _ rfl with hnone | hserved
    · exact absurd hnone hp
    · exact absurd (h.ok_iff.2 hserved) hs
  | @staged m img board allow e' calls h =>
    exact ⟨m, img, .here ⟨board, allow, rfl, rfl⟩ (h.readBack rfl), rfl, h.written contents hB rfl⟩
  | idle h => exact absurd h hp
  | expired => exact absurd rfl hp
  | tried h => exact (hi h).older (by simp [Answer.status]) rfl rfl
  | refused => exact (hi hp).older (by simp [Answer.status]) rfl rfl
  | promoted => exact absurd rfl hp

/-- In a run whose stagings over a pending slot all get their flash calls served, the pending slot holds
the image the last successful staging read back, of the pending generation, and no selection returns
another slot than the active one unless it holds that image. -/
theorem pending_slot_verified (hB : B.Faithful contents) (h : Reaches (step B) (.start e₀) hist x)
    (hkeep : ∀ ev ∈ hist, KeepsPending ev) :
    (x.state.pendingSlot ≠ slotNone → Verified contents hist x x.state.pendingSlot) ∧
    ∀ max, (selectBootSlot x.state max).1 ≠ x.state.activeSlot →
      Verified contents hist x (selectBootSlot x.state max).1 := by
  have hv : x.state.pendingSlot ≠ slotNone → Verified contents hist x x.state.pendingSlot :=
    h.invariant KeepsPending
      (fun hist x => x.state.pendingSlot ≠ slotNone → Verified contents hist x x.state.pendingSlot)
      (fun h => absurd rfl h) (fun _ x op _ hi hok => (step_does B op x).verified hB hok hi) hkeep
  refine ⟨hv, fun max hne => ?_⟩
  unfold selectBootSlot at hne ⊢
  split at hne
  · exact absurd rfl hne
  · next hp =>
    simp only [hp, ite_false]
    split at hne
    · exact absurd rfl hne
    · next hm => simp only [hm, ite_false]; exact hv hp

/-- After one staging the mock flash holds the image on trial. -/
theorem pending_slot_verified_mock :
    let x := runOps (step mockBackend) [mockStage 1] (.start (mockFlash 1))
    x.state.pendingSlot = 1 ∧ (selectBootSlot x.state 3).1 = 1 ∧
      Verified MockFlash.slots (histOps (step mockBackend) [mockStage 1] (.start (mockFlash 1)) []) x 1 := by
  intro x
  have hkeep : ∀ ev ∈ histOps (step mockBackend) [mockStage 1] (.start (mockFlash 1)) [], KeepsPending ev := by
    simp only [histOps, List.forall_mem_cons, List.not_mem_nil, false_imp_iff, implies_true, and_true]
    exact fun _ _ _ _ _ => .inl rfl
  have h := (pending_slot_verified mockBackend_faithful (reaches_runOps (step mockBackend) [mockStage 1]
    (.start (mockFlash 1))) hkeep).2 3
  exact ⟨by decide, by decide, h (by decide)⟩

/-- A second staging, of generation 2, whose write fails after the erase: slot 1 is still pending, with
generation 1, and is selected, but it is erased. -/
theorem restage_spoils_pending :
    mockBackend.Faithful MockFlash.slots ∧ 2 ≤ mockBackend.slotCount ∧
    let ops := [mockStage 1, mockStage 2]
    let hist := histOps (step mockBackend) ops (.start (mockFlash 1)) []
    let x := runOps (step mockBackend) ops (.start (mockFlash 1))
    Reaches (step mockBackend) (.start (mockFlash 1)) hist x ∧ x.state.pendingSlot = 1 ∧
      (selectBootSlot x.state 3).1 = 1 ∧ x.state.activeSlot = 0 ∧ x.env.slots 1 0 = 0xff ∧
      ¬ Verified MockFlash.slots hist x x.state.pendingSlot := by
  refine ⟨mockBackend_faithful, by decide, ?_⟩
  intro ops hist x
  refine ⟨reaches_runOps _ _ _, by decide, by decide, by decide, by decide, ?_⟩
  rintro ⟨m, img, hlast, -, hc⟩
  -- the last successful staging is the first one, of the one-byte image 0x4a
  change LastStaged m img _ [Event.of (step mockBackend) (mockStage 2) _, Event.of (step mockBackend) (mockStage 1) _]
    at hlast
  obtain ⟨rfl, rfl⟩ : m = mockManifest 1 ∧ img = mockImage := by
    cases hlast with
    | here h _ =>
      obtain ⟨_, _, -, hr⟩ := h
      exact absurd hr (by decide)
    | older _ hlast =>
      cases hlast with
      | here h _ =>
        obtain ⟨_, _, ho, -⟩ := h
        injection ho with hm hi
        exact ⟨(Option.some.inj hm).symm, (Option.some.inj hi).symm⟩
      | older _ hlast => cases hlast
  exact absurd (hc 0 (by decide)) (by decide)

/-! ### Promotion -/

/-- Since the last successful staging of `hist` a selection has returned `slot`, and the bytes of `slot`
are still what they were then. -/
def Booted (contents : E → UInt32 → Bytes) (hist : List (Call E)) (slot : UInt32) (e : E) : Prop :=
  ∃ newer sel older max, hist = newer ++ sel :: older ∧ sel.op = .select max ∧ sel.res = .selected slot ∧
    (∀ ev ∈ newer, ev.res.status ≠ some .ok) ∧ (∃ ev ∈ older, ev.res.status = some .ok) ∧
    contents e slot = contents sel.post.env slot

/-- A staging made while a slot is on trial gets every flash call served, and the pending slot is
marked good only after a trial boot. -/
structure KeepsTrial (ev : Call E) : Prop where
  stage : ∀ m img board allow, ev.op = .stage m (some img) board allow →
    ev.pre.state.pendingSlot = slotNone ∨ ev.pre.state.pendingAttempts = 0 ∨ ∀ c ∈ ev.res.calls, c.Served img
  markGood : ∀ slot, ev.op = .markGood slot → ev.pre.state.pendingSlot ≠ slotNone →
    slot = ev.pre.state.pendingSlot → ev.pre.state.pendingAttempts ≠ 0

/-- The invariant of the trial: a pending slot was staged, and once its boots are counted it was booted
and not touched since. -/
structure TrialInv (contents : E → UInt32 → Bytes) (hist : List (Call E)) (x : Sys E) : Prop where
  staged : x.state.pendingSlot ≠ slotNone → ∃ ev ∈ hist, ev.res.status = some .ok
  booted : x.state.pendingSlot ≠ slotNone → x.state.pendingAttempts ≠ 0 →
    Booted contents hist x.state.pendingSlot x.env

theorem Booted.older {slot : UInt32} {ev : Call E} {e : E} (h : Booted contents hist slot e)
    (ha : ev.res.status ≠ some .ok) : Booted contents (ev :: hist) slot e := by
  obtain ⟨newer, sel, older, max, rfl, hop, hres, hnew, hold, hc⟩ := h
  exact ⟨ev :: newer, sel, older, max, rfl, hop, hres, List.forall_mem_cons.2 ⟨ha, hnew⟩, hold, hc⟩

namespace TrialInv
variable {y : Sys E} {ev : Call E}

theorem of_none (hp : y.state.pendingSlot = slotNone) : TrialInv contents hist y :=
  ⟨fun h => absurd hp h, fun h => absurd hp h⟩

theorem older (h : TrialInv contents hist x) (ha : ev.res.status ≠ some .ok) : TrialInv contents (ev :: hist) x where
  staged hp := by
    obtain ⟨ev', hm, hs⟩ := h.staged hp
    exact ⟨ev', List.mem_cons_of_mem _ hm, hs⟩
  booted hp hb := (h.booted hp hb).older ha

end TrialInv

theorem Does.trialInv {y : Sys E} {op : Op} {a : Answer} (hd : Does B x op a y)
    (hok : KeepsTrial ⟨op, x, a, y⟩) (hi : TrialInv contents hist x) :
    TrialInv contents (⟨op, x, a, y⟩ :: hist) y := by
  cases hd with
  | rejected hs =>
    refine hi.older ?_
    rintro ⟨⟩
    simp [UpdateStatus.Rejected] at hs
  | failed h hs =>
    rcases hok.stage _ _ _ _ rfl with hnone | hzero | hserved
    · exact .of_none hnone
    · exact ⟨fun hp => (hi.staged hp).imp fun _ h => ⟨List.mem_cons_of_mem _ h.1, h.2⟩, fun _ hb => absurd hzero hb⟩
    · exact absurd (h.ok_iff.2 hserved) hs
  | staged => exact ⟨fun _ => ⟨_, List.mem_cons_self, rfl⟩, fun _ hb => absurd rfl hb⟩
  | idle h => exact .of_none h
  | expired => exact .of_none rfl
  | @tried max h =>
    obtain ⟨ev, hm, hs⟩ := hi.staged h
    exact ⟨fun _ => ⟨ev, List.mem_cons_of_mem _ hm, hs⟩,
      fun _ _ => ⟨[], _, hist, max, rfl, rfl, rfl, by simp, ⟨ev, hm, hs⟩, rfl⟩⟩
  | refused => exact hi.older (by simp [Answer.status])
  | promoted => exact .of_none rfl

theorem Does.marked_true {y : Sys E} {slot : UInt32} (hd : Does B x (.markGood slot) (.marked true) y) :
    x.state.pendingSlot ≠ slotNone ∧ slot = x.state.pendingSlot := by
  cases hd with
  | promoted h => exact ⟨h, rfl⟩

/-- In a run whose stagings during a trial get their flash calls served, and whose promotions come after a
trial boot, every promoted slot has been selected since the last successful staging and holds the bytes it
held then. -/
theorem promoted_slot_booted (contents : E → UInt32 → Bytes) (h : Reaches (step B) (.start e₀) hist x)
    (hkeep : ∀ ev ∈ hist, KeepsTrial ev) (newer : List (Call E)) (ev : Call E) (older : List (Call E))
    (slot : UInt32) (hh : hist = newer ++ ev :: older) (hop : ev.op = .markGood slot)
    (hres : ev.res = .marked true) : Booted contents older slot ev.pre.env := by
  subst hh
  obtain ⟨hpre, hev⟩ := h.of_append
  have hi : TrialInv contents older ev.pre :=
    hpre.invariant KeepsTrial (TrialInv contents) (.of_none rfl)
      (fun _ x op _ hi hok => (step_does B op x).trialInv hok hi)
      fun ev' hm => hkeep ev' (List.mem_append_right _ (List.mem_cons_of_mem _ hm))
  have hd := step_does B ev.op ev.pre
  rw [show (step B ev.op ev.pre).1 = .marked true from by rw [← hres, hev]; rfl, hop] at hd
  obtain ⟨hp, rfl⟩ := hd.marked_true
  exact hi.booted hp ((hkeep ev (by simp)).markGood _ hop hp rfl)

/-- Stage, one trial boot, promote. -/
theorem promoted_slot_booted_mock :
    let ops := [mockStage 1, .select 3]
    let hist := histOps (step mockBackend) ops (.start (mockFlash 1)) []
    let x := runOps (step mockBackend) ops (.start (mockFlash 1))
    (markBootGood x.state 1).1 = true ∧ Booted MockFlash.slots hist 1 x.env := by
  intro ops hist x
  have hr := reaches_runOps (step mockBackend) [mockStage 1, .select 3, .markGood 1] (.start (mockFlash 1))
  refine ⟨by decide, promoted_slot_booted MockFlash.slots hr ?_ []
    (Event.of (step mockBackend) (.markGood 1) x) hist 1 rfl rfl rfl⟩
  simp only [histOps, List.forall_mem_cons, List.not_mem_nil, false_imp_iff, implies_true, and_true]
  refine ⟨⟨?_, ?_⟩, ⟨?_, ?_⟩, ⟨?_, ?_⟩⟩
  · rintro _ _ _ _ ⟨⟩
  · exact fun _ _ _ _ => by decide
  · rintro _ _ _ _ ⟨⟩
  · rintro _ ⟨⟩
  · exact fun _ _ _ _ _ => .inl rfl
  · rintro _ ⟨⟩

/-- Two runs that promote slot 1 although it was not booted as it is. In the first a staging fails on the
flash while slot 1 is on trial: it was selected with the image in it and is promoted erased. In the second
it is promoted right after the staging, never selected. -/
theorem promotes_unbooted :
    mockBackend.Faithful MockFlash.slots ∧ 2 ≤ mockBackend.slotCount ∧
    (let ops := [mockStage 1, .select 3, mockStage 2]
      let hist := histOps (step mockBackend) ops (.start (mockFlash 1)) []
      let x := runOps (step mockBackend) ops (.start (mockFlash 1))
      Reaches (step mockBackend) (.start (mockFlash 1)) hist x ∧ (markBootGood x.state 1).1 = true ∧
        x.env.slots 1 0 = 0xff ∧ ¬ Booted MockFlash.slots hist 1 x.env) ∧
    (let hist := histOps (step mockBackend) [mockStage 1] (.start (mockFlash 1)) []
      let x := runOps (step mockBackend) [mockStage 1] (.start (mockFlash 1))
      Reaches (step mockBackend) (.start (mockFlash 1)) hist x ∧ (markBootGood x.state 1).1 = true ∧
        ¬ Booted MockFlash.slots hist 1 x.env) := by
  refine ⟨mockBackend_faithful, by decide, ?_, ?_⟩
  · intro ops hist x
    refine ⟨reaches_runOps _ _ _, by decide, by decide, ?_⟩
    rintro ⟨newer, sel, older, max, hh, hop, -, -, -, hc⟩
    change [Event.of (step mockBackend) (mockStage 2) _, Event.of (step mockBackend) (.select 3) _,
      Event.of (step mockBackend) (mockStage 1) _] = newer ++ sel :: older at hh
    -- the only selection of the run is its second call, made before the failed staging
    match newer with
    | [] => cases hh; cases hop
    | [_] =>
      obtain ⟨-, rfl, -⟩ : _ ∧ _ ∧ _ := by simpa using hh
      exact absurd (congrFun hc 0) (by decide)
    | [_, _] =>
      obtain ⟨-, -, rfl, -⟩ : _ ∧ _ ∧ _ ∧ _ := by simpa using hh
      cases hop
    | _ :: _ :: _ :: _ => simp at hh
  · intro hist x
    refine ⟨reaches_runOps _ _ _, by decide, ?_⟩
    rintro ⟨newer, sel, older, max, hh, hop, -⟩
    change [Event.of (step mockBackend) (mockStage 1) _] = newer ++ sel :: older at hh
    match newer with
    | [] => cases hh; cases hop
    | _ :: _ => simp at hh

end JoshBios.Fw
