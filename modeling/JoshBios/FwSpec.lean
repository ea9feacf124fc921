import JoshBios.FwUpdate

/-!
# What one call of the update engine does

`FlashBackend.SlotLocal contents` is what keeps the other slots safe: a call changes no slot but the one it
names. What it leaves there, and what it reports, is open. `FlashBackend.Faithful contents` adds what a
read-back needs: a read leaves its own slot alone too, and one that reports success returns its bytes.

`stageUpdate_cases` says once what a staging can do; every invariant is derived from it.
-/

namespace JoshBios.Fw

variable {E : Type}

/-- The call succeeded, and if it is a read it returned the bytes of `image`. -/
def FlashCall.Served (image : Bytes) : FlashCall → Prop
  | .erase _ rc => rc = 0
  | .write _ _ _ rc => rc = 0
  | .read _ offset length rc data => rc = 0 ∧ ∀ i < length.toNat, data i = image (offset.toNat + i)

@[simp] theorem FlashCall.served_erase {image : Bytes} {slot : UInt32} {rc : Int} :
    (FlashCall.erase slot rc).Served image ↔ rc = 0 := Iff.rfl

@[simp] theorem FlashCall.served_write {image : Bytes} {slot offset length : UInt32} {rc : Int} :
    (FlashCall.write slot offset length rc).Served image ↔ rc = 0 := Iff.rfl

@[simp] theorem FlashCall.served_read {image : Bytes} {slot offset length : UInt32} {rc : Int} {data : Bytes} :
    (FlashCall.read slot offset length rc data).Served image ↔
      rc = 0 ∧ ∀ i < length.toNat, data i = image (offset.toNat + i) := Iff.rfl

/-- The slot a call names. -/
def FlashCall.slot : FlashCall → UInt32
  | .erase slot _ | .write slot _ _ _ | .read slot _ _ _ _ => slot

/-- Byte `i` of `image` was compared with what a successful read of `slot` returned. -/
def ReadBack (calls : List FlashCall) (slot : UInt32) (image : Bytes) (i : Nat) : Prop :=
  ∃ offset length : UInt32, ∃ data : Bytes, FlashCall.read slot offset length 0 data ∈ calls ∧
    offset.toNat ≤ i ∧ i < offset.toNat + length.toNat ∧ data (i - offset.toNat) = image i

/-- The backend keeps to the slot a call names; `contents e slot` are the bytes of `slot` in the backend's
state `e`. -/
structure FlashBackend.SlotLocal (B : FlashBackend E) (contents : E → UInt32 → Bytes) : Prop where
  erase_frame : ∀ erase, B.eraseSlot = some erase → ∀ slot e other, other ≠ slot →
    contents (erase slot e).2 other = contents e other
  write_frame : ∀ write, B.writeSlot = some write → ∀ slot offset data length e other, other ≠ slot →
    contents (write slot offset data length e).2 other = contents e other
  read_frame : ∀ read, B.readSlot = some read → ∀ slot offset length e other, other ≠ slot →
    contents (read slot offset length e).2.2 other = contents e other

/-- The backend reads truthfully, too, and a read changes nothing. -/
structure FlashBackend.Faithful (B : FlashBackend E) (contents : E → UInt32 → Bytes) : Prop extends
    B.SlotLocal contents where
  read_kept : ∀ read, B.readSlot = some read → ∀ slot offset length e,
    contents (read slot offset length e).2.2 slot = contents e slot
  read_data : ∀ read, B.readSlot = some read → ∀ slot offset length e, (read slot offset length e).1 = 0 →
    ∀ i < length.toNat, (read slot offset length e).2.1 i = contents e slot (offset.toNat + i)

/-! ### The read-back loop -/

theorem chunkLength_spec {imageSize offset : UInt32} (h : offset < imageSize) :
    0 < (chunkLength imageSize offset).toNat ∧
      (offset + chunkLength imageSize offset).toNat = offset.toNat + (chunkLength imageSize offset).toNat ∧
      offset.toNat + (chunkLength imageSize offset).toNat ≤ imageSize.toNat := by
  have hlt := UInt32.lt_iff_toNat_lt.1 h
  have hsub : (imageSize - offset).toNat = imageSize.toNat - offset.toNat :=
    UInt32.toNat_sub_of_le _ _ (UInt32.le_iff_toNat_le.2 (Nat.le_of_lt hlt))
  have hmax := imageSize.toNat_lt
  have hlen : 0 < (chunkLength imageSize offset).toNat ∧
      (chunkLength imageSize offset).toNat ≤ imageSize.toNat - offset.toNat := by
    unfold chunkLength
    simp only
    split
    · omega
    · next hc =>
      rw [UInt32.lt_iff_toNat_lt, hsub] at hc
      have : verifyChunk.toNat = 256 := rfl
      omega
  refine ⟨hlen.1, ?_, by omega⟩
  rw [UInt32.toNat_add, Nat.mod_eq_of_lt (by omega)]

section Verify
variable (read : UInt32 → UInt32 → UInt32 → E → Int × Bytes × E) (target imageSize : UInt32)
  (source : Bytes)

theorem verifyLoop_slot (fuel : Nat) (offset : UInt32) (e : E) :
    ∀ c ∈ (verifyLoop read target imageSize source fuel offset e).2.2,
      ∃ o l rc data, c = .read target o l rc data := by
  induction fuel generalizing offset e with
  | zero => simp [verifyLoop]
  | succ fuel ih =>
    intro c hc
    unfold verifyLoop at hc
    split at hc
    · simp only at hc
      split at hc
      · simp only [List.mem_singleton] at hc; exact ⟨_, _, _, _, hc⟩
      · split at hc
        · rcases List.mem_cons.1 hc with hc | hc
          · exact ⟨_, _, _, _, hc⟩
          · exact ih _ _ c hc
        · simp only [List.mem_singleton] at hc; exact ⟨_, _, _, _, hc⟩
    · simp at hc

theorem verifyLoop_kept {contents : E → UInt32 → Bytes} {slot : UInt32}
    (hread : ∀ offset length e, contents (read target offset length e).2.2 slot = contents e slot)
    (fuel : Nat) (offset : UInt32) (e : E) :
    contents (verifyLoop read target imageSize source fuel offset e).2.1 slot = contents e slot := by
  induction fuel generalizing offset e with
  | zero => rfl
  | succ fuel ih =>
    unfold verifyLoop
    split
    · simp only
      split
      · exact hread _ _ _
      · split
        · rw [ih, hread]
        · exact hread _ _ _
    · rfl

/-- With enough turns left the loop succeeds exactly when every read it makes is served. -/
theorem verifyLoop_eq_true_iff (fuel : Nat) (offset : UInt32) (e : E)
    (hfuel : imageSize.toNat ≤ offset.toNat + fuel) :
    (verifyLoop read target imageSize source fuel offset e).1 = true ↔
      ∀ c ∈ (verifyLoop read target imageSize source fuel offset e).2.2, c.Served source := by
  induction fuel generalizing offset e with
  | zero => simpa [verifyLoop, UInt32.le_iff_toNat_le] using hfuel
  | succ fuel ih =>
    unfold verifyLoop
    split
    · next hlt =>
      obtain ⟨hpos, hadd, -⟩ := chunkLength_spec hlt
      simp only
      split
      · next hrc => simp [hrc]
      · next hrc =>
        split
        · next hall =>
          simp only [List.all_eq_true, List.mem_range, beq_iff_eq] at hall
          simp only [List.forall_mem_cons, FlashCall.served_read, not_not.1 hrc, true_and]
          rw [ih _ _ (by omega)]
          exact ⟨fun h => ⟨hall, h⟩, fun h => h.2⟩
        · next hall =>
          simp only [List.all_eq_true, List.mem_range, beq_iff_eq] at hall
          simp [hall]
    · simp

variable {read target imageSize source} in
theorem verifyLoop_true_inv {fuel : Nat} {offset : UInt32} {e : E} (hlt : offset < imageSize)
    (hok : (verifyLoop read target imageSize source (fuel + 1) offset e).1 = true) :
    ∃ data e', read target offset (chunkLength imageSize offset) e = (0, data, e') ∧
      (∀ i < (chunkLength imageSize offset).toNat, data i = source (offset.toNat + i)) ∧
      (verifyLoop read target imageSize source fuel (offset + chunkLength imageSize offset) e').1 = true ∧
      (verifyLoop read target imageSize source (fuel + 1) offset e).2.2 =
        .read target offset (chunkLength imageSize offset) 0 data ::
          (verifyLoop read target imageSize source fuel (offset + chunkLength imageSize offset) e').2.2 := by
  obtain ⟨rc, data, e', hr⟩ : ∃ rc data e', read target offset (chunkLength imageSize offset) e = (rc, data, e') :=
    ⟨_, _, _, rfl⟩
  simp only [verifyLoop, hlt, ite_true, hr] at hok ⊢
  split at hok
  · simp at hok
  · next hrc =>
    obtain rfl : rc = 0 := not_not.1 hrc
    split at hok
    · next hall =>
      refine ⟨data, e', rfl, by simpa using hall, hok, ?_⟩
      simp [hall]
    · simp at hok

/-- A successful loop has compared every byte from `offset` on. -/
theorem verifyLoop_readBack (fuel : Nat) (offset : UInt32) (e : E)
    (hok : (verifyLoop read target imageSize source fuel offset e).1 = true) (i : Nat)
    (hlo : offset.toNat ≤ i) (hhi : i < imageSize.toNat) :
    ReadBack (verifyLoop read target imageSize source fuel offset e).2.2 target source i := by
  have hlt : offset < imageSize := UInt32.lt_iff_toNat_lt.2 (by omega)
  induction fuel generalizing offset e with
  | zero => simp [verifyLoop, hlt] at hok
  | succ fuel ih =>
    obtain ⟨data, e', -, hall, hrest, hcalls⟩ := verifyLoop_true_inv hlt hok
    obtain ⟨-, hadd, -⟩ := chunkLength_spec hlt
    rw [hcalls]
    by_cases hin : i < offset.toNat + (chunkLength imageSize offset).toNat
    · refine ⟨offset, _, data, List.mem_cons_self, hlo, hin, ?_⟩
      rw [hall (i - offset.toNat) (by omega), Nat.add_sub_cancel' hlo]
    · obtain ⟨o, l, d, hm, h⟩ := ih _ e' hrest (by omega) (UInt32.lt_iff_toNat_lt.2 (by omega))
      exact ⟨o, l, d, List.mem_cons_of_mem _ hm, h⟩

/-- Read truthfully, a successful loop leaves no difference between the slot and the image. -/
theorem verifyLoop_contents {contents : E → UInt32 → Bytes}
    (hkept : ∀ offset length e, contents (read target offset length e).2.2 target = contents e target)
    (hdata : ∀ offset length e, (read target offset length e).1 = 0 →
      ∀ i < length.toNat, (read target offset length e).2.1 i = contents e target (offset.toNat + i))
    (fuel : Nat) (offset : UInt32) (e : E)
    (hok : (verifyLoop read target imageSize source fuel offset e).1 = true) (i : Nat)
    (hlo : offset.toNat ≤ i) (hhi : i < imageSize.toNat) : contents e target i = source i := by
  have hlt : offset < imageSize := UInt32.lt_iff_toNat_lt.2 (by omega)
  induction fuel generalizing offset e with
  | zero => simp [verifyLoop, hlt] at hok
  | succ fuel ih =>
    obtain ⟨data, e', hr, hall, hrest, -⟩ := verifyLoop_true_inv hlt hok
    obtain ⟨-, hadd, -⟩ := chunkLength_spec hlt
    have hkept' := hkept offset (chunkLength imageSize offset) e
    have hdata' := hdata offset (chunkLength imageSize offset) e
    simp only [hr, forall_const] at hkept' hdata'
    by_cases hin : i < offset.toNat + (chunkLength imageSize offset).toNat
    · have h₁ := hall (i - offset.toNat) (by omega)
      have h₂ := hdata' (i - offset.toNat) (by omega)
      rw [Nat.add_sub_cancel' hlo] at h₁ h₂
      rw [← h₂, h₁]
    · rw [← hkept', ih _ e' hrest (by omega) (UInt32.lt_iff_toNat_lt.2 (by omega))]

end Verify

/-! ### Writing an image -/

section Flash
variable {erase : UInt32 → E → Int × E} {write : UInt32 → UInt32 → Bytes → UInt32 → E → Int × E}
  {read : UInt32 → UInt32 → UInt32 → E → Int × Bytes × E} {m : Manifest} {image : Bytes}
  {target : UInt32} {e : E}

theorem flashImage_cases (erase : UInt32 → E → Int × E)
    (write : UInt32 → UInt32 → Bytes → UInt32 → E → Int × E)
    (read : UInt32 → UInt32 → UInt32 → E → Int × Bytes × E) (m : Manifest) (image : Bytes)
    (target : UInt32) (e : E) :
    (∃ rc e₁, erase target e = (rc, e₁) ∧ rc ≠ 0 ∧
      flashImage erase write read m image target e = (.eraseFailed, e₁, [.erase target rc])) ∨
    (∃ e₁ rc e₂, erase target e = (0, e₁) ∧ write target 0 image m.imageSize e₁ = (rc, e₂) ∧ rc ≠ 0 ∧
      flashImage erase write read m image target e =
        (.writeFailed, e₂, [.erase target 0, .write target 0 m.imageSize rc])) ∨
    (∃ e₁ e₂ verified e₃ reads, erase target e = (0, e₁) ∧ write target 0 image m.imageSize e₁ = (0, e₂) ∧
      verifyLoop read target m.imageSize image m.imageSize.toNat 0 e₂ = (verified, e₃, reads) ∧
      flashImage erase write read m image target e =
        (if verified then .ok else .verifyFailed, e₃,
          .erase target 0 :: .write target 0 m.imageSize 0 :: reads)) := by
  obtain ⟨rc, e₁, he⟩ : ∃ rc e₁, erase target e = (rc, e₁) := ⟨_, _, rfl⟩
  by_cases hrc : rc = 0
  · subst hrc
    obtain ⟨rc', e₂, hw⟩ : ∃ rc' e₂, write target 0 image m.imageSize e₁ = (rc', e₂) := ⟨_, _, rfl⟩
    by_cases hrc' : rc' = 0
    · subst hrc'
      exact .inr (.inr ⟨e₁, e₂, _, _, _, he, hw, rfl, by simp [flashImage, he, hw]⟩)
    · exact .inr (.inl ⟨e₁, rc', e₂, he, hw, hrc', by simp [flashImage, he, hw, hrc']⟩)
  · exact .inl ⟨rc, e₁, he, hrc, by simp [flashImage, he, hrc]⟩

theorem flashImage_slot : ∀ c ∈ (flashImage erase write read m image target e).2.2, c.slot = target := by
  obtain ⟨_, _, -, -, h⟩ | ⟨_, _, _, -, -, -, h⟩ | ⟨_, e₂, _, _, _, -, -, hv, h⟩ :=
    flashImage_cases erase write read m image target e <;> rw [h]
  · simp [FlashCall.slot]
  · simp [FlashCall.slot]
  · have hs := verifyLoop_slot read target m.imageSize image m.imageSize.toNat 0 e₂
    rw [hv] at hs
    simp only [List.forall_mem_cons]
    refine ⟨rfl, rfl, fun c hc => ?_⟩
    obtain ⟨_, _, _, _, rfl⟩ := hs c hc
    rfl

theorem flashImage_ok_iff : (flashImage erase write read m image target e).1 = .ok ↔
    ∀ c ∈ (flashImage erase write read m image target e).2.2, c.Served image := by
  obtain ⟨_, _, -, hrc, h⟩ | ⟨_, _, _, -, -, hrc, h⟩ | ⟨_, e₂, verified, _, _, -, -, hv, h⟩ :=
    flashImage_cases erase write read m image target e <;> rw [h]
  · simp [hrc]
  · simp [hrc]
  · have hs := verifyLoop_eq_true_iff read target m.imageSize image m.imageSize.toNat 0 e₂ (by simp)
    rw [hv] at hs
    simp only [List.forall_mem_cons, FlashCall.served_erase, FlashCall.served_write, true_and]
    rw [← hs]
    cases verified <;> simp

theorem flashImage_readBack (hok : (flashImage erase write read m image target e).1 = .ok) (i : Nat)
    (hi : i < m.imageSize.toNat) :
    ReadBack (flashImage erase write read m image target e).2.2 target image i := by
  obtain ⟨_, _, -, -, h⟩ | ⟨_, _, _, -, -, -, h⟩ | ⟨_, e₂, verified, _, _, -, -, hv, h⟩ :=
    flashImage_cases erase write read m image target e <;> rw [h] at hok ⊢
  · cases hok
  · cases hok
  · cases verified with
    | false => cases hok
    | true =>
      have hr := verifyLoop_readBack read target m.imageSize image m.imageSize.toNat 0 e₂ (by rw [hv]) i (Nat.zero_le _) hi
      rw [hv] at hr
      obtain ⟨o, l, d, hm, h⟩ := hr
      exact ⟨o, l, d, List.mem_cons_of_mem _ (List.mem_cons_of_mem _ hm), h⟩

variable {B : FlashBackend E} {contents : E → UInt32 → Bytes} (hr : B.readSlot = some read)
include hr

theorem flashImage_frame (hB : B.SlotLocal contents) (he : B.eraseSlot = some erase)
    (hw : B.writeSlot = some write) {other : UInt32} (ho : other ≠ target) :
    contents (flashImage erase write read m image target e).2.1 other = contents e other := by
  have h₁ := hB.erase_frame _ he target e other ho
  obtain ⟨_, _, h₂, -, h⟩ | ⟨e₁, _, _, h₂, h₃, -, h⟩ | ⟨e₁, e₂, _, _, _, h₂, h₃, hv, h⟩ :=
    flashImage_cases erase write read m image target e <;> rw [h] <;> rw [h₂] at h₁
  · exact h₁
  · have h₄ := hB.write_frame _ hw target 0 image m.imageSize e₁ other ho
    rw [h₃] at h₄
    rw [← h₁, ← h₄]
  · have h₄ := hB.write_frame _ hw target 0 image m.imageSize e₁ other ho
    have h₅ := verifyLoop_kept read target m.imageSize image
      (fun offset length e => hB.read_frame _ hr target offset length e other ho) m.imageSize.toNat 0 e₂
    rw [h₃] at h₄
    rw [hv] at h₅
    rw [← h₁, ← h₄, ← h₅]

theorem flashImage_contents (hB : B.Faithful contents) (hok : (flashImage erase write read m image target e).1 = .ok) (i : Nat)
    (hi : i < m.imageSize.toNat) :
    contents (flashImage erase write read m image target e).2.1 target i = image i := by
  obtain ⟨_, _, -, -, h⟩ | ⟨_, _, _, -, -, -, h⟩ | ⟨_, e₂, verified, _, _, -, -, hv, h⟩ :=
    flashImage_cases erase write read m image target e <;> rw [h] at hok ⊢
  · cases hok
  · cases hok
  · cases verified with
    | false => cases hok
    | true =>
      have h₁ := verifyLoop_kept read target m.imageSize image (hB.read_kept _ hr target) m.imageSize.toNat 0 e₂
      have h₂ := verifyLoop_contents read target m.imageSize image (hB.read_kept _ hr target)
        (hB.read_data _ hr target) m.imageSize.toNat 0 e₂ (by rw [hv]) i (Nat.zero_le _) hi
      rw [hv] at h₁
      rw [← h₂, ← h₁]

end Flash

/-! ### The target slot -/

theorem stateValid_iff {B : FlashBackend E} {s : UpdateState} : stateValid s B = true ↔
    2 ≤ B.slotCount ∧ s.activeSlot < B.slotCount ∧ s.previousGoodSlot < B.slotCount ∧
      (s.pendingSlot = slotNone ∨ s.pendingSlot < B.slotCount) := by
  simp [stateValid, or_iff_not_imp_left, and_assoc]

section Target
variable {B : FlashBackend E} {s : UpdateState}

theorem targetSlot_toNat (ha : s.activeSlot < B.slotCount) :
    (targetSlot B s).toNat = (s.activeSlot.toNat + 1) % B.slotCount.toNat := by
  have h₁ := UInt32.lt_iff_toNat_lt.1 ha
  have h₂ := B.slotCount.toNat_lt
  have hone : (1 : UInt32).toNat = 1 := rfl
  rw [targetSlot, UInt32.toNat_mod, UInt32.toNat_add, hone, Nat.mod_eq_of_lt (a := s.activeSlot.toNat + 1) (by omega)]

variable (hn : 2 ≤ B.slotCount) (ha : s.activeSlot < B.slotCount)
include hn ha

theorem targetSlot_lt : targetSlot B s < B.slotCount := by
  have hn' := UInt32.le_iff_toNat_le.1 hn
  have htwo : (2 : UInt32).toNat = 2 := rfl
  rw [UInt32.lt_iff_toNat_lt, targetSlot_toNat ha]
  exact Nat.mod_lt _ (by omega)

/-- The target is never the active slot, also where the last slot wraps to slot 0. -/
theorem targetSlot_ne_active : targetSlot B s ≠ s.activeSlot := by
  have hn' := UInt32.le_iff_toNat_le.1 hn
  have htwo : (2 : UInt32).toNat = 2 := rfl
  have h₁ := UInt32.lt_iff_toNat_lt.1 ha
  intro h
  have h₂ := targetSlot_toNat ha
  rw [h] at h₂
  by_cases hw : s.activeSlot.toNat + 1 = B.slotCount.toNat
  · rw [hw, Nat.mod_self] at h₂; omega
  · rw [Nat.mod_eq_of_lt (by omega)] at h₂; omega

end Target

/-! ### One staging -/

/-- A staging that was turned down by a check. -/
def UpdateStatus.Rejected (status : UpdateStatus) : Prop :=
  status ∉ [UpdateStatus.ok, .eraseFailed, .writeFailed, .verifyFailed]

theorem stageChecks_eq_ok_or_rejected (B : FlashBackend E) (manifest : Option Manifest) (img board : Bytes)
    (s : UpdateState) (allow : Bool) :
    stageChecks B manifest img board s allow = .ok ∨
      (stageChecks B manifest img board s allow).Rejected := by
  unfold stageChecks
  cases manifest with
  | none => exact .inr (by simp [UpdateStatus.Rejected])
  | some m => simp only; split_ifs <;> simp [UpdateStatus.Rejected]

theorem stageChecks_ok {B : FlashBackend E} {m : Manifest} {img board : Bytes} {s : UpdateState} {allow : Bool}
    (h : stageChecks B (some m) img board s allow = .ok) : stateValid s B = true := by
  simp only [stageChecks] at h
  split at h
  · cases h
  · next hv => simp only [Bool.or_eq_true, Bool.not_eq_true', not_or, Bool.not_eq_false] at hv; exact hv.2

/-- A staging is turned down by a check, with nothing touched, or it runs `flashImage` on the target
and takes over the new image if that succeeds. -/
theorem stageUpdate_cases (B : FlashBackend E) (manifest : Option Manifest) (image board : Option Bytes)
    (allow : Bool) (s : UpdateState) (e : E) :
    (∃ status, status.Rejected ∧ stageUpdate B manifest image board allow s e = ⟨status, s, e, []⟩) ∨
    ∃ m img brd erase write read, manifest = some m ∧ image = some img ∧ board = some brd ∧ B.eraseSlot = some erase ∧
      B.writeSlot = some write ∧ B.readSlot = some read ∧ stageChecks B (some m) img brd s allow = .ok ∧
      ∃ status e' calls, flashImage erase write read m img (targetSlot B s) e = (status, e', calls) ∧
        stageUpdate B manifest image board allow s e =
          ⟨status, if status = .ok then stagedState m (targetSlot B s) s else s, e', calls⟩ := by
  unfold stageUpdate
  split
  · next img brd erase write read he hw hr =>
    rcases stageChecks_eq_ok_or_rejected B manifest img brd s allow with hok | hrej
    · cases manifest with
      | none => simp [stageChecks] at hok
      | some m =>
        refine .inr ⟨m, img, brd, erase, write, read, rfl, rfl, rfl, he, hw, hr, hok, ?_⟩
        obtain ⟨status, e', calls, hf⟩ : ∃ status e' calls,
          flashImage erase write read m img (targetSlot B s) e = (status, e', calls) := ⟨_, _, _, rfl⟩
        refine ⟨status, e', calls, hf, ?_⟩
        simp only [hok, hf]
        cases status <;> rfl
    · refine .inl ⟨_, hrej, ?_⟩
      split
      · next hok => rw [hok] at hrej; simp [UpdateStatus.Rejected] at hrej
      · rfl
  · exact .inl ⟨_, by simp [UpdateStatus.Rejected], rfl⟩

end JoshBios.Fw
