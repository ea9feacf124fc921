import JoshBios.Crc32

/-!
# The firmware update engine (`firmware/update.c`)

`stageUpdate` checks a manifest and an image, writes the image to the slot after the active one and
reads it back; `selectBootSlot` chooses the slot of the next boot and counts the trial boots of a
pending image; `markBootGood` promotes it.

The flash backend is the caller's: a structure of function pointers over a context of its own. Here
the context is a state of any type `E` that every call may change, so a backend can answer and fail in
any pattern. `stageUpdate` also returns the calls it made, each with the backend's answer.
-/

namespace JoshBios.Fw

/-- `JOSH_FW_SLOT_NONE`. -/
def slotNone : UInt32 := 0xffffffff

/-- `JOSH_FW_MAX_ATTEMPTS`. -/
def maxAttempts : UInt32 := 3

/-- `JOSH_FW_UPDATE_MAGIC`. -/
def updateMagic : UInt32 := 0x5557464a

/-- `JOSH_FW_UPDATE_VERSION`. -/
def updateVersion : UInt16 := 1

/-- `JOSH_FW_BOARD_ID_MAX`. -/
def boardIdMax : Nat := 31

/-- `VERIFY_CHUNK`. -/
def verifyChunk : UInt32 := 256

/-- `josh_fw_update_status_t`. -/
inductive UpdateStatus where
  | ok | invalidArgument | badManifest | wrongBoard | rollbackBlocked | imageTooLarge | imageCorrupt
  | eraseFailed | writeFailed | verifyFailed
deriving DecidableEq, Repr

/-- `josh_fw_update_manifest_t`; its size in memory is `manifestSize`. -/
structure Manifest where
  magic : UInt32
  version : UInt16
  headerSize : UInt16
  boardId : Vector UInt8 32
  generation : UInt64
  imageSize : UInt32
  imageCrc32 : UInt32

/-- `sizeof(josh_fw_update_manifest_t)`. -/
def manifestSize : UInt16 := 56

/-- `josh_fw_update_state_t`. -/
structure UpdateState where
  activeSlot : UInt32
  previousGoodSlot : UInt32
  pendingSlot : UInt32
  pendingAttempts : UInt32
  activeGeneration : UInt64
  pendingGeneration : UInt64
deriving DecidableEq, Repr

/-- `josh_fw_flash_backend_t`, over the backend's own state `E`. A call returns its `int`, the bytes it
read if it is a read, and the backend's next state. -/
structure FlashBackend (E : Type) where
  slotCount : UInt32
  slotSize : UInt32
  eraseSlot : Option (UInt32 → E → Int × E)
  writeSlot : Option (UInt32 → UInt32 → Bytes → UInt32 → E → Int × E)
  readSlot : Option (UInt32 → UInt32 → UInt32 → E → Int × Bytes × E)

/-- One call to the backend and its answer. -/
inductive FlashCall where
  | erase (slot : UInt32) (rc : Int)
  | write (slot offset length : UInt32) (rc : Int)
  | read (slot offset length : UInt32) (rc : Int) (data : Bytes)

/-- What a call of `stageUpdate` leaves behind. -/
structure StageResult (E : Type) where
  status : UpdateStatus
  state : UpdateState
  env : E
  calls : List FlashCall

/-- `text_equal`: compare up to and including the first NUL. -/
def textEqual (a b : Bytes) : (i limit : Nat) → Bool
  | _, 0 => false
  | i, limit + 1 => if a i ≠ b i then false else if a i = 0 then true else textEqual a b (i + 1) limit

/-- `josh_fw_update_state_default`. -/
def updateStateDefault : UpdateState where
  activeSlot := 0
  previousGoodSlot := 0
  pendingSlot := slotNone
  pendingAttempts := 0
  activeGeneration := 0
  pendingGeneration := 0

/-- The loop of `manifest_valid` over the board id, from character `i` on, `n` characters left: it is
terminated, not empty, and every character before the terminator is printable. -/
def boardIdValid (id : Bytes) : (i n : Nat) → Bool
  | _, 0 => false
  | i, n + 1 =>
    if id i = 0 then i ≠ 0
    else if id i < 0x21 ∨ id i > 0x7e then false
    else boardIdValid id (i + 1) n

/-- The board id as the buffer the text functions read. -/
def Manifest.boardText (m : Manifest) : Bytes := bytesOf m.boardId.toList

/-- `manifest_valid`. -/
def manifestValid (m : Manifest) : Bool :=
  m.magic == updateMagic && m.version == updateVersion && m.headerSize == manifestSize &&
    m.imageSize != 0 && boardIdValid m.boardText 0 (boardIdMax + 1)

/-- `state_valid`. -/
def stateValid {E : Type} (s : UpdateState) (B : FlashBackend E) : Bool :=
  !(B.slotCount < 2) && !(s.activeSlot ≥ B.slotCount || s.previousGoodSlot ≥ B.slotCount) &&
    !(s.pendingSlot != slotNone && s.pendingSlot ≥ B.slotCount)

section Stage
variable {E : Type}

/-- The length of the chunk read back at `offset`. -/
def chunkLength (imageSize offset : UInt32) : UInt32 :=
  let remaining := imageSize - offset
  if remaining < verifyChunk then remaining else verifyChunk

/-- The read-back loop, `offset` bytes done. Every turn takes at least one byte, so `imageSize` turns
are enough (`verifyLoop_eq_true_iff`). -/
def verifyLoop (read : UInt32 → UInt32 → UInt32 → E → Int × Bytes × E) (target imageSize : UInt32)
    (source : Bytes) : (fuel : Nat) → (offset : UInt32) → E → Bool × E × List FlashCall
  | 0, offset, e => (!(offset < imageSize), e, [])
  | fuel + 1, offset, e =>
    if offset < imageSize then
      let length := chunkLength imageSize offset
      let (rc, verify, e') := read target offset length e
      let call := FlashCall.read target offset length rc verify
      if rc ≠ 0 then (false, e', [call])
      else if (List.range length.toNat).all fun i => verify i == source (offset.toNat + i) then
        let (ok, e'', calls) := verifyLoop read target imageSize source fuel (offset + length) e'
        (ok, e'', call :: calls)
      else (false, e', [call])
    else (true, e, [])

/-- The part of `josh_fw_stage_update` that works on the flash: erase, write, read back. -/
def flashImage (erase : UInt32 → E → Int × E) (write : UInt32 → UInt32 → Bytes → UInt32 → E → Int × E)
    (read : UInt32 → UInt32 → UInt32 → E → Int × Bytes × E) (m : Manifest) (image : Bytes)
    (target : UInt32) (e : E) : UpdateStatus × E × List FlashCall :=
  let (rc, e₁) := erase target e
  if rc ≠ 0 then (.eraseFailed, e₁, [.erase target rc]) else
  let (rc', e₂) := write target 0 image m.imageSize e₁
  if rc' ≠ 0 then (.writeFailed, e₂, [.erase target rc, .write target 0 m.imageSize rc']) else
  let (verified, e₃, reads) := verifyLoop read target m.imageSize image m.imageSize.toNat 0 e₂
  (if verified then .ok else .verifyFailed, e₃,
    .erase target rc :: .write target 0 m.imageSize rc' :: reads)

/-- The slot an update goes to. -/
def targetSlot (B : FlashBackend E) (s : UpdateState) : UInt32 := (s.activeSlot + 1) % B.slotCount

/-- The checks `josh_fw_stage_update` makes, in its order, before it touches the flash; `.ok` when
all of them pass. A null manifest fails `manifest_valid`. -/
def stageChecks (B : FlashBackend E) (manifest : Option Manifest) (image board : Bytes)
    (s : UpdateState) (allowRollback : Bool) : UpdateStatus :=
  match manifest with
  | none => .badManifest
  | some m =>
    if !manifestValid m || !stateValid s B then .badManifest
    else if !textEqual m.boardText board 0 (boardIdMax + 1) then .wrongBoard
    else if !allowRollback && m.generation ≤ s.activeGeneration then .rollbackBlocked
    else if m.imageSize > B.slotSize then .imageTooLarge
    else if crc32 (some image) m.imageSize.toNat ≠ m.imageCrc32 then .imageCorrupt
    else if targetSlot B s = s.activeSlot then .badManifest
    else .ok

/-- The state after a verified write to `target`. -/
def stagedState (m : Manifest) (target : UInt32) (s : UpdateState) : UpdateState :=
  { s with
    previousGoodSlot := s.activeSlot
    pendingSlot := target
    pendingGeneration := m.generation
    pendingAttempts := 0 }

/-- `josh_fw_stage_update`. -/
def stageUpdate (B : FlashBackend E) (manifest : Option Manifest) (image expectedBoardId : Option Bytes)
    (allowRollback : Bool) (s : UpdateState) (e : E) : StageResult E :=
  match image, expectedBoardId, B.eraseSlot, B.writeSlot, B.readSlot with
  | some img, some board, some erase, some write, some read =>
    match stageChecks B manifest img board s allowRollback, manifest with
    | .ok, some m =>
      let target := targetSlot B s
      match flashImage erase write read m img target e with
      | (.ok, e', calls) => ⟨.ok, stagedState m target s, e', calls⟩
      | (status, e', calls) => ⟨status, s, e', calls⟩
    | status, _ => ⟨status, s, e, []⟩
  | _, _, _, _, _ => ⟨.invalidArgument, s, e, []⟩

end Stage

/-- The state once a trial is over: nothing is pending. -/
def clearPending (s : UpdateState) : UpdateState :=
  { s with pendingSlot := slotNone, pendingGeneration := 0, pendingAttempts := 0 }

/-- The attempt limit in force: 0 stands for `JOSH_FW_MAX_ATTEMPTS`. -/
def effectiveMax (max : UInt32) : UInt32 := if max = 0 then maxAttempts else max

/-- `josh_fw_select_boot_slot`. -/
def selectBootSlot (s : UpdateState) (max : UInt32) : UInt32 × UpdateState :=
  if s.pendingSlot = slotNone then (s.activeSlot, s)
  else if s.pendingAttempts ≥ effectiveMax max then (s.activeSlot, clearPending s)
  else (s.pendingSlot, { s with pendingAttempts := s.pendingAttempts + 1 })

/-- `josh_fw_mark_boot_good`. -/
def markBootGood (s : UpdateState) (slot : UInt32) : Bool × UpdateState :=
  if s.pendingSlot = slotNone ∨ slot ≠ s.pendingSlot then (false, s)
  else (true, clearPending
    { s with
      previousGoodSlot := s.activeSlot
      activeSlot := s.pendingSlot
      activeGeneration := s.pendingGeneration })

end JoshBios.Fw
