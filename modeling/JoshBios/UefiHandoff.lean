import JoshBios.FirstAttempt
import JoshBios.UefiMap
import JoshBios.UefiPool

/-! # The memory map at the hand-over

The firmware may turn a key down and give another map in the next attempt. The kernel gets the map of the key that was
accepted, whatever came before, iff the descriptors of that map have their full size (`handoff_map_iff`). -/

namespace JoshBios.Uefi

open Health (BootSlot)

variable {F : Type}

/-! ### The calls around the end of the boot services -/

inductive BootCall
  | getMemoryMap (cap : UInt64) (a : MapAnswer)
  | exitBootServices (key : UInt64) (s : EfiStatus)

/-- The firmware, with a log of the two calls, newest first. -/
def traced (fw : BootFirmware F) : BootFirmware (F × List BootCall) where
  loadedImage p := let (s, a, f) := fw.loadedImage p.1; (s, a, f, p.2)
  fileSystem p := let (s, a, f) := fw.fileSystem p.1; (s, a, f, p.2)
  openVolume p := let (s, f) := fw.openVolume p.1; (s, f, p.2)
  openFile path p := let (s, a, f) := fw.openFile path p.1; (s, a, f, p.2)
  infoSize file p := let (s, a, f) := fw.infoSize file p.1; (s, a, f, p.2)
  getInfo file size p := let (s, a, f) := fw.getInfo file size p.1; (s, a, f, p.2)
  allocatePool size p := let (s, f) := fw.allocatePool size p.1; (s, f, p.2)
  allocatePages n p := let (s, a, f) := fw.allocatePages n p.1; (s, a, f, p.2)
  readBytes file size p := let (s, n, b, f) := fw.readBytes file size p.1; (s, n, b, f, p.2)
  hasRuntime := fw.hasRuntime
  getVariable p := let (s, n, b, f) := fw.getVariable p.1; (s, n, b, f, p.2)
  setVariable data p := let (s, f) := fw.setVariable data p.1; (s, f, p.2)
  hasBootServices := fw.hasBootServices
  imageBase := fw.imageBase
  imageSize := fw.imageSize
  configurationTable := fw.configurationTable
  graphicsOutput p := let (s, a, f) := fw.graphicsOutput p.1; (s, a, f, p.2)
  getMemoryMap cap p := let (a, f) := fw.getMemoryMap cap p.1; (a, f, .getMemoryMap cap a :: p.2)
  exitBootServices key p := let (s, f) := fw.exitBootServices key p.1; (s, f, .exitBootServices key s :: p.2)

/-- The last call accepted the key of the map `a`, which the call before it returned. -/
def Accepted (calls : List BootCall) (a : MapAnswer) : Prop :=
  ∃ cap s earlier, calls = .exitBootServices a.key s :: .getMemoryMap cap a :: earlier ∧ efiError s = false ∧
    efiError a.status = false

/-- What the loader relies on: allocated pages, those at the addresses in `held`, are below 4 GiB, were free and stay
allocated, and a map does not go beyond its buffer. -/
structure BootServices (fw : BootFirmware F) (held : F → Nat → Prop) : Prop where
  below : ∀ n f, efiError (fw.allocatePages n f).1 = false →
    (fw.allocatePages n f).2.1.toNat + 4096 * n.toNat ≤ 2 ^ 32
  fresh : ∀ n f, efiError (fw.allocatePages n f).1 = false → ∀ x, (fw.allocatePages n f).2.1.toNat ≤ x →
    x < (fw.allocatePages n f).2.1.toNat + 4096 * n.toNat → ¬ held f x ∧ held (fw.allocatePages n f).2.2 x
  allocatePages : ∀ n f x, held f x → held (fw.allocatePages n f).2.2 x
  graphicsOutput : ∀ f x, held f x → held (fw.graphicsOutput f).2.2 x
  getMemoryMap : ∀ cap f x, held f x → held (fw.getMemoryMap cap f).2 x
  fits : ∀ cap f, efiError (fw.getMemoryMap cap f).1.status = false → (fw.getMemoryMap cap f).1.size ≤ cap

section
variable {fw : BootFirmware F} {held : F → Nat → Prop}

theorem BootServices.traced (h : BootServices fw held) : BootServices (traced fw) fun p => held p.1 :=
  ⟨fun n p => h.below n p.1, fun n p => h.fresh n p.1, fun n p => h.allocatePages n p.1, fun p => h.graphicsOutput p.1,
    fun cap p => h.getMemoryMap cap p.1, fun cap p => h.fits cap p.1⟩

/-- The attempts that succeed end with an accepted key, and with its map unless the descriptors are too short. -/
theorem exitLoop_spec (h : BootServices fw held) {raw cap metadata : UInt64} (hbuf : Buffer raw cap metadata) {n : Nat}
    (hn : 0 < n) {u u' : Loader (F × List BootCall)} {s : EfiStatus}
    (hloop : exitLoop (Uefi.traced fw) raw cap metadata n u = (s, u')) (hs : efiError s = false) :
    ∃ a, Accepted u'.firmware.2 a ∧ (descriptorBytes ≤ a.descriptorSize → HandsOver a u'.mem metadata) := by
  induction n generalizing u with
  | zero => exact absurd hn (Nat.lt_irrefl 0)
  | succ n ih =>
    obtain ⟨a, f, hmap⟩ : ∃ a f, fw.getMemoryMap cap u.firmware.1 = (a, f) := ⟨_, _, rfl⟩
    have hmap' : (traced fw).getMemoryMap cap u.firmware = (a, f, .getMemoryMap cap a :: u.firmware.2) := by
      simp only [traced, hmap]
    have hfits : efiError a.status = false → a.size ≤ cap := by
      have := h.fits cap u.firmware.1
      rwa [hmap] at this
    rw [exitLoop] at hloop
    obtain ⟨s₁, key, u₁, hcapture⟩ : ∃ s₁ key u₁, captureMap (traced fw) raw cap metadata u = ((s₁, key), u₁) :=
      ⟨_, _, _, rfl⟩
    obtain ⟨s₂, f₂, hexit⟩ : ∃ s₂ f₂, fw.exitBootServices key u₁.firmware.1 = (s₂, f₂) := ⟨_, _, rfl⟩
    have hexit' : (traced fw).exitBootServices key u₁.firmware = (s₂, f₂, .exitBootServices key s₂ :: u₁.firmware.2) := by
      simp only [traced, hexit]
    simp only [hcapture, hexit'] at hloop
    split at hloop
    next hs₁ =>
      cases hloop
      rw [hs] at hs₁
      cases hs₁
    next hs₁ =>
      rw [Bool.not_eq_true] at hs₁
      obtain ⟨hstatus, rfl, hfirm, hover⟩ := captureMap_spec hmap' hbuf hfits hcapture hs₁
      rw [hfirm] at hloop
      split at hloop
      · cases hloop
        exact ⟨a, ⟨cap, s, u.firmware.2, rfl, hs, hstatus⟩, hover⟩
      next hs₂ =>
        split at hloop
        · cases hloop
          rw [hs] at hs₂
          exact absurd rfl hs₂
        next hpos => exact ih (Nat.pos_of_ne_zero hpos) hloop

/-! ### The way there -/

theorem allocLow_held (h : BootServices fw held) {n : UInt64} {u u' : Loader F} {r : EfiStatus × UInt64}
    (halloc : allocLow fw.toFirmware n u = (r, u')) {x : Nat} (hx : held u.firmware x) : held u'.firmware x := by
  rw [allocLow] at halloc
  split at halloc
  · cases halloc
    exact hx
  · cases halloc
    exact h.allocatePages n _ x hx

theorem allocLow_fresh (h : BootServices fw held) {n a : UInt64} {u u' : Loader F} {s : EfiStatus}
    (halloc : allocLow fw.toFirmware n u = ((s, a), u')) (hs : efiError s = false) :
    0 < n.toNat ∧ a.toNat + 4096 * n.toNat ≤ 2 ^ 32 ∧
      ∀ x, a.toNat ≤ x → x < a.toNat + 4096 * n.toNat → ¬ held u.firmware x ∧ held u'.firmware x := by
  rw [allocLow] at halloc
  split at halloc
  · cases halloc
    exact absurd hs (by decide)
  next hn =>
    cases halloc
    have hpos : 0 < n.toNat := Nat.pos_of_ne_zero fun h0 => hn (UInt64.toNat_inj.1 h0)
    exact ⟨hpos, h.below n _ hs, h.fresh n _ hs⟩

theorem buildTables_held (h : BootServices fw held) {kp : UInt64} {sum : Elf64.Summary} {u u' : Loader F}
    {r : EfiStatus × UInt64 × UInt64} (hbuild : buildTables fw.toFirmware kp sum u = (r, u')) {x : Nat}
    (hx : held u.firmware x) : held u'.firmware x := by
  obtain ⟨st, pa, u₁, hpool⟩ : ∃ st pa u₁, allocLow fw.toFirmware pageTablePoolPages u = ((st, pa), u₁) := ⟨_, _, _, rfl⟩
  have hx₁ := allocLow_held h hpool hx
  rw [buildTables_eq hpool] at hbuild
  split at hbuild
  · cases hbuild
    exact hx₁
  · generalize fillPool (poolAt pa) kp sum _ = q at hbuild
    obtain ⟨ok, pml4, p, m⟩ := q
    cases ok with
    | false =>
      cases hbuild
      exact hx₁
    | true =>
      obtain ⟨st', sp, u₂, hstack⟩ : ∃ st' sp u₂, allocLow fw.toFirmware 4 { u₁ with mem := m } = ((st', sp), u₂) :=
        ⟨_, _, _, rfl⟩
      have hx₂ := allocLow_held h hstack hx₁
      rw [finishTables, hstack] at hbuild
      simp only at hbuild
      split at hbuild <;> cases hbuild <;> exact hx₂

theorem fillFb_held (h : BootServices fw held) {fb : Nat} {u u' : Loader F} {s : EfiStatus}
    (hfill : fillFb fw fb u = (s, u')) {x : Nat} (hx : held u.firmware x) : held u'.firmware x := by
  have hx' := h.graphicsOutput _ x hx
  rw [fillFb] at hfill
  simp only at hfill
  split at hfill
  · cases hfill
    exact hx'
  · split at hfill
    · cases hfill
      exact hx'
    split at hfill <;> cases hfill <;> exact hx'

theorem prepare_held (h : BootServices fw held) {sum : Elf64.Summary} {seg : Elf64.LoadSegment} {u u' : Loader F}
    {p : Prepared} (hprep : prepare fw sum seg u = (.ok p, u')) {x : Nat} (h₁ : p.metadata.toNat ≤ x)
    (h₂ : x < p.metadata.toNat + 4096) : held u'.firmware x := by
  unfold prepare at hprep
  extract_lets at hprep
  split at hprep
  next s₁ files u₁ hfiles =>
    split at hprep
    · cases hprep
    split at hprep
    · cases hprep
    split at hprep
    next cfg ki kis hget =>
      split at hprep
      next s₂ sum₂ kp u₂ hload =>
        split at hprep
        · cases hprep
        split at hprep
        next s₃ ma u₃ hmeta =>
          split at hprep
          · cases hprep
          next hs₃ =>
            rw [Bool.not_eq_true] at hs₃
            split at hprep
            next s₄ u₄ hfb =>
              split at hprep
              · cases hprep
              split at hprep
              next s₅ root stack u₅ hbuild =>
                split at hprep
                · cases hprep
                · cases hprep
                  obtain ⟨-, -, hfresh⟩ := allocLow_fresh h hmeta hs₃
                  exact buildTables_held h hbuild (fillFb_held h hfb (hfresh x h₁ h₂).2)

theorem allocMap_free (h : BootServices fw held) {raw cap : UInt64} {u u' : Loader F}
    (halloc : allocMap fw u = (.ok (raw, cap), u')) :
    0 < cap.toNat ∧ raw.toNat + cap.toNat ≤ 2 ^ 32 ∧
      ∀ x, raw.toNat ≤ x → x < raw.toNat + cap.toNat → ¬ held u.firmware x := by
  unfold allocMap at halloc
  split at halloc
  next a f hmap =>
    extract_lets u₀ need at halloc
    split at halloc
    · cases halloc
    split at halloc
    next s raw' u₁ hpages =>
      split at halloc
      · cases halloc
      next hs =>
        rw [Bool.not_eq_true] at hs
        cases halloc
        obtain ⟨hpos, hbelow, hfresh⟩ := allocLow_fresh h hpages hs
        have hcap : (pagesFor need * pageSize).toNat = 4096 * (pagesFor need).toNat := by
          rw [UInt64.toNat_mul, show pageSize.toNat = 4096 from rfl, Nat.mul_comm, Nat.mod_eq_of_lt (by omega)]
        rw [hcap]
        refine ⟨by omega, hbelow, fun x h₁ h₂ hx => (hfresh x h₁ h₂).1 ?_⟩
        have hkeep := h.getMemoryMap 0 _ x hx
        rwa [hmap] at hkeep

theorem buffer_of_alloc (h : BootServices fw held) {sum : Elf64.Summary} {seg : Elf64.LoadSegment} {u u₁ u₂ : Loader F}
    {p : Prepared} (hprep : prepare fw sum seg u = (.ok p, u₁)) {raw cap : UInt64}
    (halloc : allocMap fw u₁ = (.ok (raw, cap), u₂)) : Buffer raw cap p.metadata := by
  obtain ⟨hpos, hbelow, hfree⟩ := allocMap_free h halloc
  refine ⟨hbelow, ?_⟩
  by_contra hmeet
  exact hfree (max raw.toNat p.metadata.toNat) (by omega) (by omega) (prepare_held h hprep (by omega) (by omega))

/-- The last key was accepted, and the kernel gets its map unless the descriptors of that map are too short. -/
theorem efiMain_handoff (h : BootServices fw held) {sum : Elf64.Summary} {seg : Elf64.LoadSegment}
    {u u' : Loader (F × List BootCall)} {root stack entry info : UInt64}
    (hmain : efiMain (traced fw) sum seg u = (.handoff root stack entry info, u')) :
    ∃ a, Accepted u'.firmware.2 a ∧ (descriptorBytes ≤ a.descriptorSize → HandsOver a u'.mem info) := by
  unfold efiMain at hmain
  extract_lets u₀ at hmain
  split at hmain
  · cases hmain
  split at hmain
  · cases hmain
  next p u₁ hprep =>
    split at hmain
    · cases hmain
    next raw cap u₂ halloc =>
      split at hmain
      next s u₃ hloop =>
        split at hmain
        · cases hmain
        next hs =>
          rw [Bool.not_eq_true] at hs
          cases hmain
          have hspec := exitLoop_spec h (buffer_of_alloc h.traced hprep halloc) (by decide) hloop hs
          exact hspec

end

/-! ### A firmware whose map changes

Its `GetMemoryMap` gives the answers of a list, one after the other, and its `ExitBootServices` accepts no key before the
last one. It has two files. -/

-- "\EFI\JOSH\BOOT.CFG"
def cfgPath : List UInt16 :=
  [0x5c, 0x45, 0x46, 0x49, 0x5c, 0x4a, 0x4f, 0x53, 0x48, 0x5c, 0x42, 0x4f, 0x4f, 0x54, 0x2e, 0x43, 0x46, 0x47]

abbrev lowKernel : Bytes := smallKernel 0xffffffff80000000

/-- The kernel, or else the configuration, and how long it is. -/
def fileOf (file : Nat) : Bytes × UInt64 :=
  if file = 0 then (lowKernel, 124) else (bytesOf loneKernelText, UInt64.ofNat loneKernelText.length)

/-- Pages are allocated upwards. -/
def tapeFirmware : BootFirmware (UInt64 × List MapAnswer) where
  loadedImage f := (efiSuccess, true, f)
  fileSystem f := (efiSuccess, true, f)
  openVolume f := (efiSuccess, f)
  openFile path f := (efiSuccess, some (if path = cfgPath then 1 else 0), f)
  infoSize _ f := (efiBufferTooSmall, 80, f)
  getInfo file _ f := (efiSuccess, bytesOf (packBytes [(8, 80), (8, (fileOf file).2.toNat)]), f)
  allocatePool _ f := (efiSuccess, f)
  allocatePages n f :=
    if f.1.toNat + 4096 * n.toNat ≤ 2 ^ 32 then (efiSuccess, f.1, f.1 + n * 4096, f.2) else (efiOutOfResources, 0, f)
  readBytes file n f := (efiSuccess, n, (fileOf file).1, f)
  hasRuntime := true
  getVariable f := (efiNotFound, 0, fun _ => 0, f)
  setVariable _ f := (efiSuccess, f)
  hasBootServices := true
  imageBase := 0x100000
  imageSize := 0x10000
  configurationTable := []
  graphicsOutput f := (efiSuccess, some ⟨0x80000000, 1024, 768, pixelRgb, 0, 0, 0, 1024⟩, f)
  getMemoryMap cap f :=
    match f.2 with
    | [] => (⟨efiDeviceError, 0, 0, 0, fun _ => 0⟩, f)
    | a :: rest => (if cap < a.size then { a with status := efiBufferTooSmall } else a, f.1, rest)
  exitBootServices _ f := (if f.2.isEmpty then efiSuccess else efiInvalidParameter, f)

theorem bootServices_tapeFirmware : BootServices tapeFirmware fun f x => x < f.1.toNat := by
  have hnext (n : UInt64) (f : UInt64 × List MapAnswer) (h : f.1.toNat + 4096 * n.toNat ≤ 2 ^ 32) :
      (f.1 + n * 4096).toNat = f.1.toNat + 4096 * n.toNat := by
    have hn : (n * 4096).toNat = 4096 * n.toNat := by
      rw [UInt64.toNat_mul, show (4096 : UInt64).toNat = 4096 from rfl, Nat.mul_comm, Nat.mod_eq_of_lt (by omega)]
    rw [UInt64.toNat_add, hn, Nat.mod_eq_of_lt (by omega)]
  refine ⟨fun n f hs => ?_, fun n f hs x h₁ h₂ => ?_, fun n f x hx => ?_, fun f x hx => hx, fun cap f x hx => ?_,
    fun cap f hs => ?_⟩
  all_goals simp only [tapeFirmware] at *
  · split at hs
    next hroom => simpa only [if_pos hroom] using hroom
    · exact absurd (show efiError efiOutOfResources = false from hs) (by decide)
  · split at hs
    next hroom =>
      simp only [if_pos hroom] at h₁ h₂ ⊢
      rw [hnext n f hroom]
      omega
    · exact absurd (show efiError efiOutOfResources = false from hs) (by decide)
  · split
    next hroom =>
      rw [hnext n f hroom]
      omega
    · exact hx
  · split <;> exact hx
  · split at hs
    · exact absurd (show efiError efiDeviceError = false from hs) (by decide)
    · split at hs
      · exact absurd (show efiError efiBufferTooSmall = false from hs) (by decide)
      next hroom =>
        simp only [if_neg hroom]
        exact UInt64.not_lt.1 hroom

theorem info_fileOf (file : Nat) : le64 (bytesOf (packBytes [(8, 80), (8, (fileOf file).2.toNat)])) 8 = (fileOf file).2 :=
  le64_packBytes [(8, 80)] (fileOf file).2 [] rfl

theorem size_fileOf (file : Nat) : (fileOf file).2 ≠ 0 := by
  rw [fileOf, length_loneKernelText]
  split <;> decide

theorem configSize_fileOf : (fileOf 1).2.toNat = loneKernelText.length := by
  show (UInt64.ofNat loneKernelText.length).toNat = loneKernelText.length
  rw [length_loneKernelText]
  rfl

theorem configFits_fileOf : (fileOf 1).2.toNat ≤ Config.configMaxBytes := by
  rw [configSize_fileOf, length_loneKernelText]
  decide

theorem parse_fileOf : Config.parse ((fileOf 1).1.slice 0 (fileOf 1).2.toNat) = .ok loneKernelConfig := by
  show Config.parse ((bytesOf loneKernelText).slice 0 (fileOf 1).2.toNat) = .ok loneKernelConfig
  rw [configSize_fileOf, slice_bytesOf]
  exact parse_loneKernelText

theorem readFile_tape (path : List UInt16) (u : Loader ((UInt64 × List MapAnswer) × List BootCall)) :
    readFile (traced tapeFirmware).toFirmware path u =
      ((efiSuccess, some (fileOf (if path = cfgPath then 1 else 0)).1, (fileOf (if path = cfgPath then 1 else 0)).2),
        { u with opened := path :: u.opened }) := by
  generalize hfile : (if path = cfgPath then 1 else 0) = file
  have hroom : ¬ (80 : UInt64) < 24 := by decide
  simp only [readFile, traced, tapeFirmware, hfile, info_fileOf, size_fileOf, hroom, efiError_efiSuccess, ne_eq, not_true,
    decide_false, Bool.or_self, Bool.false_eq_true, if_false]

/-- The kernel's path. -/
def kernelPath : List UInt16 := (asciiPathToUefi loneKernelConfig.kernelPath (Config.pathMax + 1)).getD []

theorem isSet_kernelPath : Config.isSet loneKernelConfig.kernelPath = true := by
  rw [loneKernelConfig_eq]
  rfl

theorem asciiPathToUefi_kernelPath : asciiPathToUefi loneKernelConfig.kernelPath (Config.pathMax + 1) = some kernelPath := by
  rw [kernelPath, loneKernelConfig_eq]
  rfl

theorem kernelPath_ne_cfgPath : kernelPath ≠ cfgPath := by
  rw [kernelPath, loneKernelConfig_eq]
  decide

theorem validate_lowKernel : (Elf64.validate (some lowKernel) 124 (some ⟨0, 0, 0, 0⟩)).1 = .ok := by decide

theorem readCandidate_tape (u : Loader ((UInt64 × List MapAnswer) × List BootCall)) :
    readCandidate (traced tapeFirmware).toFirmware loneKernelConfig.kernelPath u =
      (some (some lowKernel, 124), { u with opened := kernelPath :: u.opened }) := by
  rw [readCandidate, isSet_kernelPath, asciiPathToUefi_kernelPath]
  simp only [readFile_tape, if_neg kernelPath_ne_cfgPath, fileOf, validate_lowKernel, efiError_efiSuccess, Bool.not_true, Bool.false_eq_true, if_false,
    if_true]

theorem selectKernel_tape (u : Loader ((UInt64 × List MapAnswer) × List BootCall)) :
    ∃ u', selectKernel (uefiWorld (traced tapeFirmware).toFirmware loneKernelConfig) loneKernelConfig Health.healthDefault u =
      ⟨some (.current, some lowKernel, 124), Health.healthDefault, u'⟩ ∧ u'.firmware = u.firmware := by
  have hprep : Health.prepareAttempt Health.healthDefault Health.healthMaxAttempts = (.current, Health.healthDefault) :=
    Health.prepareAttempt_settled Health.valid_healthDefault rfl _
  have hpending : ¬ (Health.healthDefault.pendingGood ≠ 0 ∧ Health.healthDefault.selectedSlot ≠ BootSlot.current.code) := by
    decide
  have hread (u : Loader ((UInt64 × List MapAnswer) × List BootCall)) :
      (uefiWorld (traced tapeFirmware).toFirmware loneKernelConfig).read .current u =
        (some (some lowKernel, 124), { u with opened := kernelPath :: u.opened }) := readCandidate_tape u
  rw [selectKernel, hprep]
  simp only [ne_eq, not_true, if_false, if_neg hpending, candidateLoop, hread]
  exact ⟨_, rfl, rfl⟩

theorem loadFiles_tape (u : Loader ((UInt64 × List MapAnswer) × List BootCall)) :
    ∃ u', loadFiles (traced tapeFirmware).toFirmware u =
      ((efiSuccess, some (loneKernelConfig, some lowKernel, 124)), u') ∧ u'.firmware = u.firmware := by
  have hroot : openRoot (traced tapeFirmware).toFirmware u.firmware = (efiSuccess, u.firmware) := by
    simp only [openRoot, traced, tapeFirmware, efiError_efiSuccess, Bool.not_true, Bool.or_self, Bool.false_eq_true, if_false]
  have hread := readFile_tape cfgPath
  rw [if_pos rfl] at hread
  have hroom : ¬ (fileOf 1).2.toNat > Config.configMaxBytes := Nat.not_lt.2 configFits_fileOf
  have hload (u : Loader ((UInt64 × List MapAnswer) × List BootCall)) : ∃ u',
      uefiHealthLoad (traced tapeFirmware).toFirmware u = (Health.healthDefault, u') ∧ u'.firmware = u.firmware := by
    have hmissing : efiError efiNotFound = true := by decide
    simp only [uefiHealthLoad, uefiHealthStore, traced, tapeFirmware, hmissing, if_true, Bool.true_or, Bool.not_true,
      Bool.false_eq_true, if_false, efiError_efiSuccess]
    exact ⟨_, rfl, rfl⟩
  obtain ⟨u₁, hhealth, hfirm₁⟩ := hload (say "JOSHUEFI_CONFIG_OK\r\n" { u with opened := cfgPath :: u.opened })
  obtain ⟨u₂, hselect, hfirm₂⟩ := selectKernel_tape u₁
  simp only [cfgPath] at hread hhealth
  simp only [loadFiles, hroot, hread, hroom, parse_fileOf, hhealth, hselect, efiError_efiSuccess, Bool.false_eq_true, if_false]
  exact ⟨u₂, rfl, hfirm₂.trans hfirm₁⟩

theorem allocatePages_tape {n a : UInt64} (hroom : a.toNat + 4096 * n.toNat ≤ 2 ^ 32) (answers : List MapAnswer)
    (calls : List BootCall) :
    (traced tapeFirmware).allocatePages n ((a, answers), calls) = (efiSuccess, a, ((a + n * 4096, answers), calls)) := by
  simp only [traced, tapeFirmware, if_pos hroom]

theorem allocLow_tape {n a : UInt64} {answers : List MapAnswer} {calls : List BootCall}
    {u : Loader ((UInt64 × List MapAnswer) × List BootCall)} (hu : u.firmware = ((a, answers), calls)) (hn : n ≠ 0)
    (hroom : a.toNat + 4096 * n.toNat ≤ 2 ^ 32) :
    allocLow (traced tapeFirmware).toFirmware n u =
      ((efiSuccess, a), { u with firmware := ((a + n * 4096, answers), calls) }) := by
  rw [allocLow_eq _ hn, hu, allocatePages_tape hroom]

theorem buildTables_ok {fw : Firmware F} {u : Loader F} {f₁ f₂ : F} {pa sp : UInt64}
    (hpool : fw.allocatePages pageTablePoolPages u.firmware = (efiSuccess, pa, f₁))
    (hstack : fw.allocatePages 4 f₁ = (efiSuccess, sp, f₂)) (haligned : pa.toNat % 4096 = 0) (hpos : 0 < pa.toNat)
    (htop : pa.toNat + 48 * 4096 ≤ 2 ^ 32) (kp : UInt64) {sum : Elf64.Summary} (hfit : Fits sum) :
    ∃ root stack u', buildTables fw kp sum u = ((efiSuccess, root, stack), u') ∧ u'.firmware = f₂ := by
  have hs := poolSuffices hfit haligned hpos htop kp (memzero u.mem pa.toNat (pageTablePoolPages * pageSize).toNat)
  generalize hfill : fillPool (poolAt pa) kp sum (memzero u.mem pa.toNat (pageTablePoolPages * pageSize).toNat) = r
  obtain ⟨ok, pml4, p, m⟩ := r
  obtain rfl : ok = true := by
    rw [← hs.mapped, hfill]
  obtain ⟨u', hbuild, -, hfirm⟩ := @buildTables_of _ fw u kp pa pml4 sp sum p m
    (by rw [hpool]; exact ⟨efiError_efiSuccess, rfl⟩) hfill (by rw [hpool, hstack]; exact ⟨efiError_efiSuccess, rfl⟩)
  rw [hpool, hstack] at hfirm
  exact ⟨_, _, u', hbuild, hfirm⟩

theorem fillFb_tape (fb : Nat) {u : Loader ((UInt64 × List MapAnswer) × List BootCall)}
    {f : (UInt64 × List MapAnswer) × List BootCall} (hu : u.firmware = f) :
    ∃ u', fillFb (traced tapeFirmware) fb u = (efiSuccess, u') ∧ u'.firmware = f := by
  have hmode : (decide (pixelRgb = pixelBltOnly) || decide ((0x80000000 : UInt64) = 0)) = false := by decide
  simp only [fillFb, traced, tapeFirmware, hmode, efiError_efiSuccess, Bool.false_eq_true, if_false]
  exact ⟨_, rfl, hu⟩

theorem prepare_of {fw : BootFirmware F} {u u₁ u₂ u₃ u₄ u₅ : Loader F} {cfg : Config.BootConfig} {ki : Option Bytes}
    {kis kp ma root stack : UInt64} {sum sum₁ : Elf64.Summary} {seg : Elf64.LoadSegment}
    (hloaded : (fw.loadedImage u.firmware).2.1 = true) (himage : ¬ fw.imageBase + fw.imageSize > 0x100000000)
    (hfiles : loadFiles fw.toFirmware u = ((efiSuccess, some (cfg, ki, kis)), u₁))
    (hload : loadElf fw.toFirmware ki kis sum seg u₁ = ((efiSuccess, sum₁, kp), u₂))
    (hmeta : allocLow fw.toFirmware 1 u₂ = ((efiSuccess, ma), u₃))
    (hfb : fillFb fw (ma.toNat + framebufferOffset) { u₃ with mem := fillMeta fw ma sum₁ kp cfg u₃.mem } = (efiSuccess, u₄))
    (hbuild : buildTables fw.toFirmware kp sum₁ u₄ = ((efiSuccess, root, stack), u₅)) :
    prepare fw sum seg u = (.ok { root, stack, entry := sum₁.entry, metadata := ma }, u₅) := by
  have hok : ¬ efiError efiSuccess = true := by decide
  have hlow : ¬ (!(fw.loadedImage u.firmware).2.1 || decide (fw.imageBase + fw.imageSize > 0x100000000)) = true := by
    rw [hloaded, decide_eq_false himage]
    decide
  -- one match after the other, so that no step is evaluated
  unfold prepare
  extract_lets loaded
  split
  next h =>
    cases hfiles.symm.trans h
    rw [if_neg hok, if_neg hlow]
    split
    next h =>
      cases h
      split
      next h =>
        cases hload.symm.trans h
        rw [if_neg hok]
        split
        next h =>
          cases hmeta.symm.trans h
          rw [if_neg hok]
          split
          next h =>
            cases hfb.symm.trans h
            rw [if_neg hok]
            split
            next h =>
              cases hbuild.symm.trans h
              rw [if_neg hok]

theorem prepare_tape {answers : List MapAnswer} {calls : List BootCall}
    {u : Loader ((UInt64 × List MapAnswer) × List BootCall)} (hu : u.firmware = ((0x400000, answers), calls))
    (sum : Elf64.Summary) (seg : Elf64.LoadSegment) :
    ∃ p u', prepare (traced tapeFirmware) sum seg u = (.ok p, u') ∧ u'.firmware = ((0x436000, answers), calls) := by
  have hvalid : Elf64.validateImage lowKernel 124 = .ok (smallSummary 0xffffffff80000000) :=
    eq_ok_of_toOption (by decide)
  have hfit : Fits (smallSummary 0xffffffff80000000) := ⟨by decide, by decide, by decide⟩
  have hpages :
      pagesFor ((smallSummary 0xffffffff80000000).virtualMax - (smallSummary 0xffffffff80000000).virtualMin) = 1 := by
    decide
  obtain ⟨u₁, hfiles, hfirm₁⟩ := loadFiles_tape u
  rw [hu] at hfirm₁
  obtain ⟨u₂, hload, hfirm₂⟩ : ∃ u₂, loadElf (traced tapeFirmware).toFirmware (some lowKernel) 124 sum seg u₁ =
      ((efiSuccess, smallSummary 0xffffffff80000000, 0x400000), u₂) ∧ u₂.firmware = ((0x401000, answers), calls) := by
    rw [loadElf_eq hvalid hfit, hpages, allocLow_tape hfirm₁ (by decide) (by decide),
      show (0x400000 : UInt64) + 1 * 4096 = 0x401000 by decide]
    simp only [efiError_efiSuccess, Bool.false_eq_true, if_false]
    exact ⟨_, rfl, rfl⟩
  obtain ⟨u₃, hmeta, hfirm₃⟩ : ∃ u₃, allocLow (traced tapeFirmware).toFirmware 1 u₂ = ((efiSuccess, 0x401000), u₃) ∧
      u₃.firmware = ((0x402000, answers), calls) := by
    rw [allocLow_tape hfirm₂ (by decide) (by decide), show (0x401000 : UInt64) + 1 * 4096 = 0x402000 by decide]
    exact ⟨_, rfl, rfl⟩
  obtain ⟨u₄, hfb, hfirm₄⟩ := @fillFb_tape ((0x401000 : UInt64).toNat + framebufferOffset)
    { u₃ with
      mem := fillMeta (traced tapeFirmware) 0x401000 (smallSummary 0xffffffff80000000) 0x400000 loneKernelConfig u₃.mem }
    ((0x402000, answers), calls) hfirm₃
  have hpool := @allocatePages_tape pageTablePoolPages 0x402000 (by decide) answers calls
  rw [show (0x402000 : UInt64) + pageTablePoolPages * 4096 = 0x432000 by decide, ← hfirm₄] at hpool
  have hstack := @allocatePages_tape 4 0x432000 (by decide) answers calls
  rw [show (0x432000 : UInt64) + 4 * 4096 = 0x436000 by decide] at hstack
  obtain ⟨root, stack, u₅, hbuild, hfirm₅⟩ :=
    buildTables_ok hpool hstack (by decide) (by decide) (by decide) 0x400000 hfit
  have himage : ¬ (traced tapeFirmware).imageBase + (traced tapeFirmware).imageSize > 0x100000000 := by decide
  exact ⟨_, u₅, prepare_of rfl himage hfiles hload hmeta hfb hbuild, hfirm₅⟩

theorem allocMap_of {fw : BootFirmware F} {u u' : Loader F} {a : MapAnswer} {f : F} {raw : UInt64}
    (hmap : fw.getMemoryMap 0 u.firmware = (a, f)) (hs : a.status = efiBufferTooSmall)
    (hds : descriptorBytes ≤ a.descriptorSize)
    (halloc :
      allocLow fw.toFirmware (pagesFor (a.size + a.descriptorSize * rawMapExtraDescriptors)) { u with firmware := f } =
      ((efiSuccess, raw), u')) :
    allocMap fw u = (.ok (raw, pagesFor (a.size + a.descriptorSize * rawMapExtraDescriptors) * pageSize), u') := by
  have hok : ¬ efiError efiSuccess = true := by decide
  have hgo : ¬ (decide (a.status ≠ efiBufferTooSmall) || decide (a.descriptorSize < descriptorBytes)) = true := by
    rw [decide_eq_false (not_not.2 hs), decide_eq_false (UInt64.not_lt.2 hds)]
    decide
  unfold allocMap
  split
  next h =>
    cases hmap.symm.trans h
    extract_lets u₀ need
    rw [if_neg hgo]
    split
    next h =>
      cases halloc.symm.trans h
      rw [if_neg hok]

section
variable {fw : BootFirmware F} {raw cap metadata : UInt64} {n : Nat} {u u₁ : Loader F} {s₁ s : EfiStatus} {key : UInt64}
  {f : F} (hcapture : captureMap fw raw cap metadata u = ((s₁, key), u₁)) (hs₁ : efiError s₁ = false)
  (hexit : fw.exitBootServices key u₁.firmware = (s, f))
include hcapture hs₁ hexit

theorem exitLoop_accept (hs : efiError s = false) :
    exitLoop fw raw cap metadata (n + 1) u = (s, { u₁ with firmware := f }) := by
  simp only [exitLoop, hcapture, hs₁, hexit, hs, Bool.not_false, Bool.false_eq_true, if_false, if_true]

theorem exitLoop_reject (hs : efiError s = true) (hn : n ≠ 0) :
    exitLoop fw raw cap metadata (n + 1) u = exitLoop fw raw cap metadata n { u₁ with firmware := f } := by
  simp only [exitLoop, hcapture, hs₁, hexit, hs, hn, Bool.not_true, Bool.false_eq_true, if_false]

end

theorem efiMain_of {fw : BootFirmware F} {u u₁ u₂ u₃ : Loader F} {sum : Elf64.Summary} {seg : Elf64.LoadSegment}
    {p : Prepared} {raw cap : UInt64} {s : EfiStatus} (hboot : fw.hasBootServices = true)
    (hprep : prepare fw sum seg (say "JOSHUEFI_ENTRY_OK\r\n" u) = (.ok p, u₁))
    (halloc : allocMap fw u₁ = (.ok (raw, cap), u₂)) (hloop : exitLoop fw raw cap p.metadata 3 u₂ = (s, u₃))
    (hs : efiError s = false) :
    ∃ u', efiMain fw sum seg u = (.handoff p.root p.stack p.entry p.metadata, u') ∧ u'.firmware = u₃.firmware ∧
      u'.mem = u₃.mem := by
  rw [efiMain, hboot]
  simp only [hprep, halloc, hloop, hs, Bool.not_true, Bool.false_eq_true, if_false]
  exact ⟨_, rfl, rfl, rfl⟩

/-! ### A run with two attempts -/

/-- The size of the first map is asked for. -/
def sizeAnswer : MapAnswer := ⟨efiSuccess, 40, 0, 40, fun _ => 0⟩

/-- One descriptor: a mebibyte of conventional memory. -/
def firstAnswer : MapAnswer :=
  ⟨efiSuccess, 40, 1, 40, bytesOf (packBytes [(8, 7), (8, 0x100000), (8, 0), (8, 0x100), (8, 0)])⟩

def tapeLoader (last : MapAnswer) : Loader ((UInt64 × List MapAnswer) × List BootCall) where
  firmware := ((0x400000, [sizeAnswer, firstAnswer, last]), [])
  mem := fun _ => 0
  serial := []
  opened := []
  stored := []

/-- The boot of `tapeLoader`, with whatever the stack slots hold. -/
def tapeBoot (last : MapAnswer) : Outcome × Loader ((UInt64 × List MapAnswer) × List BootCall) :=
  efiMain (traced tapeFirmware) ⟨0, 0, 0, 0⟩ ⟨0, 0, 0, 0, 0, 0⟩ (tapeLoader last)

theorem getMemoryMap_tape {cap free : UInt64} {a : MapAnswer} (ha : a.size ≤ cap) (rest : List MapAnswer)
    (calls : List BootCall) :
    (traced tapeFirmware).getMemoryMap cap ((free, a :: rest), calls) = (a, ((free, rest), .getMemoryMap cap a :: calls)) := by
  simp only [traced, tapeFirmware, if_neg (UInt64.not_lt.2 ha)]

theorem allocMap_tape {answers : List MapAnswer} {u : Loader ((UInt64 × List MapAnswer) × List BootCall)}
    (hu : u.firmware = ((0x436000, sizeAnswer :: answers), [])) :
    ∃ calls u', allocMap (traced tapeFirmware) u = (.ok (0x436000, 4096), u') ∧
      u'.firmware = ((0x437000, answers), calls) := by
  obtain ⟨a, hmap, hstatus, hds, hneed⟩ : ∃ a, (traced tapeFirmware).getMemoryMap 0 u.firmware =
      (a, ((0x436000, answers), [.getMemoryMap 0 a])) ∧ a.status = efiBufferTooSmall ∧ descriptorBytes ≤ a.descriptorSize ∧
      pagesFor (a.size + a.descriptorSize * rawMapExtraDescriptors) = 1 := by
    rw [hu]
    exact ⟨{ sizeAnswer with status := efiBufferTooSmall }, rfl, rfl, by decide, by decide⟩
  have halloc := @allocLow_tape 1 0x436000 answers [.getMemoryMap 0 a]
    { u with firmware := ((0x436000, answers), [.getMemoryMap 0 a]) } rfl (by decide) (by decide)
  rw [show (0x436000 : UInt64) + 1 * 4096 = 0x437000 by decide, ← hneed] at halloc
  have hok := allocMap_of hmap hstatus hds halloc
  rw [hneed, show 1 * pageSize = 4096 by decide] at hok
  exact ⟨_, _, hok, rfl⟩

/-- The boot gets to its second attempt, with the first map in memory. If that attempt succeeds, it is the last one. -/
theorem tapeBoot_second (last : MapAnswer) : ∃ root stack entry info raw calls u, Buffer raw 4096 info ∧
    u.firmware = ((0x437000, [last]), calls) ∧ HandsOver firstAnswer u.mem info ∧
    ∀ u₁ calls', captureMap (traced tapeFirmware) raw 4096 info u = ((efiSuccess, last.key), u₁) →
      u₁.firmware = ((0x437000, []), calls') → ∃ u', tapeBoot last = (.handoff root stack entry info, u') ∧
        u'.firmware.2 = .exitBootServices last.key efiSuccess :: calls' ∧ u'.mem = u₁.mem := by
  obtain ⟨p, u₁, hprep, hfirm₁⟩ := @prepare_tape [sizeAnswer, firstAnswer, last] []
    (say "JOSHUEFI_ENTRY_OK\r\n" (tapeLoader last)) rfl ⟨0, 0, 0, 0⟩ ⟨0, 0, 0, 0, 0, 0⟩
  obtain ⟨calls, u₂, halloc, hfirm₂⟩ := allocMap_tape hfirm₁
  have hbuf := buffer_of_alloc bootServices_tapeFirmware.traced hprep halloc
  have hmap := @getMemoryMap_tape 4096 0x437000 firstAnswer (by decide) [last] calls
  rw [← hfirm₂] at hmap
  obtain ⟨u₃, hcapture, hfirm₃, hover⟩ := captureMap_ok hmap efiError_efiSuccess (by decide) hbuf (by decide)
    (by decide)
  obtain ⟨f, hexit, hf⟩ : ∃ f, (traced tapeFirmware).exitBootServices firstAnswer.key u₃.firmware =
      (efiInvalidParameter, f) ∧ f = ((0x437000, [last]), .exitBootServices firstAnswer.key efiInvalidParameter ::
        .getMemoryMap 4096 firstAnswer :: calls) := by
    rw [hfirm₃]
    exact ⟨_, rfl, rfl⟩
  have hreject := @exitLoop_reject _ _ 0x436000 4096 p.metadata 2 u₂ u₃ _ _ _ _ hcapture efiError_efiSuccess hexit (by decide)
    (by decide)
  refine ⟨p.root, p.stack, p.entry, p.metadata, 0x436000, _, { u₃ with firmware := f }, hbuf, hf, hover,
    fun u₄ calls' hcapture' hfirm₄ => ?_⟩
  have hexit' : (traced tapeFirmware).exitBootServices last.key u₄.firmware =
      (efiSuccess, ((0x437000, []), .exitBootServices last.key efiSuccess :: calls')) := by
    rw [hfirm₄]
    rfl
  rw [exitLoop_accept hcapture' efiError_efiSuccess hexit' efiError_efiSuccess] at hreject
  obtain ⟨u', hmain, hfirm, hmem⟩ := efiMain_of rfl hprep halloc hreject efiError_efiSuccess
  exact ⟨u', hmain, by rw [hfirm], hmem⟩

theorem Accepted.unique {key cap : UInt64} {s : EfiStatus} {a a' : MapAnswer} {earlier : List BootCall}
    (h : Accepted (.exitBootServices key s :: .getMemoryMap cap a :: earlier) a') : a' = a := by
  obtain ⟨cap', s', earlier', hcalls, -, -⟩ := h
  cases hcalls
  rfl

/-- An answer without descriptors, which says that they have `d` bytes. -/
def shortAnswer (d : UInt64) : MapAnswer := ⟨efiSuccess, 0, 2, d, fun _ => 0⟩

theorem tapeBoot_short {d : UInt64} (hd : d < descriptorBytes) : ∃ root stack entry info u',
    tapeBoot (shortAnswer d) = (.handoff root stack entry info, u') ∧
    ∀ a, Accepted u'.firmware.2 a → a.descriptorSize = d ∧ ¬ HandsOver a u'.mem info := by
  obtain ⟨root, stack, entry, info, raw, calls, u, -, hfirm, hover, hrun⟩ := tapeBoot_second (shortAnswer d)
  have hmap := @getMemoryMap_tape 4096 0x437000 (shortAnswer d) (show (0 : UInt64) ≤ 4096 by decide) [] calls
  rw [← hfirm] at hmap
  have hcapture := @captureMap_short _ raw 4096 info (traced tapeFirmware) u _ _ hmap efiError_efiSuccess hd
  obtain ⟨u', hmain, hcalls, hmem⟩ := hrun _ _ hcapture rfl
  refine ⟨root, stack, entry, info, u', hmain, fun a ha => ?_⟩
  rw [hcalls] at ha
  obtain rfl := ha.unique
  refine ⟨rfl, fun hshort => ?_⟩
  -- nothing was written to the buffer
  have hkept : u'.mem = u.mem := by
    rw [hmem]
    funext i
    exact if_neg fun hin => absurd hin.2 (Nat.not_lt.2 hin.1)
  have hempty : (shortAnswer d).descriptors = [] := by
    rw [MapAnswer.descriptors, shortAnswer]
    simp
  have hmaps := hshort.map
  rw [hkept, hover.map, hempty] at hmaps
  have hone : (translation firstAnswer.descriptors).length = 1 := by decide
  rw [hmaps] at hone
  cases hone

theorem tapeBoot_full {last : MapAnswer} (hstatus : last.status = efiSuccess) (hsize : last.size ≤ 4096)
    (hds : descriptorBytes ≤ last.descriptorSize) (hbound : (translation last.descriptors).length ≤ maxMemoryEntries) :
    ∃ root stack entry info u', tapeBoot last = (.handoff root stack entry info, u') ∧
      ∀ a, Accepted u'.firmware.2 a → a = last := by
  obtain ⟨root, stack, entry, info, raw, calls, u, hbuf, hfirm, -, hrun⟩ := tapeBoot_second last
  have hmap := @getMemoryMap_tape 4096 0x437000 last hsize [] calls
  rw [← hfirm] at hmap
  obtain ⟨u₁, hcapture, hfirm₁, -⟩ := captureMap_ok hmap (by rw [hstatus]; exact efiError_efiSuccess) hds hbuf hsize hbound
  obtain ⟨u', hmain, hcalls, -⟩ := hrun _ _ hcapture hfirm₁
  refine ⟨root, stack, entry, info, u', hmain, fun a ha => ?_⟩
  rw [hcalls] at ha
  exact ha.unique

/-- With descriptors of `d` bytes in the map of the accepted key, every boot that gets to the hand-over hands over the
translation of that map, whatever the earlier attempts were, iff `d` is at least the size of a descriptor. -/
theorem handoff_map_iff (d : UInt64) :
    (∀ {F : Type} (fw : BootFirmware F) (held : F → Nat → Prop), BootServices fw held →
      ∀ (sum : Elf64.Summary) (seg : Elf64.LoadSegment) (u u' : Loader (F × List BootCall)) (root stack entry info : UInt64),
        efiMain (traced fw) sum seg u = (.handoff root stack entry info, u') →
        ∃ a, Accepted u'.firmware.2 a ∧ (a.descriptorSize = d → HandsOver a u'.mem info)) ↔
      descriptorBytes ≤ d := by
  constructor
  · intro hall
    by_contra hd
    obtain ⟨root, stack, entry, info, u', hmain, hshort⟩ := tapeBoot_short (UInt64.not_le.1 hd)
    obtain ⟨a, haccepted, hover⟩ := hall tapeFirmware _ bootServices_tapeFirmware _ _ _ u' root stack entry info hmain
    obtain ⟨hsize, hnot⟩ := hshort a haccepted
    exact hnot (hover hsize)
  · intro hd F fw held h sum seg u u' root stack entry info hmain
    obtain ⟨a, haccepted, hover⟩ := efiMain_handoff h hmain
    refine ⟨a, haccepted, fun hsize => hover ?_⟩
    rw [hsize]
    exact hd

/-- Two descriptors of 48 bytes, the first without pages. -/
def grownAnswer : MapAnswer :=
  ⟨efiSuccess, 96, 2, 48, bytesOf (packBytes [(8, 7), (8, 0), (8, 0), (8, 0), (8, 0), (8, 0), (8, 9), (8, 0x200000), (8, 0),
    (8, 2), (8, 0), (8, 0)])⟩

theorem handoff_map_iff_grown : ∃ root stack entry info u', tapeBoot grownAnswer = (.handoff root stack entry info, u') ∧
    memoryMapAt u'.mem info = [⟨0x200000, 0x2000, memoryAcpiReclaimable, 0⟩] := by
  obtain ⟨root, stack, entry, info, u', hmain, hlast⟩ := @tapeBoot_full grownAnswer rfl (by decide) (by decide)
    (by decide)
  obtain ⟨a, haccepted, hover⟩ := (handoff_map_iff 48).mpr (by decide) tapeFirmware _ bootServices_tapeFirmware _ _ _ u' root
    stack entry info hmain
  obtain rfl := hlast a haccepted
  refine ⟨root, stack, entry, info, u', hmain, ?_⟩
  rw [(hover rfl).map]
  decide

/-- A boot whose accepted map has short descriptors hands over another map. -/
theorem stale_map_handed_over : ¬ ∀ {F : Type} (fw : BootFirmware F) (held : F → Nat → Prop), BootServices fw held →
    ∀ (sum : Elf64.Summary) (seg : Elf64.LoadSegment) (u u' : Loader (F × List BootCall)) (root stack entry info : UInt64),
      efiMain (traced fw) sum seg u = (.handoff root stack entry info, u') →
      ∃ a, Accepted u'.firmware.2 a ∧ HandsOver a u'.mem info := by
  intro hall
  obtain ⟨root, stack, entry, info, u', hmain, hshort⟩ := @tapeBoot_short 0 (by decide)
  obtain ⟨a, haccepted, hover⟩ := hall tapeFirmware _ bootServices_tapeFirmware _ _ _ u' root stack entry info hmain
  exact (hshort a haccepted).2 hover

end JoshBios.Uefi
