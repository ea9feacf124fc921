import JoshBios.LoadElf
import JoshBios.UefiKernel
import JoshBios.SlotChain
import JoshBios.FirstAttempt

/-! # Which candidates load

A candidate is accepted when it is a valid ELF64 image. The loaders ask for more, and they ask when the choice has
been made: on the BIOS path every segment has to lie in the window of the kernel, on the UEFI path the image has to
lie in the upper 2 GiB and must not be too long. An image that does not is accepted and then turned down
(`candidate_loads_iff`, `accepted_not_loaded`). -/

namespace JoshBios

open Health (HealthRecord BootSlot)
open Config (BootConfig isSet cString)
open Elf64 (Summary LoadSegment segments)

/-! ### What was accepted -/

theorem Stage2.selectKernel_accepted {S α : Type} (w : SlotWorld S α) (config : BootConfig) (health : HealthRecord)
    (s : S) {slot : BootSlot} {a : α} (h : (selectKernel w config health s).kernel = some (slot, a)) :
    ∃ slot' t, (w.read slot' t).1 = some a := by
  have hrel := selectKernel_rel (w := w) (R := fun s s' => s = s')
    (Q := fun a s s' => s = s' ∧ ∃ slot' t, (w.read slot' t).1 = some a)
    (fun _ _ _ hs => by rw [hs]) (fun _ _ _ _ hs => ⟨by rw [hs.1], hs.2⟩) (fun _ _ _ hs => by rw [hs]) ?_ config health
    (rfl : s = s)
  · rw [h] at hrel
    exact hrel.2.2
  · rintro slot s _ rfl
    refine ⟨rfl, ?_⟩
    cases hr : (w.read slot s).1 with
    | none => exact rfl
    | some b => exact ⟨rfl, slot, s, hr⟩

theorem Stage2.readKernelCandidate_valid {D : Type} {drive : BiosDrive D} {fs : Fat32} {path : List UInt8} {s s' : Bios D}
    {size : UInt32} (h : readKernelCandidate drive fs path s = (some size, s')) :
    ∃ sum, Elf64.validateImage (s'.mem.from kernelImageAddr) size.toUInt64 = .ok sum := by
  obtain ⟨-, hnone⟩ | ⟨-, r, m, hsome, hvalid⟩ := readKernelCandidate_cases drive fs path s
  · rw [hnone] at h
    cases h
  · rw [hsome] at h
    cases h
    exact hvalid size rfl

theorem Uefi.readCandidate_valid {F : Type} {fw : Firmware F} {path : List UInt8} {u : Loader F} {image : Bytes}
    {size : UInt64} (h : (readCandidate fw path u).1 = some (some image, size)) :
    ∃ sum, Elf64.validateImage image size = .ok sum := by
  simp only [readCandidate] at h
  split at h
  · cases h
  split at h
  · cases h
  split at h
  · cases h
  split at h
  next hv =>
    cases hr : Elf64.validateImage image size with
    | ok sum => exact ⟨sum, rfl⟩
    | error status =>
      obtain ⟨himage, hsize⟩ := Prod.mk.inj (Option.some.inj h)
      rw [himage, hsize, Elf64.validate_some, hr] at hv
      exact absurd hv (Elf64.validateImage_error hr)
  · cases h

theorem Uefi.loadFiles_valid {F : Type} {fw : Firmware F} {u : Loader F} {config : BootConfig} {image : Bytes}
    {size : UInt64} (h : (loadFiles fw u).1.2 = some (config, some image, size)) :
    ∃ sum, Elf64.validateImage image size = .ok sum := by
  simp only [loadFiles] at h
  split at h
  · cases h
  split at h
  · cases h
  split at h
  · cases h
  split at h
  · cases h
  split at h
  · cases h
  split at h
  · cases h
  next slot image' size' hk =>
    obtain ⟨-, hrest⟩ := Prod.mk.inj (Option.some.inj h)
    obtain ⟨rfl, rfl⟩ := Prod.mk.inj hrest
    rw [uefi_selectKernel_eq] at hk
    obtain ⟨slot', t, ht⟩ := Stage2.selectKernel_accepted _ _ _ _ hk
    exact readCandidate_valid ht

/-! ### Which of them load -/

/-- On the BIOS path a loaded candidate fits the window; one that fits is loaded if it is not placed over its own
headers. -/
theorem Stage2.candidate_loads {D : Type} {s : Bios D} {size : UInt32} {sum : Summary}
    (hv : Elf64.validateImage (s.mem.from kernelImageAddr) size.toUInt64 = .ok sum) :
    ((loadElf size s).1.isSome = true → ∀ p ∈ segments (s.mem.from kernelImageAddr), FitsWindow p) ∧
      ((∀ p ∈ segments (s.mem.from kernelImageAddr), FitsWindow p) → HeadersKept s.mem size →
        (loadElf size s).1.isSome = true) := by
  refine ⟨fun h => ?_, fun hw hk => ?_⟩
  · obtain ⟨sum', hsum⟩ := Option.isSome_iff_exists.1 h
    have hload : loadElf size s = (some sum', (loadElf size s).2) := by rw [← hsum]
    exact (fits_of_loadElf hload).2
  · rw [loadElf_eq hv hw hk]
    rfl

/-- On the UEFI path the limits on the summary are all that counts, once there are pages. -/
theorem Uefi.candidate_loads {F : Type} {fw : Firmware F} {image : Bytes} {size : UInt64} {sum : Summary}
    (hv : Elf64.validateImage image size = .ok sum) (sum₀ : Summary) (seg₀ : LoadSegment) {u : Loader F}
    (hal : efiError (fw.allocatePages (pagesFor (sum.virtualMax - sum.virtualMin)) u.firmware).1 = false) :
    (loadElf fw (some image) size sum₀ seg₀ u).1.1 = efiSuccess ↔ Fits sum := by
  refine ⟨fun h => ?_, fun hfit => ?_⟩
  · by_contra hfit
    exact loadElf_unfit hv hfit sum₀ seg₀ u h
  · have hspan := toNat_span hfit.nonempty
    have hne := hfit.nonempty
    have hpages := toNat_pagesFor (n := sum.virtualMax - sum.virtualMin) (by rw [hspan]; exact hfit.span)
    have hpos : pagesFor (sum.virtualMax - sum.virtualMin) ≠ 0 := by
      intro h0
      rw [h0, hspan, show (0 : UInt64).toNat = 0 from rfl] at hpages
      omega
    rw [loadElf_eq hv hfit, allocLow, if_neg hpos]
    simp only [hal, Bool.false_eq_true, if_false]

theorem bios_candidate_loads {D : Type} {drive : Stage2.BiosDrive D} {fs : Fat32} {path : List UInt8}
    {s s' : Stage2.Bios D} {size : UInt32} (h : Stage2.readKernelCandidate drive fs path s = (some size, s')) :
    ((Stage2.loadElf size s').1.isSome = true →
        ∀ p ∈ segments (s'.mem.from Stage2.kernelImageAddr), Stage2.FitsWindow p) ∧
      ((∀ p ∈ segments (s'.mem.from Stage2.kernelImageAddr), Stage2.FitsWindow p) →
        Stage2.HeadersKept s'.mem size → (Stage2.loadElf size s').1.isSome = true) := by
  obtain ⟨sum, hv⟩ := Stage2.readKernelCandidate_valid h
  exact Stage2.candidate_loads hv

theorem uefi_candidate_loads {F : Type} {fw : Uefi.Firmware F} {u u' : Uefi.Loader F} {config : BootConfig}
    {image : Bytes} {bytes : UInt64}
    (h : Uefi.loadFiles fw u = ((Uefi.efiSuccess, some (config, some image, bytes)), u')) :
    ∃ sum, Elf64.validateImage image bytes = .ok sum ∧
      ∀ (sum₀ : Summary) (seg₀ : LoadSegment) (u₁ : Uefi.Loader F),
        Uefi.efiError (fw.allocatePages (Uefi.pagesFor (sum.virtualMax - sum.virtualMin)) u₁.firmware).1 = false →
          ((Uefi.loadElf fw (some image) bytes sum₀ seg₀ u₁).1.1 = Uefi.efiSuccess ↔ Uefi.Fits sum) := by
  have haccepted : (Uefi.loadFiles fw u).1.2 = some (config, some image, bytes) := by rw [h]
  obtain ⟨sum, hv⟩ := Uefi.loadFiles_valid haccepted
  exact ⟨sum, hv, fun sum₀ seg₀ u₁ hal => Uefi.candidate_loads hv sum₀ seg₀ hal⟩

/-- Which candidates load, on either path. -/
theorem candidate_loads_iff {D F : Type} (drive : Stage2.BiosDrive D) (fw : Uefi.Firmware F) :
    (∀ (fs : Fat32) (path : List UInt8) (s s' : Stage2.Bios D) (size : UInt32),
      Stage2.readKernelCandidate drive fs path s = (some size, s') →
        ((Stage2.loadElf size s').1.isSome = true →
          ∀ p ∈ segments (s'.mem.from Stage2.kernelImageAddr), Stage2.FitsWindow p) ∧
        ((∀ p ∈ segments (s'.mem.from Stage2.kernelImageAddr), Stage2.FitsWindow p) →
          Stage2.HeadersKept s'.mem size → (Stage2.loadElf size s').1.isSome = true)) ∧
    ∀ (u u' : Uefi.Loader F) (config : BootConfig) (image : Bytes) (bytes : UInt64),
      Uefi.loadFiles fw u = ((Uefi.efiSuccess, some (config, some image, bytes)), u') →
        ∃ sum, Elf64.validateImage image bytes = .ok sum ∧
          ∀ (sum₀ : Summary) (seg₀ : LoadSegment) (u₁ : Uefi.Loader F),
            Uefi.efiError (fw.allocatePages (Uefi.pagesFor (sum.virtualMax - sum.virtualMin)) u₁.firmware).1 = false →
              ((Uefi.loadElf fw (some image) bytes sum₀ seg₀ u₁).1.1 = Uefi.efiSuccess ↔ Uefi.Fits sum) :=
  ⟨fun _ _ _ _ _ h => bios_candidate_loads h, fun _ _ _ _ _ h => uefi_candidate_loads h⟩

/-! ### One kernel for both paths -/

def sampleKernel (vaddr : Nat) : List UInt8 := Elf64.oneSegment vaddr [1, 2, 3, 4] 8

/-- A volume with the file `/kernel.elf`, in the cluster after the root directory. -/
def kernelDisk (image : List UInt8) : Stage2.Sectors := fun lba =>
  if lba = 2561 then
    bytesOf (Config.ascii "KERNEL  ELF" ++
      packBytes [(1, 0x20), (8, 0), (2, 0), (4, 0), (2, 3), (4, image.length)])
  else if lba = 2562 then bytesOf image
  else fun _ => 0

def readSample (image : List UInt8) : Option UInt32 × Stage2.Bios Stage2.Sectors :=
  Stage2.readKernelCandidate Stage2.plainDrive Fat32.smallVolume (Config.ascii "/kernel.elf")
    { Stage2.freshBios with drive := kernelDisk image }

/-- A firmware with a configuration file, whose name ends in `G`, and a kernel. -/
def twoFileFirmware (text image : List UInt8) : Uefi.Firmware UInt64 :=
  let file (n : Nat) := if n = 0 then text else image
  { Uefi.oneFileFirmware (bytesOf image) 0 with
    openFile := fun path f => (Uefi.efiSuccess, some (if path.getLast? = some 0x47 then 0 else 1), f)
    getInfo := fun n _ f => (Uefi.efiSuccess, bytesOf (packBytes [(8, 80), (8, (file n).length)]), f)
    readBytes := fun n size f => (Uefi.efiSuccess, size, bytesOf (file n), f) }

def sampleFirmware (image : List UInt8) : Uefi.Firmware UInt64 := twoFileFirmware loneKernelText image

/-- The summary of the image among the answers of `load_files`. -/
def acceptedSummary (files : Option (BootConfig × Option Bytes × UInt64)) : Option Summary := do
  let (_, image, size) ← files
  let image ← image
  (Elf64.validateImage image size).toOption

theorem acceptedSummary_some {files : Option (BootConfig × Option Bytes × UInt64)} {sum : Summary}
    (h : acceptedSummary files = some sum) :
    ∃ config image size, files = some (config, some image, size) ∧ Elf64.validateImage image size = .ok sum := by
  obtain ⟨⟨config, image, size⟩, hfiles, h⟩ := Option.bind_eq_some_iff.1 h
  obtain ⟨image', himage, h⟩ := Option.bind_eq_some_iff.1 h
  cases hv : Elf64.validateImage image' size with
  | error status =>
    rw [hv] at h
    cases h
  | ok sum' =>
    rw [hv] at h
    cases h
    exact ⟨config, image', size, by rw [hfiles, ← himage], hv⟩

theorem candidate_loads_iff_pair :
    (readSample Stage2.pairKernel).1 = some 183 ∧
    (Stage2.loadElf 183 (readSample Stage2.pairKernel).2).1.isSome = true ∧
    ∃ config image size u',
      Uefi.loadFiles (sampleFirmware Stage2.pairKernel) Uefi.freshLoader =
        ((Uefi.efiSuccess, some (config, some image, size)), u') ∧
      (Uefi.loadElf (sampleFirmware Stage2.pairKernel) (some image) size ⟨0, 0, 0, 0⟩ ⟨0, 0, 0, 0, 0, 0⟩ u').1.1 =
        Uefi.efiSuccess := by
  obtain ⟨hsize, hsegments⟩ : (readSample Stage2.pairKernel).1 = some 183 ∧
      segments ((readSample Stage2.pairKernel).2.mem.from Stage2.kernelImageAddr) =
        [⟨1, 5, 176, 0xffffffff80000000, 4, 4, 1⟩, ⟨1, 6, 180, 0xffffffff80001000, 3, 8, 1⟩] := by
    decide +kernel
  have hbios : readSample Stage2.pairKernel = (some 183, (readSample Stage2.pairKernel).2) := Prod.fst_eq_iff.1 hsize
  obtain ⟨hst, hsum⟩ :
      (Uefi.loadFiles (sampleFirmware Stage2.pairKernel) Uefi.freshLoader).1.1 = Uefi.efiSuccess ∧
      acceptedSummary (Uefi.loadFiles (sampleFirmware Stage2.pairKernel) Uefi.freshLoader).1.2 =
        some Stage2.pairSummary := by
    decide +kernel
  obtain ⟨config, image, size, hfiles, hv⟩ := acceptedSummary_some hsum
  have huefi : Uefi.loadFiles (sampleFirmware Stage2.pairKernel) Uefi.freshLoader =
      ((Uefi.efiSuccess, some (config, some image, size)),
        (Uefi.loadFiles (sampleFirmware Stage2.pairKernel) Uefi.freshLoader).2) :=
    Prod.fst_eq_iff.1 (Prod.ext hst hfiles)
  obtain ⟨hload, hfiles'⟩ := candidate_loads_iff Stage2.plainDrive (sampleFirmware Stage2.pairKernel)
  obtain ⟨-, hloads⟩ := hload _ _ _ _ _ hbios
  obtain ⟨sum, hv', huefiLoads⟩ := hfiles' _ _ _ _ _ huefi
  have hpages : ∀ n f, Uefi.efiError ((sampleFirmware Stage2.pairKernel).allocatePages n f).1 = false :=
    fun _ _ => Uefi.efiError_efiSuccess
  refine ⟨hsize, hloads ?_ (Stage2.headersKept_of_below ?_), config, image, size, _, huefi,
    (huefiLoads _ _ _ (hpages _ _)).2 ?_⟩
  · rw [hsegments]
    intro p hp
    rcases List.mem_pair.1 hp with rfl | rfl <;> exact ⟨by decide, by decide⟩
  · rw [Stage2.chunks, hsegments]
    decide
  · rw [hv] at hv'
    rw [← Except.ok.inj hv']
    exact ⟨by decide, by decide, by decide⟩

/-- A kernel at 1 MiB is accepted on both paths, and both loaders turn it down. -/
theorem accepted_not_loaded :
    (readSample (sampleKernel 0x100000)).1 = some 124 ∧ (Stage2.loadElf 124 (readSample (sampleKernel 0x100000)).2).1 = none ∧
    ∃ config image size u',
      Uefi.loadFiles (sampleFirmware (sampleKernel 0x100000)) Uefi.freshLoader =
        ((Uefi.efiSuccess, some (config, some image, size)), u') ∧
      (∀ n f, Uefi.efiError ((sampleFirmware (sampleKernel 0x100000)).allocatePages n f).1 = false) ∧
      ∀ sum₀ seg₀ u₁, (Uefi.loadElf (sampleFirmware (sampleKernel 0x100000)) (some image) size sum₀ seg₀ u₁).1.1 ≠ Uefi.efiSuccess := by
  obtain ⟨hsize, hload⟩ : (readSample (sampleKernel 0x100000)).1 = some 124 ∧
      (Stage2.loadElf 124 (readSample (sampleKernel 0x100000)).2).1 = none := by
    decide +kernel
  obtain ⟨hst, hsum⟩ : (Uefi.loadFiles (sampleFirmware (sampleKernel 0x100000)) Uefi.freshLoader).1.1 = Uefi.efiSuccess ∧
      acceptedSummary (Uefi.loadFiles (sampleFirmware (sampleKernel 0x100000)) Uefi.freshLoader).1.2 =
        some (Uefi.smallSummary 0x100000) := by
    decide +kernel
  obtain ⟨config, image, size, hfiles, hv⟩ := acceptedSummary_some hsum
  refine ⟨hsize, hload, config, image, size,
    (Uefi.loadFiles (sampleFirmware (sampleKernel 0x100000)) Uefi.freshLoader).2, Prod.fst_eq_iff.1 (Prod.ext hst hfiles),
    fun _ _ => Uefi.efiError_efiSuccess, ?_⟩
  intro sum₀ seg₀ u₁
  refine Uefi.loadElf_unfit hv (fun hfit => ?_) sum₀ seg₀ u₁
  exact absurd hfit.floor (by decide)

end JoshBios
