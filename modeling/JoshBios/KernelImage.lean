import JoshBios.FatFootprint
import JoshBios.Leftovers

/-! # The image that a kernel path names

`read_kernel_candidate` works on the staging window. What it comes to is a function of the disk and the path:
`kernelImage` is the file's contents, if they can be read, fit into the window and are a valid image. The candidate loads
exactly when there is one, and then it is in the window, whatever was there before (`readKernelCandidate_image`). -/

namespace JoshBios.Stage2

open Health (HealthRecord BootSlot)
open Config (BootConfig isSet cString)

/-- The contents of the file at `path`, when they are a kernel image. -/
def kernelImage (device : BlockDevice) (fs : Fat32) (path : List UInt8) : Option (List UInt8) :=
  if !isSet path then none else
  match Fat32.openPath device fs (cString path) with
  | .error _ => none
  | .ok kernel =>
    if kernel.size = 0 || kernel.size > kernelImageBytes then none else
    let r := Fat32.readFile device fs kernel 0 kernel.size
    if r.status ≠ .ok || r.bytesRead ≠ kernel.size then none else
    match Elf64.validateImage (bytesOf r.out) kernel.size.toUInt64 with
    | .error _ => none
    | .ok _ => some r.out

theorem kernelImage_alike {d d' : BlockDevice} {fs : Fat32} (h : Fat32.Sound d fs)
    (ha : BlockDevice.AlikeOn (Fat32.Sector fs) d d') (path : List UInt8) :
    kernelImage d fs path = kernelImage d' fs path := by
  simp only [kernelImage, Fat32.openPath_alike h ha, Fat32.readFile_alike h ha]

/-- The file behind an image. -/
structure ImageFile (device : BlockDevice) (fs : Fat32) (path image : List UInt8) (kernel : Fat32.File) : Prop where
  opened : Fat32.openPath device fs (cString path) = .ok kernel
  size : image.length = kernel.size.toNat
  fits : kernel.size ≤ kernelImageBytes
  read : (Fat32.readFile device fs kernel 0 kernel.size).status = .ok
  contents : (Fat32.readFile device fs kernel 0 kernel.size).out = image
  is_valid : ∃ summary, Elf64.validateImage (bytesOf image) kernel.size.toUInt64 = .ok summary

theorem kernelImage_some {device : BlockDevice} {fs : Fat32} {path image : List UInt8}
    (h : kernelImage device fs path = some image) : isSet path = true ∧ ∃ kernel, ImageFile device fs path image kernel := by
  unfold kernelImage at h
  split at h
  · cases h
  next hset =>
  split at h
  · cases h
  next kernel hopen =>
  split at h
  · cases h
  next hsize =>
  simp only at h
  split at h
  · cases h
  next hread =>
  split at h
  · cases h
  next summary hvalid =>
  simp only [Bool.or_eq_true, decide_eq_true_iff, not_or, not_not] at hread hsize
  have hlen := Fat32.readFile_out rfl hread.1
  rw [hread.2] at hlen
  cases h
  exact ⟨by simpa using hset, kernel, hopen, hlen, UInt32.not_lt.1 hsize.2, hread.1, rfl, summary, hvalid⟩

theorem ImageFile.length_le {device : BlockDevice} {fs : Fat32} {path image : List UInt8} {kernel : Fat32.File}
    (h : ImageFile device fs path image kernel) : image.length ≤ kernelImageBytes.toNat := by
  rw [h.size]
  exact UInt32.le_iff_toNat_le.1 h.fits

theorem ImageFile.toNat_length {device : BlockDevice} {fs : Fat32} {path image : List UInt8} {kernel : Fat32.File}
    (h : ImageFile device fs path image kernel) : UInt32.ofNat image.length = kernel.size := by
  rw [h.size]
  exact UInt32.ofNat_toNat

theorem write_from_lt (m : Bytes) {image : List UInt8} {i : Nat} (hi : i < image.length) :
    (m.write kernelImageAddr image).from kernelImageAddr i = bytesOf image i := by
  show m.write kernelImageAddr image (kernelImageAddr + i) = image.getD i 0
  rw [Bytes.write_inside m hi, List.getD_eq_getElem image 0 hi]

theorem validateImage_window (m : Bytes) {image : List UInt8} {size : UInt32} (h : image.length = size.toNat) :
    Elf64.validateImage (bytesOf image) size.toUInt64 =
      Elf64.validateImage ((m.write kernelImageAddr image).from kernelImageAddr) size.toUInt64 := by
  refine Elf64.validateImage_congr fun i hi => (write_from_lt m ?_).symm
  have hlt := hi.1
  rw [UInt32.toNat_toUInt64] at hlt
  omega

section Read
variable {D : Type} {drive : BiosDrive D}

/-- What a candidate leaves in memory: nothing outside the window, and in it the image, if there is one. -/
structure CandidateRead (drive : BiosDrive D) (fs : Fat32) (path : List UInt8) (s : Bios D) (r : Option UInt32)
    (s' : Bios D) : Prop where
  size : r = (kernelImage (biosDevice drive s.drive) fs path).map fun image => UInt32.ofNat image.length
  loaded : ∀ image, kernelImage (biosDevice drive s.drive) fs path = some image →
    s' = { s with opened := path :: s.opened, mem := s.mem.write kernelImageAddr image }
  outside : AgreeOn (fun i => ¬ Staging i) s.mem s'.mem
  drive_eq : s'.drive = s.drive

theorem CandidateRead.failed {fs : Fat32} {path : List UInt8} {s s' : Bios D}
    (hnone : kernelImage (biosDevice drive s.drive) fs path = none) (hout : AgreeOn (fun i => ¬ Staging i) s.mem s'.mem)
    (hd : s'.drive = s.drive) : CandidateRead drive fs path s none s' := by
  refine ⟨by rw [hnone]; rfl, fun image h => ?_, hout, hd⟩
  rw [hnone] at h
  cases h

theorem readKernelCandidate_image (fs : Fat32) (path : List UInt8) (s : Bios D) :
    CandidateRead drive fs path s (readKernelCandidate drive fs path s).1 (readKernelCandidate drive fs path s).2 := by
  have hsame : AgreeOn (fun i => ¬ Staging i) s.mem s.mem := fun _ _ => rfl
  -- `kernelImage` makes the same choices
  generalize himage : kernelImage (biosDevice drive s.drive) fs path = image
  have hk := himage
  simp only [kernelImage] at hk
  simp only [readKernelCandidate]
  cases hp : isSet path with
  | false =>
    rw [hp] at hk
    exact .failed (himage.trans hk.symm) hsame rfl
  | true =>
    simp only [hp, Bool.not_true, Bool.false_eq_true, if_false] at hk ⊢
    cases hopen : Fat32.openPath (biosDevice drive s.drive) fs (cString path) with
    | error status =>
      simp only [hopen] at hk
      exact .failed (himage.trans hk.symm) hsame rfl
    | ok kernel =>
      simp only [hopen] at hk ⊢
      cases hsize : (kernel.size = 0 || kernel.size > kernelImageBytes) with
      | true =>
        rw [if_pos hsize] at hk
        exact .failed (himage.trans hk.symm) hsame rfl
      | false =>
        have hfits : kernel.size ≤ kernelImageBytes := by
          simp only [Bool.or_eq_false_iff, decide_eq_false_iff_not] at hsize
          exact UInt32.not_lt.1 hsize.2
        simp only [hsize, Bool.false_eq_true, if_false] at hk ⊢
        have hle := Nat.le_trans (Fat32.readFile_out_le (biosDevice drive s.drive) fs kernel 0 kernel.size)
          (UInt32.le_iff_toNat_le.1 hfits)
        generalize hr : Fat32.readFile (biosDevice drive s.drive) fs kernel 0 kernel.size = r at hk hle ⊢
        have hout : AgreeOn (fun i => ¬ Staging i) s.mem (s.mem.write kernelImageAddr r.out) := by
          intro i hi
          by_cases hlow : i < kernelImageAddr
          · rw [Bytes.write_of_lt _ _ hlow]
          · refine (Bytes.write_of_le _ _ ?_).symm
            by_contra hin
            exact hi ⟨by omega, by omega⟩
        cases hread : (r.status ≠ .ok || r.bytesRead ≠ kernel.size) with
        | true =>
          rw [if_pos hread] at hk
          exact .failed (himage.trans hk.symm) hout rfl
        | false =>
          simp only [hread, Bool.false_eq_true, if_false] at hk ⊢
          simp only [Bool.or_eq_false_iff, decide_eq_false_iff_not, not_not] at hread
          have hlen : r.out.length = kernel.size.toNat := by rw [Fat32.readFile_out hr hread.1, hread.2]
          rw [← validateImage_window s.mem hlen]
          cases hv : Elf64.validateImage (bytesOf r.out) kernel.size.toUInt64 with
          | error status =>
            simp only [hv] at hk
            exact .failed (himage.trans hk.symm) hout rfl
          | ok summary =>
            simp only [hv] at hk
            have hsome := himage.trans hk.symm
            refine ⟨?_, fun image h => ?_, hout, rfl⟩
            · rw [hsome, Option.map_some, hlen, UInt32.ofNat_toNat]
            · obtain rfl : r.out = image := Option.some.inj (hsome.symm.trans h)
              rfl

end Read

end JoshBios.Stage2
