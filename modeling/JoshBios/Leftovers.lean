import JoshBios.SlotLoop
import JoshBios.LoadElf
import JoshBios.ElfFormat

/-! # What an earlier boot left in the staging window

A warm reset keeps memory. The boot looks at the staging window before it has put anything there: if it finds the
magic of an ELF image, it takes what it finds for the kernel, and neither the disk nor the health record has a say.
Without the magic the window does not matter: two runs go through the same states up to the part of the window that
the kernel file did not fill (`Alike`). With the magic on both sides it does not matter only if the two kernels in the
window are the same (`SameKernel`). -/

namespace JoshBios.Stage2

open Health (HealthRecord BootSlot)
open Config (BootConfig isSet cString)
open Elf64 (ProgramHeader Summary segments)

/-- The addresses of the staging window. -/
def Staging (i : Nat) : Prop := kernelImageAddr ≤ i ∧ i < kernelImageAddr + kernelImageBytes.toNat

/-- The addresses that do not depend on what was in the window before, once `n` bytes of it are filled. -/
def Fresh (n i : Nat) : Prop := ¬ Staging i ∨ i < kernelImageAddr + n

section
variable {D : Type} {drive : BiosDrive D}

/-- Two states that differ in memory only, and there not at the addresses in `P`. -/
structure Alike (P : Nat → Prop) (s s' : Bios D) : Prop where
  rest : s' = { s with mem := s'.mem }
  mem : AgreeOn P s.mem s'.mem

theorem Alike.intro {P : Nat → Prop} {s : Bios D} {m : Bytes} (h : AgreeOn P s.mem m) : Alike P s { s with mem := m } :=
  ⟨rfl, h⟩

theorem Alike.elim {P : Nat → Prop} {s s' : Bios D} (h : Alike P s s') : ∃ m, s' = { s with mem := m } ∧ AgreeOn P s.mem m :=
  ⟨s'.mem, h.rest, h.mem⟩

theorem Alike.writes {P : Nat → Prop} {s s' : Bios D} (h : Alike P s s') : s.writes = s'.writes :=
  (congrArg Bios.writes h.rest).symm

theorem Alike.slot {P : Nat → Prop} {s s' : Bios D} (h : Alike P s s') : s.slot = s'.slot :=
  (congrArg Bios.slot h.rest).symm

theorem Alike.say {P : Nat → Prop} {s s' : Bios D} (h : Alike P s s') (message : String) :
    Alike P (say message s) (say message s') := by
  obtain ⟨m, rfl, hm⟩ := h.elim
  exact .intro hm

theorem healthPersist_mem (record : HealthRecord) (s : Bios D) (m : Bytes) :
    healthPersist drive record { s with mem := m } = { healthPersist drive record s with mem := m } := by
  simp only [healthPersist]
  split
  · rfl
  · split <;> rfl

theorem healthPersist_mem_eq (record : HealthRecord) (s : Bios D) : (healthPersist drive record s).mem = s.mem := by
  simp only [healthPersist]
  split
  · rfl
  · split <;> rfl

theorem Alike.healthPersist {P : Nat → Prop} {s s' : Bios D} (h : Alike P s s') (record : HealthRecord) :
    Alike P (healthPersist drive record s) (healthPersist drive record s') := by
  obtain ⟨m, rfl, hm⟩ := h.elim
  rw [healthPersist_mem record s m]
  refine .intro ?_
  rw [healthPersist_mem_eq]
  exact hm

variable (drive) in
theorem bootHealth_mem (layoutSafe : Bool) (s : Bios D) (m : Bytes) :
    bootHealth drive layoutSafe { s with mem := m } =
      ((bootHealth drive layoutSafe s).1, { (bootHealth drive layoutSafe s).2 with mem := m }) ∧
    (bootHealth drive layoutSafe s).2.mem = s.mem := by
  simp only [bootHealth, healthLoad]
  split
  · exact ⟨rfl, rfl⟩
  · split <;> exact ⟨rfl, rfl⟩

/-! ### Choosing a kernel -/

theorem readKernelCandidate_alike (fs : Fat32) (path : List UInt8) {s s' : Bios D}
    (h : Alike (fun i => ¬ Staging i) s s') :
    (readKernelCandidate drive fs path s).1 = (readKernelCandidate drive fs path s').1 ∧
      Both (Alike fun i => ¬ Staging i) (fun n s s' => Alike (Fresh n.toNat) s s' ∧ 64 ≤ n.toNat)
        (readKernelCandidate drive fs path s).1 (readKernelCandidate drive fs path s).2
        (readKernelCandidate drive fs path s').2 := by
  obtain ⟨m, rfl, hm⟩ := h.elim
  simp only [readKernelCandidate]
  cases hp : isSet path with
  | false => exact ⟨rfl, .intro hm⟩
  | true =>
    simp only [Bool.not_true, Bool.false_eq_true, if_false]
    cases hopen : Fat32.openPath (biosDevice drive s.drive) fs (cString path) with
    | error status => exact ⟨rfl, .intro hm⟩
    | ok kernel =>
      simp only
      cases hsize : (kernel.size = 0 || kernel.size > kernelImageBytes) with
      | true => exact ⟨rfl, .intro hm⟩
      | false =>
        simp only [Bool.false_eq_true, if_false]
        generalize hr : Fat32.readFile (biosDevice drive s.drive) fs kernel 0 kernel.size = r
        have hwritten := hm.write kernelImageAddr r.out
        have hout := hwritten.mono fun i (hi : ¬ Staging i) => Or.inl hi
        cases hread : (r.status ≠ .ok || r.bytesRead ≠ kernel.size) with
        | true => exact ⟨rfl, .intro hout⟩
        | false =>
          simp only [Bool.false_eq_true, if_false]
          simp only [Bool.or_eq_false_iff, decide_eq_false_iff_not, not_not] at hread
          -- the file fills the window up to its size, so the runs validate the same image
          have hlen : r.out.length = kernel.size.toNat := by rw [Fat32.readFile_out hr hread.1, hread.2]
          have hsame : ∀ i, Elf64.HeaderByte (Bytes.from (s.mem.write kernelImageAddr r.out) kernelImageAddr)
              kernel.size.toUInt64 i → (s.mem.write kernelImageAddr r.out).from kernelImageAddr i =
                (m.write kernelImageAddr r.out).from kernelImageAddr i := by
            intro i hi
            have hlt : i < kernel.size.toNat := hi.1
            exact hwritten _ (Or.inr ⟨by omega, by omega⟩)
          rw [← Elf64.validateImage_congr hsame]
          cases hv : Elf64.validateImage (Bytes.from (s.mem.write kernelImageAddr r.out) kernelImageAddr)
              kernel.size.toUInt64 with
          | error status => exact ⟨rfl, .intro hout⟩
          | ok sum =>
            refine ⟨rfl, .intro (hwritten.mono ?_), (Elf64.validateImage_ok hv).header.size⟩
            rintro i (hi | hi)
            · exact Or.inl hi
            · by_cases hlow : kernelImageAddr ≤ i
              · exact Or.inr ⟨hlow, by omega⟩
              · exact Or.inl fun hst => hlow hst.1

theorem readBootFiles_accepted {device : BlockDevice} {serial serial' : List String} {files : BootFiles}
    (h : readBootFiles device serial = (some files, serial')) : Config.Accepted files.config := by
  simp only [readBootFiles] at h
  split at h
  · cases h
  split at h
  · cases h
  split at h
  · cases h
  split at h
  · cases h
  split at h
  · cases h
  split at h
  · cases h
  next config hp =>
    cases h
    exact Config.parse_accepted hp

variable (drive) in
/-- Two runs of `load_kernel_file` from states that differ in the window: what it returns, and how the states
differ afterwards. -/
theorem loadKernelFile_alike {s s' : Bios D} (h : Alike (fun i => ¬ Staging i) s s') :
    (loadKernelFile drive s).1 = (loadKernelFile drive s').1 ∧
      ((loadKernelFile drive s).1 = none →
        Alike (fun i => ¬ Staging i) (loadKernelFile drive s).2 (loadKernelFile drive s').2) ∧
      ∀ n config, (loadKernelFile drive s).1 = some (n, config) →
        Alike (Fresh n.toNat) (loadKernelFile drive s).2 (loadKernelFile drive s').2 ∧ 64 ≤ n.toNat ∧
          Config.Accepted config := by
  obtain ⟨m, rfl, hm⟩ := h.elim
  unfold loadKernelFile
  generalize hf : readBootFiles (biosDevice drive s.drive) s.serial = f
  obtain ⟨files, serial⟩ := f
  cases files with
  | none => exact ⟨rfl, fun _ => .intro hm, nofun⟩
  | some files =>
    have hacc := readBootFiles_accepted hf
    obtain ⟨hb, hbm⟩ := bootHealth_mem drive files.layoutSafe { s with serial } m
    have hstart : Alike (fun i => ¬ Staging i) (bootHealth drive files.layoutSafe { s with serial }).2
        { (bootHealth drive files.layoutSafe { s with serial }).2 with mem := m } := .intro (by rwa [hbm])
    simp only at hb ⊢
    rw [hb]
    obtain ⟨hsame, hrel⟩ := selectKernel_rel (w := biosWorld drive files.fs files.config)
      (fun message s s' h => h.say message) (fun message n s s' h => ⟨h.1.say message, h.2⟩)
      (fun record s s' h => h.healthPersist record)
      (fun slot s s' h => readKernelCandidate_alike files.fs (kernelPathForSlot files.config slot) h)
      files.config (bootHealth drive files.layoutSafe { s with serial }).1 hstart
    simp only
    generalize selectKernel (biosWorld drive files.fs files.config) files.config _ _ = r at hsame hrel ⊢
    generalize selectKernel (biosWorld drive files.fs files.config) files.config _ _ = r' at hsame hrel ⊢
    obtain ⟨kernel, health, t⟩ := r
    obtain ⟨kernel', health', t'⟩ := r'
    cases (show kernel = kernel' from hsame)
    cases kernel with
    | none => exact ⟨rfl, fun _ => hrel, nofun⟩
    | some k =>
      obtain ⟨slot, n⟩ := k
      obtain ⟨halike, hn⟩ := hrel
      refine ⟨rfl, nofun, ?_⟩
      rintro n' config ⟨⟩
      obtain ⟨m', rfl, hm'⟩ := halike.elim
      exact ⟨.intro hm', hn, hacc⟩

/-! ### Loading it -/

/-- The addresses in `P` and those that the loader has filled. -/
def Filled (P : Nat → Prop) (loaded : List (Nat × Nat)) (i : Nat) : Prop :=
  P i ∨ ∃ range ∈ loaded, range.1 ≤ i ∧ i < range.1 + range.2

theorem loadElfLoop_alike {P : Nat → Prop} {imageBytes : UInt32} (hP : ∀ j < imageBytes.toNat, P (kernelImageAddr + j))
    (n : Nat) (i : UInt16) {s s' : Bios D} (h : Alike (Filled P s.loaded) s s') :
    (loadElfLoop imageBytes n i s).1 = (loadElfLoop imageBytes n i s').1 ∧
      Alike (Filled P (loadElfLoop imageBytes n i s).2.loaded) (loadElfLoop imageBytes n i s).2
        (loadElfLoop imageBytes n i s').2 := by
  induction n generalizing i s s' with
  | zero => exact ⟨rfl, h⟩
  | succ n ih =>
    obtain ⟨m, rfl, hm⟩ := h.elim
    have hcongr : Elf64.loadSegmentOf (s.mem.from kernelImageAddr) imageBytes.toUInt64 i =
        Elf64.loadSegmentOf (m.from kernelImageAddr) imageBytes.toUInt64 i := by
      refine Elf64.loadSegmentOf_congr (fun j hj => ?_) i
      exact hm _ (Or.inl (hP j hj.1))
    cases hseg : Elf64.loadSegmentOf (s.mem.from kernelImageAddr) imageBytes.toUInt64 i with
    | error status =>
      rw [hseg] at hcongr
      simp only [loadElfLoop, hseg, ← hcongr]
      exact ⟨trivial, .intro hm⟩
    | ok segment =>
      obtain ⟨p, rfl, hok, -⟩ := Elf64.loadSegmentOf_ok hseg
      have hseg' : Elf64.loadSegmentOf (Bytes.from { s with mem := m }.mem kernelImageAddr) imageBytes.toUInt64 i =
          .ok p.loadSegment := hcongr.symm.trans hseg
      by_cases hw : FitsWindow p
      · rw [loadElfLoop_fits hseg hok hw, loadElfLoop_fits hseg' hok hw]
        refine ih _ (.intro ?_)
        have hinside : p.offset.toNat + p.filesz.toNat ≤ imageBytes.toNat := hok.inside
        have hfile := hok.file_le
        refine (Chunk.agreeOn_place hm (segmentChunk p) fun j hj => Or.inl ?_).mono ?_
        · obtain ⟨k, rfl⟩ := Nat.exists_eq_add_of_le hj.1
          have hk := hj.2
          simp only [segmentChunk] at hk ⊢
          rw [Nat.add_assoc]
          exact hP _ (by omega)
        · rintro j (hj | ⟨range, hmem, hj⟩)
          · exact Or.inl (Or.inl hj)
          · rcases List.mem_cons.1 hmem with rfl | hmem
            · refine Or.inr ⟨hj.1, ?_⟩
              have hlt := hj.2
              simp only [segmentChunk] at hlt ⊢
              omega
            · exact Or.inl (Or.inr ⟨range, hmem, hj⟩)
      · rw [loadElfLoop_unfit hseg hw, loadElfLoop_unfit hseg' hw]
        exact ⟨rfl, .intro hm⟩

theorem loadElf_alike {P : Nat → Prop} {imageBytes : UInt32} (hP : ∀ j < imageBytes.toNat, P (kernelImageAddr + j))
    {s s' : Bios D} (h : Alike (Filled P s.loaded) s s') :
    (loadElf imageBytes s).1 = (loadElf imageBytes s').1 ∧
      Alike (Filled P (loadElf imageBytes s).2.loaded) (loadElf imageBytes s).2 (loadElf imageBytes s').2 := by
  obtain ⟨m, rfl, hm⟩ := h.elim
  have hcongr : Elf64.validateImage (s.mem.from kernelImageAddr) imageBytes.toUInt64 =
      Elf64.validateImage (m.from kernelImageAddr) imageBytes.toUInt64 :=
    Elf64.validateImage_congr fun j hj => hm _ (Or.inl (hP j hj.1))
  unfold loadElf
  simp only [← hcongr]
  cases Elf64.validateImage (s.mem.from kernelImageAddr) imageBytes.toUInt64 with
  | error status => exact ⟨rfl, .intro hm⟩
  | ok sum =>
    simp only
    split
    · exact ⟨rfl, .intro hm⟩
    split
    · exact ⟨rfl, .intro hm⟩
    obtain ⟨hsame, halike⟩ := loadElfLoop_alike hP sum.loadSegmentCount.toNat 0 h
    generalize loadElfLoop imageBytes sum.loadSegmentCount.toNat 0 s = r at hsame halike ⊢
    generalize loadElfLoop imageBytes sum.loadSegmentCount.toNat 0 _ = r' at hsame halike ⊢
    obtain ⟨ok, t⟩ := r
    obtain ⟨ok', t'⟩ := r'
    cases (show ok = ok' from hsame)
    cases ok <;> exact ⟨rfl, halike⟩

/-- What the loader leaves alone, and where the ranges are that it fills. -/
structure LoadFrame (s s' : Bios D) : Prop where
  writes : s'.writes = s.writes
  slot : s'.slot = s.slot
  above : ∀ range ∈ s'.loaded, range ∈ s.loaded ∨ 0x60000 ≤ range.1

theorem loadElfLoop_frame (imageBytes : UInt32) (n : Nat) (i : UInt16) (s : Bios D) :
    LoadFrame s (loadElfLoop imageBytes n i s).2 := by
  induction n generalizing i s with
  | zero => exact ⟨rfl, rfl, fun _ h => Or.inl h⟩
  | succ n ih =>
    cases hseg : Elf64.loadSegmentOf (s.mem.from kernelImageAddr) imageBytes.toUInt64 i with
    | error status =>
      simp only [loadElfLoop, hseg]
      exact ⟨rfl, rfl, fun _ h => Or.inl h⟩
    | ok segment =>
      obtain ⟨p, rfl, hok, -⟩ := Elf64.loadSegmentOf_ok hseg
      by_cases hw : FitsWindow p
      · rw [loadElfLoop_fits hseg hok hw]
        have hrec := ih (i + 1)
          { s with mem := Chunk.place s.mem (segmentChunk p), loaded := (physOf p, p.memsz.toNat) :: s.loaded }
        refine ⟨hrec.writes, hrec.slot, fun range hr => ?_⟩
        rcases hrec.above range hr with hmem | hge
        · rcases List.mem_cons.1 hmem with rfl | hmem
          · refine Or.inr ?_
            show 0x60000 ≤ 0x200000 + (p.vaddr.toNat - kernelVirtBase.toNat)
            omega
          · exact Or.inl hmem
        · exact Or.inr hge
      · rw [loadElfLoop_unfit hseg hw]
        exact ⟨rfl, rfl, fun _ h => Or.inl h⟩

theorem loadElf_frame (imageBytes : UInt32) (s : Bios D) : LoadFrame s (loadElf imageBytes s).2 := by
  have hloop := fun n => loadElfLoop_frame imageBytes n 0 s
  unfold loadElf
  split
  · exact ⟨rfl, rfl, fun _ h => Or.inl h⟩
  next sum _ =>
    split
    · exact ⟨rfl, rfl, fun _ h => Or.inl h⟩
    split
    · exact ⟨rfl, rfl, fun _ h => Or.inl h⟩
    have h := hloop sum.loadSegmentCount.toNat
    generalize loadElfLoop imageBytes sum.loadSegmentCount.toNat 0 s = r at h
    obtain ⟨ok, t⟩ := r
    cases ok <;> exact h

/-! ### The whole boot -/

/-- Two boots that anyone but the memory's earlier owner would call the same. -/
@[mk_iff sameBoot_iff]
structure SameBoot (r r' : Ending × Bios D) : Prop where
  ending : r.1 = r'.1
  writes : r.2.writes = r'.2.writes
  slot : r.2.slot = r'.2.slot
  loaded : r.2.loaded = r'.2.loaded
  bytes : ∀ range ∈ r.2.loaded, ∀ i, range.1 ≤ i → i < range.1 + range.2 → r.2.mem i = r'.2.mem i

/-- Two images that `load_elf` turns down, or loads to the same places, with the same bytes and the same entry. -/
@[mk_iff sameLoad_iff]
structure SameLoad (r r' : Option Summary × Bios D) : Prop where
  entry : r.1.map Summary.entry = r'.1.map Summary.entry
  loaded : r.2.loaded = r'.2.loaded
  bytes : ∀ range ∈ r.2.loaded, ∀ i, range.1 ≤ i → i < range.1 + range.2 → r.2.mem i = r'.2.mem i

theorem SameLoad.of_alike {P : Nat → Prop} {r r' : Option Summary × Bios D} (hsame : r.1 = r'.1)
    (h : Alike (Filled P r.2.loaded) r.2 r'.2) : SameLoad r r' := by
  refine ⟨by rw [hsame], by rw [h.rest], fun range hr i h₁ h₂ => ?_⟩
  exact h.mem i (Or.inr ⟨range, hr, h₁, h₂⟩)

theorem handOver_bytes (machine : Machine) (sum : Summary) {config : Option BootConfig}
    (hc : ∀ c ∈ config, c.commandLine.length ≤ 0x1000) (m : Bytes) {i : Nat} (hi : 0x60000 ≤ i) :
    buildPageTables (fillBootInfo machine sum config m) i = m i := by
  rw [buildPageTables_above _ hi, fillBootInfo_above machine sum hc m hi]

theorem handOver_same_iff (machine : Machine) (imageBytes : UInt32) {config : Option BootConfig}
    (hc : ∀ c ∈ config, c.commandLine.length ≤ 0x1000) {s s' : Bios D} (hw : s.writes = s'.writes)
    (hs : s.slot = s'.slot) (hl : s.loaded = []) :
    SameBoot (handOver machine imageBytes config s) (handOver machine imageBytes config s') ↔
      SameLoad (loadElf imageBytes (say "JOSHBOOT_ELF64_DETECTED\n" s))
        (loadElf imageBytes (say "JOSHBOOT_ELF64_DETECTED\n" s')) := by
  have hf := loadElf_frame imageBytes (say "JOSHBOOT_ELF64_DETECTED\n" s)
  have hf' := loadElf_frame imageBytes (say "JOSHBOOT_ELF64_DETECTED\n" s')
  unfold handOver
  generalize loadElf imageBytes (say "JOSHBOOT_ELF64_DETECTED\n" s) = r at hf ⊢
  generalize loadElf imageBytes (say "JOSHBOOT_ELF64_DETECTED\n" s') = r' at hf' ⊢
  obtain ⟨sum, t⟩ := r
  obtain ⟨sum', t'⟩ := r'
  have hwrites : t.writes = t'.writes := by rw [hf.writes, hf'.writes]; exact hw
  have hslot : t.slot = t'.slot := by rw [hf.slot, hf'.slot]; exact hs
  have habove : ∀ range ∈ t.loaded, 0x60000 ≤ range.1 := by
    intro range hr
    refine (hf.above range hr).resolve_left fun h => ?_
    rw [show (say "JOSHBOOT_ELF64_DETECTED\n" s).loaded = [] from hl] at h
    cases h
  cases sum with
  | none =>
    cases sum' with
    | none =>
      exact ⟨fun h => ⟨rfl, h.loaded, h.bytes⟩, fun h => ⟨rfl, hwrites, hslot, h.loaded, h.bytes⟩⟩
    | some sum' =>
      constructor
      · intro h
        cases h.ending
      · intro h
        cases h.entry
  | some sum =>
    cases sum' with
    | none =>
      constructor
      · intro h
        cases h.ending
      · intro h
        cases h.entry
    | some sum' =>
      have hkeep := fun i (hi : 0x60000 ≤ i) => handOver_bytes machine sum hc t.mem hi
      have hkeep' := fun i (hi : 0x60000 ≤ i) => handOver_bytes machine sum' hc t'.mem hi
      simp only [sameBoot_iff, sameLoad_iff, say, hwrites, hslot, true_and, Ending.handoff.injEq, Option.map_some,
        Option.some.injEq]
      refine and_congr_right fun _ => and_congr_right fun _ => ?_
      refine forall_congr' fun range => forall_congr' fun hr => forall_congr' fun i => forall_congr' fun h₁ => ?_
      have hi := habove range hr
      rw [hkeep i (by omega), hkeep' i (by omega)]

/-- The part of `stage2_pm_main` for a window without the magic. -/
def fileBoot (drive : BiosDrive D) (machine : Machine) (s : Bios D) : Ending × Bios D :=
  match loadKernelFile drive (say "JOSHBOOT_FS_LOAD_BEGIN\n" s) with
  | (none, s) => halt "JOSHBOOT_ERROR_FILESYSTEM_LOAD\n" s
  | (some (imageBytes, config), s) =>
    if !hasElfMagic s.mem then halt "JOSHBOOT_ERROR_KERNEL_NOT_ELF\n" s
    else handOver machine imageBytes (some config) s

theorem stage2PmMain_eq {machine : Machine} (hfs : machine.filesystemBoot = true) (s : Bios D) :
    stage2PmMain drive machine s =
      if !cpuHasLongMode machine then halt "JOSHBOOT_ERROR_CPU_LONG_MODE\n" s
      else if !stagingRangeIsUsable machine s.mem then
        halt "JOSHBOOT_ERROR_STAGING_MEMORY\n" (say "JOSHBOOT_CPU_LONG_MODE_OK\n" s)
      else if hasElfMagic s.mem then handOver machine kernelImageBytes none (say "JOSHBOOT_CPU_LONG_MODE_OK\n" s)
      else fileBoot drive machine (say "JOSHBOOT_CPU_LONG_MODE_OK\n" s) := by
  unfold stage2PmMain
  simp only [hfs, Bool.true_and, Bool.not_true, Bool.false_eq_true, if_false]
  rfl

theorem readKernelCandidate_loaded (fs : Fat32) (path : List UInt8) (s : Bios D) :
    (readKernelCandidate drive fs path s).2.loaded = s.loaded := by
  obtain ⟨-, h⟩ | ⟨-, r, m, h, -⟩ := readKernelCandidate_cases drive fs path s
  · rw [h]
  · rw [h]

theorem loadKernelFile_loaded (s : Bios D) : (loadKernelFile drive s).2.loaded = s.loaded := by
  unfold loadKernelFile
  generalize readBootFiles (biosDevice drive s.drive) s.serial = f
  obtain ⟨files, serial⟩ := f
  cases files with
  | none => rfl
  | some files =>
    have hstart : (bootHealth drive files.layoutSafe { s with serial }).2.loaded = s.loaded := by
      simp only [bootHealth, healthLoad]
      split
      · rfl
      · split <;> rfl
    have hworld := selectKernel_keeps (w := biosWorld drive files.fs files.config)
      (I := fun t => t.loaded = s.loaded) (fun _ _ h => h)
      (fun record t h => by
        simp only [biosWorld, healthPersist]
        split
        · exact h
        · split <;> exact h)
      (fun slot t h => (readKernelCandidate_loaded files.fs _ t).trans h) files.config
      (bootHealth drive files.layoutSafe { s with serial }).1 hstart
    simp only
    split <;> exact hworld

theorem Alike.sameBoot_halt {P : Nat → Prop} {s s' : Bios D} (h : Alike P s s') (hl : s.loaded = []) (error : String) :
    SameBoot (halt error s) (halt error s') := by
  obtain ⟨m, rfl, -⟩ := h.elim
  refine ⟨rfl, rfl, rfl, rfl, fun range hr => ?_⟩
  rw [show (halt error s).2.loaded = [] from hl] at hr
  cases hr

/-- Without the magic, what was in the window before makes no difference. -/
theorem fileBoot_same (machine : Machine) {s s' : Bios D} (h : Alike (fun i => ¬ Staging i) s s')
    (hl : s.loaded = []) : SameBoot (fileBoot drive machine s) (fileBoot drive machine s') := by
  obtain ⟨hsame, hnone, hsome⟩ := loadKernelFile_alike drive (h.say "JOSHBOOT_FS_LOAD_BEGIN\n")
  have hloaded : (loadKernelFile drive (say "JOSHBOOT_FS_LOAD_BEGIN\n" s)).2.loaded = [] := by
    rw [loadKernelFile_loaded]
    exact hl
  unfold fileBoot
  generalize loadKernelFile drive (say "JOSHBOOT_FS_LOAD_BEGIN\n" s) = r at hsame hnone hsome hloaded ⊢
  generalize loadKernelFile drive (say "JOSHBOOT_FS_LOAD_BEGIN\n" s') = r' at hsame hnone hsome ⊢
  obtain ⟨k, t⟩ := r
  obtain ⟨k', t'⟩ := r'
  cases (show k = k' from hsame)
  cases k with
  | none => exact (hnone rfl).sameBoot_halt hloaded _
  | some k =>
    obtain ⟨n, config⟩ := k
    obtain ⟨halike, hn, hacc⟩ := hsome n config rfl
    have hfresh : ∀ j < n.toNat, Fresh n.toNat (kernelImageAddr + j) := fun j hj => Or.inr (by omega)
    have hmagic : hasElfMagic t'.mem = hasElfMagic t.mem := by
      have hb : ∀ j < 4, t.mem (kernelImageAddr + j) = t'.mem (kernelImageAddr + j) := fun j hj =>
        halike.mem _ (hfresh j (by omega))
      have h0 := hb 0 (by omega)
      rw [Nat.add_zero] at h0
      simp only [hasElfMagic, h0, hb 1 (by omega), hb 2 (by omega), hb 3 (by omega)]
    simp only [hmagic]
    cases hasElfMagic t.mem with
    | false => exact halike.sameBoot_halt hloaded _
    | true =>
      have hc : ∀ c ∈ some config, c.commandLine.length ≤ 0x1000 := by
        rintro c ⟨⟩
        rw [hacc.commandLine]
        decide
      have hstart : Alike (Filled (Fresh n.toNat) (say "JOSHBOOT_ELF64_DETECTED\n" t).loaded)
          (say "JOSHBOOT_ELF64_DETECTED\n" t) (say "JOSHBOOT_ELF64_DETECTED\n" t') := by
        refine ⟨(halike.say _).rest, halike.mem.mono ?_⟩
        rintro i (hi | ⟨range, hr, -⟩)
        · exact hi
        · rw [show (say "JOSHBOOT_ELF64_DETECTED\n" t).loaded = [] from hloaded] at hr
          cases hr
      obtain ⟨hsum, hload⟩ := loadElf_alike hfresh hstart
      exact (handOver_same_iff machine n hc halike.writes halike.slot hloaded).2 (.of_alike hsum hload)

/-! ### A boot from a leftover -/

theorem loadElfLoop_serial (imageBytes : UInt32) (n : Nat) (i : UInt16) (s : Bios D) (serial : List String) :
    loadElfLoop imageBytes n i { s with serial } =
      ((loadElfLoop imageBytes n i s).1, { (loadElfLoop imageBytes n i s).2 with serial }) := by
  induction n generalizing i s with
  | zero => rfl
  | succ n ih =>
    simp only [loadElfLoop]
    split
    · rfl
    split
    · rfl
    split
    · rfl
    · rw [← ih]

theorem loadElf_serial (imageBytes : UInt32) (s : Bios D) (serial : List String) :
    loadElf imageBytes { s with serial } = ((loadElf imageBytes s).1, { (loadElf imageBytes s).2 with serial }) := by
  simp only [loadElf]
  split
  · rfl
  split
  · rfl
  split
  · rfl
  rw [loadElfLoop_serial]
  generalize loadElfLoop imageBytes _ 0 s = r
  obtain ⟨ok, t⟩ := r
  cases ok <;> rfl

theorem handOver_facts (machine : Machine) (imageBytes : UInt32) (config : Option BootConfig) (s : Bios D) :
    (handOver machine imageBytes config s).1 ≠ .halted "JOSHBOOT_ERROR_FILESYSTEM_LOAD\n" ∧
      (handOver machine imageBytes config s).2.slot = s.slot := by
  have hf := loadElf_frame imageBytes (say "JOSHBOOT_ELF64_DETECTED\n" s)
  unfold handOver
  generalize loadElf imageBytes (say "JOSHBOOT_ELF64_DETECTED\n" s) = r at hf
  obtain ⟨sum, t⟩ := r
  cases sum with
  | none => exact ⟨by simp [halt], hf.slot⟩
  | some sum =>
    refine ⟨nofun, ?_⟩
    simp only [say]
    exact hf.slot

theorem loadKernelFile_slot {s : Bios D} {k : UInt32 × BootConfig} (h : (loadKernelFile drive s).1 = some k) :
    (loadKernelFile drive s).2.slot ≠ none := by
  unfold loadKernelFile at h ⊢
  generalize readBootFiles (biosDevice drive s.drive) s.serial = f at h ⊢
  obtain ⟨files, serial⟩ := f
  cases files with
  | none => cases h
  | some files =>
    simp only at h ⊢
    generalize selectKernel (biosWorld drive files.fs files.config) files.config _ _ = r at h ⊢
    obtain ⟨kernel, health, t⟩ := r
    cases kernel with
    | none => cases h
    | some kernel => exact nofun

variable (drive) in
theorem fileBoot_facts (machine : Machine) (s : Bios D) :
    (fileBoot drive machine s).1 = .halted "JOSHBOOT_ERROR_FILESYSTEM_LOAD\n" ∨
      (fileBoot drive machine s).2.slot ≠ none := by
  have hslot : ∀ k, (loadKernelFile drive (say "JOSHBOOT_FS_LOAD_BEGIN\n" s)).1 = some k →
      (loadKernelFile drive (say "JOSHBOOT_FS_LOAD_BEGIN\n" s)).2.slot ≠ none := fun k h => loadKernelFile_slot h
  unfold fileBoot
  generalize loadKernelFile drive (say "JOSHBOOT_FS_LOAD_BEGIN\n" s) = r at hslot
  obtain ⟨k, t⟩ := r
  cases k with
  | none => exact Or.inl rfl
  | some k =>
    refine Or.inr ?_
    have ht : t.slot ≠ none := hslot k rfl
    simp only
    split
    · exact ht
    · rw [(handOver_facts machine k.1 (some k.2) t).2]
      exact ht

theorem handOver_not_fileBoot (machine : Machine) (imageBytes : UInt32) (config : Option BootConfig) {s s' : Bios D}
    (hs : s.slot = none) :
    ¬ SameBoot (handOver machine imageBytes config s) (fileBoot drive machine s') := by
  obtain ⟨hending, hslot⟩ := handOver_facts machine imageBytes config s
  intro h
  rcases fileBoot_facts drive machine s' with hf | hf
  · exact hending (h.ending.trans hf)
  · refine hf ?_
    rw [← h.slot, hslot, hs]

theorem SameBoot.symm {r r' : Ending × Bios D} (h : SameBoot r r') : SameBoot r' r := by
  refine ⟨h.ending.symm, h.writes.symm, h.slot.symm, h.loaded.symm, fun range hr i h₁ h₂ => ?_⟩
  rw [← h.loaded] at hr
  exact (h.bytes range hr i h₁ h₂).symm

theorem stagingRangeIsUsable_congr (machine : Machine) {m m' : Bytes} (h : AgreeOn (fun i => ¬ Staging i) m m') :
    stagingRangeIsUsable machine m = stagingRangeIsUsable machine m' := by
  have hcount := machine.e820Count.toNat_lt
  have hlow : ∀ a n, a + n ≤ kernelImageAddr → leNat m a n = leNat m' a n := fun a n han =>
    leNat_congr fun i _ hi => h i fun hst => by have := hst.1; omega
  unfold stagingRangeIsUsable
  simp only
  rw [Bool.eq_iff_iff, List.any_eq_true, List.any_eq_true]
  refine exists_congr fun i => and_congr_right fun hi => ?_
  have hi' := List.mem_range.1 hi
  have hentry : memoryMapAddr + memoryMapEntrySize * i + 24 ≤ kernelImageAddr := by
    simp only [memoryMapAddr, memoryMapEntrySize, kernelImageAddr]
    omega
  generalize memoryMapAddr + memoryMapEntrySize * i = entry at hentry
  have hbase : le64 m entry = le64 m' entry := by rw [le64, le64, hlow _ _ (by omega)]
  have hlength : le64 m (entry + 8) = le64 m' (entry + 8) := by rw [le64, le64, hlow _ _ (by omega)]
  have htype : le32 m (entry + 16) = le32 m' (entry + 16) := by rw [le32, le32, hlow _ _ (by omega)]
  rw [hbase, hlength, htype]

/-- Two boots with the magic in the window do the same just when the images there load alike. -/
theorem sameBoot_iff_sameLoad {machine : Machine} (hfs : machine.filesystemBoot = true)
    (hlong : cpuHasLongMode machine = true) {s : Bios D} (hl : s.loaded = []) {m : Bytes}
    (husable : stagingRangeIsUsable machine s.mem = true) (husable' : stagingRangeIsUsable machine m = true)
    (hmagic : hasElfMagic s.mem = true) (hmagic' : hasElfMagic m = true) :
    SameBoot (stage2PmMain drive machine s) (stage2PmMain drive machine { s with mem := m }) ↔
      SameLoad (loadElf kernelImageBytes s) (loadElf kernelImageBytes { s with mem := m }) := by
  have hc : ∀ c ∈ (none : Option BootConfig), c.commandLine.length ≤ 0x1000 := by simp
  rw [stage2PmMain_eq hfs, stage2PmMain_eq hfs]
  simp only [hlong, husable, husable', hmagic, hmagic', Bool.not_true, Bool.false_eq_true, if_false, if_true]
  refine (handOver_same_iff machine kernelImageBytes hc ?_ ?_ ?_).trans ?_
  · rfl
  · rfl
  · exact hl
  simp only [say]
  rw [loadElf_serial _ s, loadElf_serial _ { s with mem := m }, sameLoad_iff, sameLoad_iff]

/-! ### Kernels among the leftovers -/

/-- What was left is a kernel for the window of `load_elf`. -/
structure LeftKernel (m : Bytes) : Prop where
  format : Elf64.Format (m.from kernelImageAddr) kernelImageBytes.toNat
  fits : ∀ p ∈ segments (m.from kernelImageAddr), FitsWindow p

/-- Byte `j` of a segment of the image left in `m`: file data, and zeros after them. -/
def leftByte (m : Bytes) (p : ProgramHeader) (j : Nat) : UInt8 :=
  if j < p.filesz.toNat then m (kernelImageAddr + p.offset.toNat + j) else 0

/-- A segment of what was left in `m`, and one of what was left in `m'`. -/
structure SameSegment (m m' : Bytes) (p q : ProgramHeader) : Prop where
  vaddr : p.vaddr = q.vaddr
  memsz : p.memsz = q.memsz
  bytes : ∀ j < p.memsz.toNat, leftByte m p j = leftByte m' q j

/-- The same kernel was left in both, or none in either. -/
structure SameKernel (m m' : Bytes) : Prop where
  kernel : LeftKernel m ↔ LeftKernel m'
  entry : LeftKernel m →
    (Elf64.headerAt (m.from kernelImageAddr)).entry = (Elf64.headerAt (m'.from kernelImageAddr)).entry
  same : LeftKernel m →
    List.Forall₂ (SameSegment m m') (segments (m.from kernelImageAddr)) (segments (m'.from kernelImageAddr))

/-- If a kernel was left, then moving it to its place changes neither its headers before they are read nor its file
data before they are copied. -/
structure MovesCleanly (m : Bytes) : Prop where
  headers : LeftKernel m → HeadersKept m kernelImageBytes
  data : LeftKernel m → Chunk.Kept m (chunks (m.from kernelImageAddr))

theorem loadElf_not_leftKernel {s : Bios D} (h : ¬ LeftKernel s.mem) : loadElf kernelImageBytes s = (none, s) := by
  cases hv : Elf64.validateImage (s.mem.from kernelImageAddr) kernelImageBytes.toUInt64 with
  | error status => simp only [loadElf, hv]
  | ok sum =>
    have hformat : Elf64.Format (s.mem.from kernelImageAddr) kernelImageBytes.toNat :=
      Elf64.validateImage_isOk.1 ⟨sum, hv⟩
    simp only [loadElf, hv]
    split
    · rfl
    next h₁ =>
      split
      · rfl
      next h₂ => exact absurd ⟨hformat, (limits_iff (Elf64.validateImage_ok hv)).1 ⟨h₁, h₂⟩⟩ h

theorem loadElf_leftKernel {s : Bios D} (h : LeftKernel s.mem) (hc : MovesCleanly s.mem) :
    ∃ sum m', sum.entry = (Elf64.headerAt (s.mem.from kernelImageAddr)).entry ∧
      loadElf kernelImageBytes s = (some sum, { s with
        mem := m'
        loaded := ((segments (s.mem.from kernelImageAddr)).map fun p => (physOf p, p.memsz.toNat)).reverse ++
          s.loaded }) ∧
      ∀ p ∈ segments (s.mem.from kernelImageAddr), ∀ j < p.memsz.toNat, m' (physOf p + j) = leftByte s.mem p j := by
  obtain ⟨sum, hv⟩ : ∃ sum, Elf64.validateImage (s.mem.from kernelImageAddr) kernelImageBytes.toUInt64 = .ok sum :=
    Elf64.validateImage_isOk.2 h.format
  have hload := loadElf_eq hv h.fits (hc.headers h)
  have hplaced := (segments_placed_iff hload (hc.headers h)).2 (hc.data h)
  refine ⟨sum, _, Elf64.validateImage_entry hv, hload, fun p hp j hj => ?_⟩
  obtain ⟨hdata, hzero⟩ := hplaced p hp
  rw [leftByte]
  split
  · next hlt => exact hdata j hlt
  · next hge => exact hzero j (Nat.not_lt.1 hge) hj

theorem exists_of_forall₂ {α β : Type} {R : α → β → Prop} {l : List α} {l' : List β} (h : List.Forall₂ R l l') {a : α}
    (ha : a ∈ l) : ∃ b ∈ l', R a b := by
  induction h with
  | nil => cases ha
  | @cons x y l l' hxy _ ih =>
    rcases List.mem_cons.1 ha with rfl | ha
    · exact ⟨y, List.mem_cons_self .., hxy⟩
    · obtain ⟨b, hb, hr⟩ := ih ha
      exact ⟨b, List.mem_cons_of_mem _ hb, hr⟩

/-- The ranges that two lists of segments fill, and the segments themselves. -/
theorem sameSegments_iff {m m' t t' : Bytes} {ps qs : List ProgramHeader} (hps : ∀ p ∈ ps, FitsWindow p)
    (hqs : ∀ q ∈ qs, FitsWindow q) (ht : ∀ p ∈ ps, ∀ j < p.memsz.toNat, t (physOf p + j) = leftByte m p j)
    (ht' : ∀ q ∈ qs, ∀ j < q.memsz.toNat, t' (physOf q + j) = leftByte m' q j) :
    (ps.map (fun p => (physOf p, p.memsz.toNat)) = qs.map (fun q => (physOf q, q.memsz.toNat)) ∧
      ∀ p ∈ ps, ∀ j < p.memsz.toNat, t (physOf p + j) = t' (physOf p + j)) ↔
      List.Forall₂ (SameSegment m m') ps qs := by
  have hmap : ps.map (fun p => (physOf p, p.memsz.toNat)) = qs.map (fun q => (physOf q, q.memsz.toNat)) ↔
      List.Forall₂ (fun p q => (physOf p, p.memsz.toNat) = (physOf q, q.memsz.toNat)) ps qs := by
    rw [← List.forall₂_eq_eq_eq, List.forall₂_map_left_iff, List.forall₂_map_right_iff]
  rw [hmap]
  constructor
  · rintro ⟨hranges, hbytes⟩
    refine List.forall₂_iff_zip.2 ⟨hranges.length_eq, fun {p q} hpq => ?_⟩
    obtain ⟨hp, hq⟩ := List.of_mem_zip hpq
    obtain ⟨hphys, hsize⟩ := Prod.mk.inj (List.forall₂_zip hranges hpq)
    have h₁ := (hps p hp).1
    have h₂ := (hqs q hq).1
    refine ⟨UInt64.toNat_inj.1 ?_, UInt64.toNat_inj.1 hsize, fun j hj => ?_⟩
    · simp only [physOf] at hphys
      omega
    · rw [← ht p hp j hj, ← ht' q hq j (hsize ▸ hj), ← hphys]
      exact hbytes p hp j hj
  · intro hsame
    refine ⟨hsame.imp fun p q h => by rw [physOf, physOf, h.vaddr, h.memsz], fun p hp j hj => ?_⟩
    obtain ⟨q, hq, h⟩ := exists_of_forall₂ hsame hp
    have hphys : physOf p = physOf q := by rw [physOf, physOf, h.vaddr]
    rw [ht p hp j hj, hphys, ht' q hq j (h.memsz ▸ hj)]
    exact h.bytes j hj

theorem sameLoad_iff_sameKernel {s : Bios D} (hl : s.loaded = []) {m : Bytes} (hc : MovesCleanly s.mem)
    (hc' : MovesCleanly m) :
    SameLoad (loadElf kernelImageBytes s) (loadElf kernelImageBytes { s with mem := m }) ↔ SameKernel s.mem m := by
  by_cases hk : LeftKernel s.mem
  · obtain ⟨sum, t, hentry, hload, ht⟩ := loadElf_leftKernel hk hc
    by_cases hk' : LeftKernel m
    · obtain ⟨sum', t', hentry', hload', ht'⟩ := @loadElf_leftKernel _ { s with mem := m } hk' hc'
      have hsegments := sameSegments_iff hk.fits hk'.fits ht ht'
      rw [hload, hload', sameLoad_iff]
      simp only [Option.map_some, Option.some.injEq, hentry, hentry', hl, List.append_nil, List.reverse_inj,
        List.mem_reverse, List.mem_map, forall_exists_index, and_imp, forall_apply_eq_imp_iff₂]
      constructor
      · rintro ⟨he, hranges, hbytes⟩
        refine ⟨iff_of_true hk hk', fun _ => he, fun _ => hsegments.1 ⟨hranges, fun p hp j hj => ?_⟩⟩
        exact hbytes p hp _ (Nat.le_add_right ..) (by omega)
      · intro hsame
        obtain ⟨hranges, hbytes⟩ := hsegments.2 (hsame.same hk)
        refine ⟨hsame.entry hk, hranges, fun p hp i h₁ h₂ => ?_⟩
        obtain ⟨j, rfl⟩ := Nat.exists_eq_add_of_le h₁
        exact hbytes p hp j (by omega)
    · rw [hload, @loadElf_not_leftKernel _ { s with mem := m } hk']
      refine iff_of_false (fun h => ?_) fun h => hk' (h.kernel.1 hk)
      cases h.entry
  · rw [loadElf_not_leftKernel hk]
    by_cases hk' : LeftKernel m
    · obtain ⟨sum', t', -, hload', -⟩ := @loadElf_leftKernel _ { s with mem := m } hk' hc'
      rw [hload']
      refine iff_of_false (fun h => ?_) fun h => hk (h.kernel.2 hk')
      cases h.entry
    · rw [@loadElf_not_leftKernel _ { s with mem := m } hk']
      refine iff_of_true ⟨rfl, rfl, fun range hr => ?_⟩ ⟨iff_of_false hk hk', fun h => absurd h hk, fun h => absurd h hk⟩
      rw [hl] at hr
      cases hr

/-! ### When leftovers make no difference -/

/-- The boot stops before it looks at the window, or finds no image in either memory, or the same kernel in both. -/
def SameLeftovers (machine : Machine) (m m' : Bytes) : Prop :=
  cpuHasLongMode machine = false ∨ stagingRangeIsUsable machine m = false ∨
  (hasElfMagic m = false ∧ hasElfMagic m' = false) ∨
  (hasElfMagic m = true ∧ hasElfMagic m' = true ∧ MovesCleanly m ∧ MovesCleanly m' ∧ SameKernel m m')

/-- Two boots from the file system, from memories that differ in the staging window only, do the same if the leftovers
are the same. If they are not, and no leftover kernel is in the way of its own move, the boots differ. -/
theorem leftovers_ignored_iff (drive : BiosDrive D) {machine : Machine} (hfs : machine.filesystemBoot = true) {s : Bios D}
    (hs : s.slot = none) (hl : s.loaded = []) {m : Bytes} (hm : ∀ i, ¬ Staging i → s.mem i = m i) :
    (SameLeftovers machine s.mem m →
      SameBoot (stage2PmMain drive machine s) (stage2PmMain drive machine { s with mem := m })) ∧
    ((hasElfMagic s.mem = true → hasElfMagic m = true → MovesCleanly s.mem ∧ MovesCleanly m) →
      SameBoot (stage2PmMain drive machine s) (stage2PmMain drive machine { s with mem := m }) →
        SameLeftovers machine s.mem m) := by
  have halike : Alike (fun i => ¬ Staging i) s { s with mem := m } := .intro hm
  have huse : stagingRangeIsUsable machine m = stagingRangeIsUsable machine s.mem :=
    (stagingRangeIsUsable_congr machine hm).symm
  cases hlm : cpuHasLongMode machine with
  | false =>
    refine ⟨fun _ => ?_, fun _ _ => Or.inl hlm⟩
    rw [stage2PmMain_eq hfs, stage2PmMain_eq hfs, hlm]
    exact halike.sameBoot_halt hl _
  | true =>
    cases husable : stagingRangeIsUsable machine s.mem with
    | false =>
      refine ⟨fun _ => ?_, fun _ _ => Or.inr (Or.inl husable)⟩
      rw [stage2PmMain_eq hfs, stage2PmMain_eq hfs]
      simp only [hlm, huse, husable, Bool.not_true, Bool.not_false, Bool.false_eq_true, if_false, if_true]
      exact (halike.say _).sameBoot_halt hl _
    | true =>
      rw [husable] at huse
      -- both boots get to the magic
      have hboot := @stage2PmMain_eq D drive machine hfs s
      have hboot' := @stage2PmMain_eq D drive machine hfs { s with mem := m }
      simp only [hlm, huse, husable, Bool.not_true, Bool.false_eq_true, if_false] at hboot hboot'
      rw [SameLeftovers, hlm, husable]
      cases hmag : hasElfMagic s.mem with
      | false =>
        cases hmag' : hasElfMagic m with
        | false =>
          rw [hmag] at hboot
          rw [hmag'] at hboot'
          refine ⟨fun _ => ?_, fun _ _ => Or.inr (Or.inr (Or.inl ⟨rfl, rfl⟩))⟩
          rw [hboot, hboot']
          exact fileBoot_same machine (halike.say _) hl
        | true =>
          rw [hmag] at hboot
          rw [hmag'] at hboot'
          refine ⟨fun h => by simp at h, fun _ h => ?_⟩
          rw [hboot, hboot'] at h
          exact absurd h.symm (handOver_not_fileBoot machine _ _ (s := say _ { s with mem := m }) hs)
      | true =>
        cases hmag' : hasElfMagic m with
        | false =>
          rw [hmag] at hboot
          rw [hmag'] at hboot'
          refine ⟨fun h => by simp at h, fun _ h => ?_⟩
          rw [hboot, hboot'] at h
          exact absurd h (handOver_not_fileBoot machine _ _ (s := say _ s) hs)
        | true =>
          rw [sameBoot_iff_sameLoad hfs hlm hl husable huse hmag hmag']
          simp only [reduceCtorEq, false_and, true_and, false_or]
          refine ⟨fun h => (sameLoad_iff_sameKernel hl h.1 h.2.1).2 h.2.2, fun hclean h => ?_⟩
          obtain ⟨hc, hc'⟩ := hclean trivial trivial
          exact ⟨hc, hc', (sameLoad_iff_sameKernel hl hc hc').1 h⟩

end

/-! ### A machine for the theorem -/

/-- A machine in long mode, with one E820 entry. -/
def pcMachine : Machine where
  hasCpuid := true
  cpuid leaf := if leaf = 1 then (0, 0x40) else if leaf = 0x80000000 then (0x80000001, 0) else (0, 0x20000000)
  e820Count := 1
  bootDrive := 0x80
  filesystemBoot := true

/-- Usable memory up to 128 MiB, and zeros otherwise. -/
def pcMemory : Bytes := Bytes.write (fun _ => 0) memoryMapAddr (packBytes [(8, 0), (8, 0x8000000), (4, 1), (4, 0)])

/-- A drive that cannot be read. -/
def deadDrive : BiosDrive Unit where
  read _ _ _ := none
  write _ _ _ _ := (false, ())

/-- The machine at power-on, with the bytes `window` at the start of the staging window. -/
def powerOn (window : List UInt8) : Bios Unit := { staged [] with mem := pcMemory.write kernelImageAddr window }

theorem powerOn_outside {window : List UInt8} (hw : window.length ≤ kernelImageBytes.toNat) {i : Nat} (hi : ¬ Staging i) :
    (powerOn window).mem i = pcMemory i := by
  have hout : i < kernelImageAddr ∨ kernelImageAddr + window.length ≤ i := by
    by_contra hn
    exact hi ⟨by omega, by omega⟩
  rcases hout with h | h
  · exact Bytes.write_of_lt _ _ h
  · exact Bytes.write_of_le _ _ h

/-- With nothing in the window the boot fails to read the disk and halts. With the kernel of an earlier boot there,
it starts that kernel. -/
theorem leftover_boots :
    (∀ i, ¬ Staging i → (powerOn []).mem i = (powerOn lowKernel).mem i) ∧
    (stage2PmMain deadDrive pcMachine (powerOn [])).1 = .halted "JOSHBOOT_ERROR_FILESYSTEM_LOAD\n" ∧
    (stage2PmMain deadDrive pcMachine (powerOn lowKernel)).1 = .handoff 0xffffffff80000000 ∧
    ¬ SameBoot (stage2PmMain deadDrive pcMachine (powerOn []))
      (stage2PmMain deadDrive pcMachine (powerOn lowKernel)) := by
  have hempty : (stage2PmMain deadDrive pcMachine (powerOn [])).1 = .halted "JOSHBOOT_ERROR_FILESYSTEM_LOAD\n" := by
    decide
  have hleft : (stage2PmMain deadDrive pcMachine (powerOn lowKernel)).1 = .handoff 0xffffffff80000000 := by
    decide +kernel
  have hlen : lowKernel.length ≤ kernelImageBytes.toNat := by decide +kernel
  refine ⟨fun i hi => ?_, hempty, hleft, fun h => ?_⟩
  · rw [powerOn_outside (Nat.zero_le _) hi, powerOn_outside hlen hi]
  · cases hempty.symm.trans (h.ending.trans hleft)

end JoshBios.Stage2
