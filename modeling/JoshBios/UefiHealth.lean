import JoshBios.HealthStore
import JoshBios.FirstAttempt

/-! # The health variable of the UEFI path

The firmware keeps the health record in one variable. `var f` is what it holds in the state `f`; `VariableStore` is
what the UEFI specification promises of it: `SetVariable` replaces it or fails and leaves it, `GetVariable` gives it
out or fails, and nothing else touches it. `watched` logs the calls on the variable.

A boot never stores an older record over the one it has loaded. It does when it could not load it: `uefiHealthLoad`
takes a failed read for a variable that is not there, and stores the default record. The BIOS path goes on without
its sectors in that case. -/

namespace JoshBios.Uefi

open Health (HealthRecord BootSlot valid recordAt)
open Stage2 (version)

/-- The variable: its size and its bytes. -/
structure Variable where
  size : UInt64
  data : Bytes

/-- The variable holds the valid record `r`. -/
def Holds (v : Option Variable) (r : HealthRecord) : Prop :=
  ∃ x, v = some x ∧ x.size = Health.recordSize.toUInt64 ∧ recordAt x.data = r ∧ valid r = true

theorem Holds.unique {v : Option Variable} {r r' : HealthRecord} (h : Holds v r) (h' : Holds v r') : r = r' := by
  obtain ⟨x, rfl, -, rfl, -⟩ := h
  obtain ⟨x', hx, -, rfl, -⟩ := h'
  cases hx
  rfl

/-- What holds a valid record later holds one that is not older. -/
def Follows (newer older : Option Variable) : Prop := ∀ r, Holds older r → ∃ r', Holds newer r' ∧ version r ≤ version r'

theorem Follows.refl (v : Option Variable) : Follows v v := fun r hr => ⟨r, hr, Nat.le_refl _⟩

theorem Follows.trans {v₂ v₁ v₀ : Option Variable} (h : Follows v₂ v₁) (h' : Follows v₁ v₀) : Follows v₂ v₀ := by
  intro r hr
  obtain ⟨r₁, hr₁, hle₁⟩ := h' r hr
  obtain ⟨r₂, hr₂, hle₂⟩ := h r₁ hr₁
  exact ⟨r₂, hr₂, Nat.le_trans hle₁ hle₂⟩

theorem pairwise_follows_cons {v v' : Option Variable} {vs : List (Option Variable)} (hf : Follows v' v)
    (h : (v :: vs).Pairwise Follows) : (v' :: v :: vs).Pairwise Follows := by
  refine List.pairwise_cons.2 ⟨fun w hw => ?_, h⟩
  rcases List.mem_cons.1 hw with rfl | hw
  · exact hf
  · exact hf.trans ((List.pairwise_cons.1 h).1 w hw)

/-! ### The variable store -/

variable {F : Type}

/-- The services `load_files` calls, those for the variable apart, keep what `obs` sees. -/
structure Quiet {V : Type} (fw : Firmware F) (obs : F → V) : Prop where
  loadedImage : ∀ f, obs (fw.loadedImage f).2.2 = obs f
  fileSystem : ∀ f, obs (fw.fileSystem f).2.2 = obs f
  openVolume : ∀ f, obs (fw.openVolume f).2 = obs f
  openFile : ∀ path f, obs (fw.openFile path f).2.2 = obs f
  infoSize : ∀ file f, obs (fw.infoSize file f).2.2 = obs f
  getInfo : ∀ file size f, obs (fw.getInfo file size f).2.2 = obs f
  allocatePool : ∀ size f, obs (fw.allocatePool size f).2 = obs f
  readBytes : ∀ file size f, obs (fw.readBytes file size f).2.2.2 = obs f

structure VariableStore (fw : Firmware F) (var : F → Option Variable) : Prop where
  quiet : Quiet fw var
  set_ok : ∀ data f, efiError (fw.setVariable data f).1 = false →
    ∃ x, var (fw.setVariable data f).2 = some x ∧ x.size = Health.recordSize.toUInt64 ∧
      ∀ i < Health.recordSize.toNat, x.data i = data i
  set_error : ∀ data f, efiError (fw.setVariable data f).1 = true → var (fw.setVariable data f).2 = var f
  get_ok : ∀ f, efiError (fw.getVariable f).1 = false →
    ∃ x, var f = some x ∧ (fw.getVariable f).2.1 = x.size ∧
      ∀ i < Health.recordSize.toNat, i < x.size.toNat → (fw.getVariable f).2.2.1 i = x.data i
  get_keeps : ∀ f, var (fw.getVariable f).2.2.2 = var f

section Quiet
variable {V : Type} {fw : Firmware F} {obs : F → V} (hq : Quiet fw obs)
include hq

theorem Quiet.openRoot (f : F) : obs (openRoot fw f).2 = obs f := by
  unfold Uefi.openRoot
  simp only
  split
  · exact hq.loadedImage f
  split
  · rw [hq.fileSystem, hq.loadedImage]
  · rw [hq.openVolume, hq.fileSystem, hq.loadedImage]

theorem Quiet.readFile (path : List UInt16) (u : Loader F) : obs (readFile fw path u).2.firmware = obs u.firmware := by
  obtain ⟨f, hcalls, hread⟩ := readFile_calls fw path u
  rw [hread]
  clear hread
  induction hcalls with
  | none => rfl
  | openFile path _ ih => exact (hq.openFile path _).trans ih
  | infoSize file _ ih => exact (hq.infoSize file _).trans ih
  | allocatePool size _ ih => exact (hq.allocatePool size _).trans ih
  | getInfo file size _ ih => exact (hq.getInfo file size _).trans ih
  | readBytes file size _ ih => exact (hq.readBytes file size _).trans ih

theorem Quiet.readCandidate (path : List UInt8) (u : Loader F) :
    obs (readCandidate fw path u).2.firmware = obs u.firmware := by
  unfold Uefi.readCandidate
  split
  · rfl
  split
  · rfl
  next p _ =>
    have h := hq.readFile p u
    generalize Uefi.readFile fw p u = r at h ⊢
    obtain ⟨⟨s, image, size⟩, u'⟩ := r
    simp only at h ⊢
    split
    · exact h
    · split <;> exact h

end Quiet

/-! ### The calls on the variable -/

inductive Service
  | getVariable
  | setVariable
deriving DecidableEq

/-- A call on the variable: the status it reported, and the variable before and after it. -/
structure Access where
  service : Service
  status : EfiStatus
  before : Option Variable
  after : Option Variable

/-- The firmware, with a log of the calls on the variable, newest first. -/
def watched (fw : Firmware F) (var : F → Option Variable) : Firmware (F × List Access) where
  loadedImage p := let (s, a, f) := fw.loadedImage p.1; (s, a, f, p.2)
  fileSystem p := let (s, a, f) := fw.fileSystem p.1; (s, a, f, p.2)
  openVolume p := let (s, f) := fw.openVolume p.1; (s, f, p.2)
  openFile path p := let (s, a, f) := fw.openFile path p.1; (s, a, f, p.2)
  infoSize file p := let (s, a, f) := fw.infoSize file p.1; (s, a, f, p.2)
  getInfo file size p := let (s, a, f) := fw.getInfo file size p.1; (s, a, f, p.2)
  allocatePool size p := let (s, f) := fw.allocatePool size p.1; (s, f, p.2)
  allocatePages n p := let (s, a, f) := fw.allocatePages n p.1; (s, a, f, p.2)
  readBytes file size p := let (s, n, b, f) := fw.readBytes file size p.1; (s, n, b, f, p.2)
  hasRuntime := fw.hasRuntime
  getVariable p :=
    let (s, n, b, f) := fw.getVariable p.1
    (s, n, b, f, ⟨.getVariable, s, var p.1, var f⟩ :: p.2)
  setVariable data p :=
    let (s, f) := fw.setVariable data p.1
    (s, f, ⟨.setVariable, s, var p.1, var f⟩ :: p.2)

/-- Boots from the firmware state `f₀` on. Between two of them anything may happen that keeps the variable. -/
inductive Booted (fw : Firmware F) (var : F → Option Variable) (f₀ : F) : F × List Access → Prop
  | start : Booted fw var f₀ (f₀, [])
  | boot {u : Loader (F × List Access)} : Booted fw var f₀ u.firmware →
      Booted fw var f₀ (loadFiles (watched fw var) u).2.firmware
  | between {f f' : F} {log : List Access} : Booted fw var f₀ (f, log) → var f' = var f → Booted fw var f₀ (f', log)

/-- What the variable held at the end, around each call, and at the start, newest first. -/
def values (var : F → Option Variable) (f₀ : F) (p : F × List Access) : List (Option Variable) :=
  var p.1 :: p.2.flatMap (fun a => [a.after, a.before]) ++ [var f₀]

/-- A `GetVariable` of a valid record reports success. -/
def Served (a : Access) : Prop := a.service = .getVariable → ∀ r, Holds a.before r → efiError a.status = false

/-- A record that is there to be loaded has generations left for the steps of a boot. -/
def RoomLeft (a : Access) : Prop := a.service = .getVariable → ∀ r, Holds a.before r → version r + 3 < 2 ^ 64

/-! ### What a boot does to the variable -/

section Boot
variable {fw : Firmware F} {var : F → Option Variable}

theorem Quiet.watched (hq : Quiet fw var) : Quiet (watched fw var) fun p => (var p.1, p.2) :=
  ⟨fun p => Prod.ext (hq.loadedImage p.1) rfl, fun p => Prod.ext (hq.fileSystem p.1) rfl,
    fun p => Prod.ext (hq.openVolume p.1) rfl, fun path p => Prod.ext (hq.openFile path p.1) rfl,
    fun file p => Prod.ext (hq.infoSize file p.1) rfl, fun file size p => Prod.ext (hq.getInfo file size p.1) rfl,
    fun size p => Prod.ext (hq.allocatePool size p.1) rfl, fun file size p => Prod.ext (hq.readBytes file size p.1) rfl⟩

theorem Quiet.loadFiles {V : Type} {obs : F → V} (hq : Quiet fw obs) (u : Loader F) :
    obs (loadFiles fw u).2.firmware = obs u.firmware ∨
    ∃ config u', obs u'.firmware = obs u.firmware ∧ (loadFiles fw u).2 =
      (selectKernel (uefiWorld fw config) config (uefiHealthLoad fw u').1 (uefiHealthLoad fw u').2).world := by
  have hroot := hq.openRoot u.firmware
  have hcfg := fun path => (hq.readFile path { u with firmware := (Uefi.openRoot fw u.firmware).2 }).trans hroot
  unfold Uefi.loadFiles
  simp only
  split
  · exact Or.inl hroot
  split
  · exact Or.inl (hcfg _)
  split
  · exact Or.inl (hcfg _)
  split
  · exact Or.inl (hcfg _)
  split
  · exact Or.inl (hcfg _)
  next config _ =>
    split
    · exact Or.inr ⟨config, say "JOSHUEFI_CONFIG_OK\r\n" _, hcfg _, rfl⟩
    · exact Or.inr ⟨config, say "JOSHUEFI_CONFIG_OK\r\n" _, hcfg _, rfl⟩

/-- The variable in a boot that has `health` in memory: the boot has not made it older, and it is not newer. -/
structure Kept (fw : Firmware F) (var : F → Option Variable) (f₀ : F) (health : HealthRecord)
    (p : F × List Access) : Prop where
  grows : (values var f₀ p).Pairwise Follows
  newest : fw.hasRuntime = true → ∀ r, Holds (var p.1) r → version r ≤ version health

theorem values_congr {f₀ : F} {p p' : F × List Access} (hp : (var p'.1, p'.2) = (var p.1, p.2)) :
    values var f₀ p' = values var f₀ p := by
  obtain ⟨hvar, hlog⟩ := Prod.mk.inj hp
  unfold values
  rw [hvar, hlog]

theorem Kept.congr {f₀ : F} {health : HealthRecord} {p p' : F × List Access} (h : Kept fw var f₀ health p)
    (hp : (var p'.1, p'.2) = (var p.1, p.2)) : Kept fw var f₀ health p' := by
  refine ⟨?_, fun hr => ?_⟩
  · rw [values_congr hp]
    exact h.grows
  · rw [(Prod.mk.inj hp).1]
    exact h.newest hr

theorem Kept.store (hs : VariableStore fw var) {f₀ : F} {health : HealthRecord} {u : Loader (F × List Access)}
    (h : Kept fw var f₀ health u.firmware) {health' : HealthRecord} (hv : valid health' = true)
    (hle : version health ≤ version health') :
    Kept fw var f₀ health' (uefiHealthStore (watched fw var) health' u).firmware := by
  cases hr : fw.hasRuntime with
  | false =>
    have hsame : uefiHealthStore (watched fw var) health' u = u := by
      simp only [uefiHealthStore, watched, hr, Bool.not_false, if_true]
    rw [hsame]
    refine ⟨h.grows, fun hon => ?_⟩
    rw [hr] at hon
    cases hon
  | true =>
    have hset : (uefiHealthStore (watched fw var) health' u).firmware =
        ((fw.setVariable health'.bytes u.firmware.1).2,
          ⟨.setVariable, (fw.setVariable health'.bytes u.firmware.1).1, var u.firmware.1,
            var (fw.setVariable health'.bytes u.firmware.1).2⟩ :: u.firmware.2) := by
      simp only [uefiHealthStore, watched, hr, Bool.not_true, Bool.false_eq_true, if_false]
      split <;> rfl
    rw [hset]
    have hnext : Follows (var (fw.setVariable health'.bytes u.firmware.1).2) (var u.firmware.1) ∧
        ∀ r, Holds (var (fw.setVariable health'.bytes u.firmware.1).2) r → version r ≤ version health' := by
      cases he : efiError (fw.setVariable health'.bytes u.firmware.1).1 with
      | true =>
        rw [hs.set_error _ _ he]
        exact ⟨Follows.refl _, fun r hheld => Nat.le_trans (h.newest hr r hheld) hle⟩
      | false =>
        obtain ⟨x, hx, hsize, hdata⟩ := hs.set_ok _ _ he
        have hrec : recordAt x.data = health' := by
          rw [Health.recordAt_congr hdata, Health.recordAt_bytes]
        have hheld' : Holds (var (fw.setVariable health'.bytes u.firmware.1).2) health' := ⟨x, hx, hsize, hrec, hv⟩
        refine ⟨fun r hheld => ⟨health', hheld', Nat.le_trans (h.newest hr r hheld) hle⟩, fun r hheld => ?_⟩
        rw [hheld.unique hheld']
    refine ⟨?_, fun _ => hnext.2⟩
    exact pairwise_follows_cons (Follows.refl _) (pairwise_follows_cons hnext.1 h.grows)

theorem mem_log_store (a : Access) (health : HealthRecord) {u : Loader (F × List Access)} (h : a ∈ u.firmware.2) :
    a ∈ (uefiHealthStore (watched fw var) health u).firmware.2 := by
  simp only [uefiHealthStore]
  split
  · exact h
  · split <;> exact List.mem_cons_of_mem _ h

theorem mem_log_load (a : Access) {u : Loader (F × List Access)} (h : a ∈ u.firmware.2) :
    a ∈ (uefiHealthLoad (watched fw var) u).2.firmware.2 := by
  have hget : a ∈ (if (watched fw var).hasRuntime then (watched fw var).getVariable u.firmware
      else (efiNotFound, Health.recordSize.toUInt64, fun _ => 0, u.firmware)).2.2.2.2 := by
    split
    · exact List.mem_cons_of_mem _ h
    · exact h
  simp only [uefiHealthLoad]
  generalize (if (watched fw var).hasRuntime then (watched fw var).getVariable u.firmware
    else (efiNotFound, Health.recordSize.toUInt64, fun _ => 0, u.firmware)) = r at hget ⊢
  split
  · exact mem_log_store a _ hget
  · exact hget

theorem mem_log_selectKernel (hq : Quiet fw var) (a : Access) (config : Config.BootConfig) (health : HealthRecord)
    {u : Loader (F × List Access)} (h : a ∈ u.firmware.2) :
    a ∈ (selectKernel (uefiWorld (watched fw var) config) config health u).world.firmware.2 := by
  rw [uefi_selectKernel_eq]
  refine Stage2.selectKernel_keeps (I := fun u : Loader (F × List Access) => a ∈ u.firmware.2) ?_ ?_ ?_ config health h
  · intro message u hu
    exact asBios_say (I := fun u : Loader (F × List Access) => a ∈ u.firmware.2) (fun _ _ hu => hu) message hu
  · intro health u hu
    exact mem_log_store a health hu
  · intro slot u hu
    have hread := hq.watched.readCandidate (uefiKernelPath config slot) u
    have hlog : (readCandidate (watched fw var) (uefiKernelPath config slot) u).2.firmware.2 = u.firmware.2 :=
      (Prod.mk.inj hread).2
    show a ∈ (readCandidate (watched fw var) (uefiKernelPath config slot) u).2.firmware.2
    rw [hlog]
    exact hu

theorem VariableStore.holds_iff (hs : VariableStore fw var) {f : F} (he : efiError (fw.getVariable f).1 = false)
    (r : HealthRecord) :
    Holds (var f) r ↔ (fw.getVariable f).2.1 = Health.recordSize.toUInt64 ∧
      recordAt (fw.getVariable f).2.2.1 = r ∧ valid r = true := by
  obtain ⟨x, hx, hsize, hdata⟩ := hs.get_ok f he
  have hrec : x.size = Health.recordSize.toUInt64 → recordAt (fw.getVariable f).2.2.1 = recordAt x.data := by
    intro hxsize
    refine Health.recordAt_congr fun i hi => hdata i hi ?_
    rw [hxsize]
    exact hi
  constructor
  · rintro ⟨y, hy, hysize, rfl, hv⟩
    cases hx.symm.trans hy
    exact ⟨hsize.trans hysize, hrec hysize, hv⟩
  · rintro ⟨hsize', rfl, hv⟩
    have hxsize : x.size = Health.recordSize.toUInt64 := hsize.symm.trans hsize'
    exact ⟨x, hx, hxsize, (hrec hxsize).symm, hv⟩

/-- The state after the read, which is in the log. -/
def afterRead (fw : Firmware F) (var : F → Option Variable) (u : Loader (F × List Access)) : Loader (F × List Access) :=
  { u with firmware := ((fw.getVariable u.firmware.1).2.2.2,
      ⟨.getVariable, (fw.getVariable u.firmware.1).1, var u.firmware.1, var (fw.getVariable u.firmware.1).2.2.2⟩ ::
        u.firmware.2) }

theorem uefiHealthLoad_runtime (hr : fw.hasRuntime = true) (u : Loader (F × List Access)) :
    uefiHealthLoad (watched fw var) u =
      if efiError (fw.getVariable u.firmware.1).1 || (fw.getVariable u.firmware.1).2.1 ≠ Health.recordSize.toUInt64 ||
          !valid (recordAt (fw.getVariable u.firmware.1).2.2.1) then
        (Health.healthDefault, say "JOSHUEFI_HEALTH_INITIALIZED\r\n"
          (uefiHealthStore (watched fw var) Health.healthDefault (afterRead fw var u)))
      else (recordAt (fw.getVariable u.firmware.1).2.2.1, say "JOSHUEFI_HEALTH_LOADED\r\n" (afterRead fw var u)) := by
  simp only [uefiHealthLoad, watched, hr, if_true, afterRead]

/-- The loop starts with a record that is not older than the variable, when a record that is there was read. -/
theorem uefiHealthLoad_kept (hs : VariableStore fw var) {f₀ : F} {u : Loader (F × List Access)}
    (h : (values var f₀ u.firmware).Pairwise Follows)
    (hok : ∀ a ∈ (uefiHealthLoad (watched fw var) u).2.firmware.2, Served a ∧ RoomLeft a) :
    valid (uefiHealthLoad (watched fw var) u).1 = true ∧ version (uefiHealthLoad (watched fw var) u).1 + 3 < 2 ^ 64 ∧
      Kept fw var f₀ (uefiHealthLoad (watched fw var) u).1 (uefiHealthLoad (watched fw var) u).2.firmware := by
  have hdefault : version Health.healthDefault + 3 < 2 ^ 64 := by decide
  cases hr : fw.hasRuntime with
  | false =>
    have hload : uefiHealthLoad (watched fw var) u = (Health.healthDefault,
        say "JOSHUEFI_HEALTH_INITIALIZED\r\n" (uefiHealthStore (watched fw var) Health.healthDefault u)) := by
      have herr : efiError efiNotFound = true := by decide
      simp only [uefiHealthLoad, watched, hr, Bool.false_eq_true, if_false, herr, Bool.true_or, if_true]
    have hkept : Kept fw var f₀ Health.healthDefault u.firmware := by
      refine ⟨h, fun hon => ?_⟩
      rw [hr] at hon
      cases hon
    rw [hload]
    exact ⟨Health.valid_healthDefault, hdefault, hkept.store hs Health.valid_healthDefault (Nat.le_refl _)⟩
  | true =>
    have hsame : var (afterRead fw var u).firmware.1 = var u.firmware.1 := hs.get_keeps _
    have hgrows : (values var f₀ (afterRead fw var u).firmware).Pairwise Follows := by
      simp only [values, afterRead, hs.get_keeps]
      exact pairwise_follows_cons (Follows.refl _) (pairwise_follows_cons (Follows.refl _) h)
    rw [uefiHealthLoad_runtime hr] at hok ⊢
    split at hok
    next hbad =>
      rw [if_pos hbad]
      have hnone : ∀ r, ¬ Holds (var u.firmware.1) r := by
        intro r hheld
        have hserved := (hok _ (mem_log_store _ _ List.mem_cons_self)).1 rfl r hheld
        obtain ⟨hsize, rfl, hv⟩ := (hs.holds_iff hserved r).1 hheld
        simp only [hserved, hsize, hv] at hbad
        cases hbad
      have hkept : Kept fw var f₀ Health.healthDefault (afterRead fw var u).firmware := by
        refine ⟨hgrows, fun _ r hheld => ?_⟩
        rw [hsame] at hheld
        exact absurd hheld (hnone r)
      exact ⟨Health.valid_healthDefault, hdefault, hkept.store hs Health.valid_healthDefault (Nat.le_refl _)⟩
    next hgood =>
      rw [if_neg hgood]
      simp only [Bool.or_eq_true, not_or, Bool.not_eq_true, decide_eq_true_eq, not_not, Bool.not_eq_false'] at hgood
      obtain ⟨⟨he, hsize⟩, hv⟩ := hgood
      have hheld := (hs.holds_iff he _).2 ⟨hsize, rfl, hv⟩
      refine ⟨hv, (hok _ List.mem_cons_self).2 rfl _ hheld, hgrows, fun _ r hr' => ?_⟩
      have hr' : Holds (var (afterRead fw var u).firmware.1) r := hr'
      rw [hsame] at hr'
      rw [hr'.unique hheld]

/-- One boot. -/
theorem loadFiles_grows (hs : VariableStore fw var) {f₀ : F} {u : Loader (F × List Access)}
    (h : (∀ a ∈ u.firmware.2, Served a ∧ RoomLeft a) → (values var f₀ u.firmware).Pairwise Follows)
    (hok : ∀ a ∈ (loadFiles (watched fw var) u).2.firmware.2, Served a ∧ RoomLeft a) :
    (values var f₀ (loadFiles (watched fw var) u).2.firmware).Pairwise Follows := by
  rcases hs.quiet.watched.loadFiles u with hsame | ⟨config, u', hsame, hworld⟩
  · rw [(Prod.mk.inj hsame).2] at hok
    rw [values_congr hsame]
    exact h hok
  · rw [hworld] at hok ⊢
    have hlog : ∀ a ∈ (uefiHealthLoad (watched fw var) u').2.firmware.2, Served a ∧ RoomLeft a :=
      fun a ha => hok a (mem_log_selectKernel hs.quiet a config _ ha)
    have hstart : (values var f₀ u'.firmware).Pairwise Follows := by
      rw [values_congr hsame]
      refine h fun a ha => hlog a (mem_log_load a ?_)
      rw [(Prod.mk.inj hsame).2]
      exact ha
    obtain ⟨hv, hroom, hkept⟩ := uefiHealthLoad_kept hs hstart hlog
    rw [uefi_selectKernel_eq]
    have hend := Stage2.selectKernel_next (w := asBios (uefiWorld (watched fw var) config))
      (I := fun health u => Kept fw var f₀ health u.firmware) ?_ ?_ ?_ config hv hroom hkept
    · obtain ⟨health', hkept'⟩ := hend
      exact hkept'.grows
    · intro health message u hu
      exact asBios_say (I := fun u : Loader (F × List Access) => Kept fw var f₀ health u.firmware)
        (fun _ _ hu => hu) message hu
    · intro health slot u hu
      exact hu.congr (hs.quiet.watched.readCandidate (uefiKernelPath config slot) u)
    · intro health health' u hu hv hgen
      exact hu.store hs hv (Nat.le_of_lt (by rw [version, version]; omega))

theorem Booted.grows (hs : VariableStore fw var) {f₀ : F} {p : F × List Access} (h : Booted fw var f₀ p) :
    (∀ a ∈ p.2, Served a ∧ RoomLeft a) → (values var f₀ p).Pairwise Follows := by
  induction h with
  | start =>
    intro _
    exact pairwise_follows_cons (Follows.refl _) (List.pairwise_singleton _ _)
  | boot _ ih => exact loadFiles_grows hs ih
  | @between f f' log _ hvar ih =>
    intro hok
    have hsame : values var f₀ (f', log) = values var f₀ (f, log) := values_congr (Prod.ext hvar rfl)
    rw [hsame]
    exact ih hok

/-- In every run of boots in which each `GetVariable` of a valid record reports success, and finds generations left
for the boot, what the variable holds later follows what it held before. -/
theorem uefi_health_grows (hs : VariableStore fw var) {f₀ : F} {p : F × List Access} (h : Booted fw var f₀ p)
    (hserved : ∀ a ∈ p.2, Served a) (hroom : ∀ a ∈ p.2, RoomLeft a) : (values var f₀ p).Pairwise Follows :=
  h.grows hs fun a ha => ⟨hserved a ha, hroom a ha⟩

end Boot

/-! ### A firmware with a configuration and the variable -/

def recordVariable (f : Option Bytes) : Option Variable := f.map fun data => ⟨Health.recordSize.toUInt64, data⟩

/-- A firmware whose `GetVariable` works, or fails with a device error. -/
def recordFirmware (readable : Bool) : Firmware (Option Bytes) where
  loadedImage f := (efiSuccess, true, f)
  fileSystem f := (efiSuccess, true, f)
  openVolume f := (efiSuccess, f)
  openFile _ f := (efiSuccess, some 0, f)
  infoSize _ f := (efiBufferTooSmall, 80, f)
  getInfo _ _ f := (efiSuccess, bytesOf (packBytes [(8, 80), (8, loneKernelText.length)]), f)
  allocatePool _ f := (efiSuccess, f)
  allocatePages _ f := (efiOutOfResources, 0, f)
  readBytes _ n f := (efiSuccess, n, bytesOf loneKernelText, f)
  hasRuntime := true
  getVariable f :=
    if readable then
      match f with
      | some data => (efiSuccess, Health.recordSize.toUInt64, data, f)
      | none => (efiNotFound, Health.recordSize.toUInt64, fun _ => 0, f)
    else (efiDeviceError, Health.recordSize.toUInt64, fun _ => 0, f)
  setVariable data _ := (efiSuccess, some data)

theorem variableStore_recordFirmware (readable : Bool) : VariableStore (recordFirmware readable) recordVariable := by
  refine ⟨⟨fun _ => rfl, fun _ => rfl, fun _ => rfl, fun _ _ => rfl, fun _ _ => rfl, fun _ _ _ => rfl, fun _ _ => rfl,
    fun _ _ _ => rfl⟩, fun data f _ => ?_, fun data f h => ?_, fun f h => ?_, fun f => ?_⟩
  · exact ⟨⟨Health.recordSize.toUInt64, data⟩, rfl, rfl, fun _ _ => rfl⟩
  · exact absurd h (by simp [recordFirmware])
  · cases readable with
    | false => exact absurd h (by simp [recordFirmware]; decide)
    | true =>
      cases f with
      | none => exact absurd h (by simp [recordFirmware]; decide)
      | some data => exact ⟨⟨Health.recordSize.toUInt64, data⟩, rfl, rfl, fun _ _ _ => rfl⟩
  · cases readable with
    | false => rfl
    | true => cases f <;> rfl

/-- A trial has begun: the first generation after the default record. -/
def startedTrial : HealthRecord := (Health.beginUpdate Health.healthDefault BootSlot.previous.code).2

theorem valid_startedTrial : Health.valid startedTrial = true := by
  rw [startedTrial]
  exact Health.valid_beginUpdate Health.valid_healthDefault _

theorem holds_startedTrial : Holds (recordVariable (some startedTrial.bytes)) startedTrial :=
  ⟨_, rfl, rfl, Health.recordAt_bytes _, valid_startedTrial⟩

/-- One boot of the trial. -/
def trialBoot (readable : Bool) : Option Bytes × List Access :=
  (loadFiles (watched (recordFirmware readable) recordVariable)
    { firmware := (some startedTrial.bytes, []), mem := fun _ => 0, serial := [], opened := [], stored := [] }).2.firmware

theorem booted_trialBoot (readable : Bool) :
    Booted (recordFirmware readable) recordVariable (some startedTrial.bytes) (trialBoot readable) := by
  rw [trialBoot]
  exact .boot .start

theorem uefi_health_grows_trial :
    Holds (recordVariable (some startedTrial.bytes)) startedTrial ∧
      (values recordVariable (some startedTrial.bytes) (trialBoot true)).Pairwise Follows := by
  have hlog : (trialBoot true).2.map (fun a => (efiError a.status, a.before.map fun x => version (recordAt x.data))) =
      [(false, some 1), (false, some 1)] := by
    decide +kernel
  have hall : ∀ a ∈ (trialBoot true).2,
      efiError a.status = false ∧ a.before.map (fun x => version (recordAt x.data)) = some 1 := by
    intro a ha
    have hmem := List.mem_map_of_mem (f := fun a : Access =>
      (efiError a.status, a.before.map fun x => version (recordAt x.data))) ha
    rw [hlog] at hmem
    simpa using hmem
  refine ⟨holds_startedTrial, uefi_health_grows (variableStore_recordFirmware true) (booted_trialBoot true)
    (fun a ha _ r _ => (hall a ha).1) fun a ha _ r hr => ?_⟩
  obtain ⟨x, hx, -, rfl, -⟩ := hr
  have hsome := (hall a ha).2
  rw [hx] at hsome
  have hversion : version (recordAt x.data) = 1 := Option.some.inj hsome
  rw [hversion]
  decide

/-- The variable held the first generation; a boot that could not read it leaves the default record there. -/
theorem failed_read_resets :
    VariableStore (recordFirmware false) recordVariable ∧
    Booted (recordFirmware false) recordVariable (some startedTrial.bytes) (trialBoot false) ∧
    Holds (recordVariable (some startedTrial.bytes)) startedTrial ∧ version startedTrial = 1 ∧
    (trialBoot false).1.map recordAt = some Health.healthDefault ∧
    ¬ Follows (recordVariable (trialBoot false).1) (recordVariable (some startedTrial.bytes)) := by
  have hend : (trialBoot false).1.map recordAt = some Health.healthDefault := by decide +kernel
  have hversion : version startedTrial = 1 := by
    rw [startedTrial, Health.beginUpdate_eq Health.valid_healthDefault .previous (by decide)]
    rfl
  refine ⟨variableStore_recordFirmware false, booted_trialBoot false, holds_startedTrial, hversion, hend, fun hf => ?_⟩
  obtain ⟨r, hr, hle⟩ := hf _ holds_startedTrial
  have hdefault : Holds (recordVariable (trialBoot false).1) Health.healthDefault := by
    obtain ⟨data, hdata, hrec⟩ := Option.map_eq_some_iff.1 hend
    exact ⟨⟨Health.recordSize.toUInt64, data⟩, by rw [hdata, recordVariable, Option.map_some], rfl, hrec,
      Health.valid_healthDefault⟩
  rw [hr.unique hdefault, hversion] at hle
  exact absurd hle (by decide)

end JoshBios.Uefi
