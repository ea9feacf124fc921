import JoshBios.Lib.Bytes

/-! # The boot configuration (`boot/core/config.c`)

A configuration is a text of `key=value` lines. The text comes with its length, so it is a list of bytes;
a field of the result is a `char` array of fixed size, a list here, and what a reader sees of it is the part
before the first NUL. The pointers the callers pass are never null, and none looks at the record after a
failure, so a failing step gives its status only. -/

namespace JoshBios.Config

/-- The bytes of a string literal, without its NUL. -/
def ascii (s : String) : List UInt8 := s.toList.map fun c => UInt8.ofNat c.toNat

-- JOSH_BOOT_CONFIG_*
def configVersion : UInt32 := 1
def configMaxBytes : Nat := 1024
def entryIdMax : Nat := 15
def nameMax : Nat := 31
def pathMax : Nat := 95
def cmdlineMax : Nat := 127
def flagRecovery : UInt32 := 1
def flagDevelopment : UInt32 := 2

inductive Status where
  | ok | invalidArgument | tooLarge | syntaxError | unknownKey | duplicateKey | missingRequired
  | unsupportedVersion | invalidValue | unsupportedFeature
deriving DecidableEq, Repr

structure BootConfig where
  version : UInt32
  timeoutSeconds : UInt32
  flags : UInt32
  defaultEntry : List UInt8
  entryId : List UInt8
  displayName : List UInt8
  kernelPath : List UInt8
  previousKernelPath : List UInt8
  recoveryKernelPath : List UInt8
  commandLine : List UInt8
deriving DecidableEq, Repr

/-- `zero_bytes(config, sizeof(*config))`. -/
def zeroConfig : BootConfig where
  version := 0
  timeoutSeconds := 0
  flags := 0
  defaultEntry := .replicate (entryIdMax + 1) 0
  entryId := .replicate (entryIdMax + 1) 0
  displayName := .replicate (nameMax + 1) 0
  kernelPath := .replicate (pathMax + 1) 0
  previousKernelPath := .replicate (pathMax + 1) 0
  recoveryKernelPath := .replicate (pathMax + 1) 0
  commandLine := .replicate (cmdlineMax + 1) 0

/-- What a reader of the `char` array sees: the bytes before the first NUL. -/
def cString (a : List UInt8) : List UInt8 := a.takeWhile (· ≠ 0)

/-- `a[0] != '\0'`. -/
def isSet (a : List UInt8) : Bool := a.getD 0 0 ≠ 0

inductive Field where
  | version | default | timeout | entry | name | kernel | cmdline | flags | previousKernel | recoveryKernel
deriving DecidableEq, Repr

def Field.mask : Field → UInt32
  | .version => (1 : UInt32) <<< 0
  | .default => (1 : UInt32) <<< 1
  | .timeout => (1 : UInt32) <<< 2
  | .entry => (1 : UInt32) <<< 3
  | .name => (1 : UInt32) <<< 4
  | .kernel => (1 : UInt32) <<< 5
  | .cmdline => (1 : UInt32) <<< 6
  | .flags => (1 : UInt32) <<< 7
  | .previousKernel => (1 : UInt32) <<< 8
  | .recoveryKernel => (1 : UInt32) <<< 9

def requiredFields : UInt32 :=
  Field.version.mask ||| Field.default.mask ||| Field.timeout.mask ||| Field.entry.mask ||| Field.name.mask |||
    Field.kernel.mask

def spanEqual (text literal : List UInt8) : Bool := text == literal

/-- `copy_value`: the new contents of the destination, or `none` when the value does not fit. -/
def copyValue (destination : List UInt8) (capacity : Nat) (value : List UInt8) : Option (List UInt8) :=
  if capacity = 0 ∨ value.length ≥ capacity then none
  else some (value ++ 0 :: destination.drop (value.length + 1))

def isBetween (lo hi c : UInt8) : Bool := lo ≤ c && c ≤ hi

def entryIdValid (value : List UInt8) : Bool :=
  !(value.length == 0 || value.length > entryIdMax) &&
    value.all fun c => isBetween 0x61 0x7a c || isBetween 0x41 0x5a c || isBetween 0x30 0x39 c || c == 0x2d || c == 0x5f

def displayNameValid (value : List UInt8) : Bool :=
  !(value.length == 0 || value.length > nameMax) && value.all fun c => !(c < 0x20 || c > 0x7e)

def pathValid (value : List UInt8) : Bool :=
  !(value.length < 2 || value.length > pathMax || value.getD 0 0 != 0x2f) &&
    value.all fun c => !(c < 0x21 || c > 0x7e || c == 0x5c)

def commandLineValid (value : List UInt8) : Bool :=
  !(value.length > cmdlineMax) && value.all fun c => !(c < 0x20 || c > 0x7e)

def parseDigits : List UInt8 → UInt32 → Option UInt32
  | [], result => some result
  | c :: cs, result =>
    if c < 0x30 || c > 0x39 then none else
    let digit := (c - 0x30).toUInt32
    if result > (0xffffffff - digit) / 10 then none else parseDigits cs (result * 10 + digit)

def parseU32 (value : List UInt8) : Option UInt32 := if value.length = 0 then none else parseDigits value 0

def parseFlagWords : List (List UInt8) → UInt32 → Option UInt32
  | [], flags => some flags
  | word :: words, flags =>
    if word.length = 0 then none
    else if spanEqual word (ascii "recovery") then
      if flags &&& flagRecovery ≠ 0 then none else parseFlagWords words (flags ||| flagRecovery)
    else if spanEqual word (ascii "development") then
      if flags &&& flagDevelopment ≠ 0 then none else parseFlagWords words (flags ||| flagDevelopment)
    else none

def parseFlags (value : List UInt8) : Option UInt32 :=
  if value.length = 0 || spanEqual value (ascii "none") then some 0
  -- a trailing comma is an empty last word, which fails as the source's `start >= length` does
  else parseFlagWords (value.splitOn 0x2c) 0

def fieldNames : List (String × Field) :=
  [("version", .version), ("default", .default), ("timeout", .timeout), ("entry", .entry), ("name", .name),
    ("kernel", .kernel), ("previous_kernel", .previousKernel), ("recovery_kernel", .recoveryKernel),
    ("cmdline", .cmdline), ("flags", .flags)]

def fieldFromKey (key : List UInt8) : Option Field :=
  (fieldNames.find? fun f => spanEqual key (ascii f.1)).map Prod.snd

def unsupportedKey (key : List UInt8) : Bool := spanEqual key (ascii "module") || spanEqual key (ascii "initrd")

def setVersion (config : BootConfig) (value : List UInt8) : Except Status BootConfig :=
  match parseU32 value with
  | none => .error .invalidValue
  | some version =>
    if version ≠ configVersion then .error .unsupportedVersion else .ok { config with version }

def setTimeout (config : BootConfig) (value : List UInt8) : Except Status BootConfig :=
  match parseU32 value with
  | none => .error .invalidValue
  | some timeout => if timeout > 30 then .error .invalidValue else .ok { config with timeoutSeconds := timeout }

/-- The setters of the text fields: check the value, then copy it into the field. -/
def setText (check : List UInt8 → Bool) (capacity : Nat) (get : BootConfig → List UInt8)
    (put : BootConfig → List UInt8 → BootConfig) (config : BootConfig) (value : List UInt8) :
    Except Status BootConfig :=
  if !check value then .error .invalidValue else
  match copyValue (get config) capacity value with
  | none => .error .invalidValue
  | some text => .ok (put config text)

def setDefaultEntry := setText entryIdValid (entryIdMax + 1) (·.defaultEntry) fun c t => { c with defaultEntry := t }
def setEntryId := setText entryIdValid (entryIdMax + 1) (·.entryId) fun c t => { c with entryId := t }
def setName := setText displayNameValid (nameMax + 1) (·.displayName) fun c t => { c with displayName := t }
def setKernel := setText pathValid (pathMax + 1) (·.kernelPath) fun c t => { c with kernelPath := t }
def setPreviousKernel :=
  setText pathValid (pathMax + 1) (·.previousKernelPath) fun c t => { c with previousKernelPath := t }
def setRecoveryKernel :=
  setText pathValid (pathMax + 1) (·.recoveryKernelPath) fun c t => { c with recoveryKernelPath := t }
def setCommandLine := setText commandLineValid (cmdlineMax + 1) (·.commandLine) fun c t => { c with commandLine := t }

def setFlags (config : BootConfig) (value : List UInt8) : Except Status BootConfig :=
  match parseFlags value with
  | none => .error .invalidValue
  | some flags => .ok { config with flags }

def applyField (config : BootConfig) (field : Field) (value : List UInt8) : Except Status BootConfig :=
  match field with
  | .version => setVersion config value
  | .timeout => setTimeout config value
  | .default => setDefaultEntry config value
  | .entry => setEntryId config value
  | .name => setName config value
  | .kernel => setKernel config value
  | .previousKernel => setPreviousKernel config value
  | .recoveryKernel => setRecoveryKernel config value
  | .cmdline => setCommandLine config value
  | .flags => setFlags config value

def setField (config : BootConfig) (seen : UInt32) (key value : List UInt8) : Except Status (BootConfig × UInt32) :=
  match fieldFromKey key with
  | none => .error (if unsupportedKey key then .unsupportedFeature else .unknownKey)
  | some field =>
    if seen &&& field.mask ≠ 0 then .error .duplicateKey
    else (applyField config field value).map (·, seen ||| field.mask)

/-- One trailing carriage return is not part of the line. -/
def stripCr (line : List UInt8) : List UInt8 := if line.getLast? = some 0x0d then line.dropLast else line

/-- One round of the line loop. -/
def parseLine (config : BootConfig) (seen : UInt32) (line : List UInt8) : Except Status (BootConfig × UInt32) :=
  let line := stripCr line
  if line.length = 0 then .ok (config, seen)
  else if line.getD 0 0 = 0x23 then .ok (config, seen)
  else
    let key := line.takeWhile (· ≠ 0x3d)
    if key.length = 0 ∨ key.length = line.length then .error .syntaxError
    else setField config seen key (line.drop (key.length + 1))

def parseLines : List (List UInt8) → BootConfig → UInt32 → Except Status (BootConfig × UInt32)
  | [], config, seen => .ok (config, seen)
  | line :: lines, config, seen =>
    match parseLine config seen line with
    | .error status => .error status
    | .ok (config, seen) => parseLines lines config seen

/-- `josh_boot_config_parse`. A text that ends in a newline has an empty last line here, which counts for
nothing. -/
def parse (text : List UInt8) : Except Status BootConfig :=
  if text.length = 0 || text.length > configMaxBytes then .error .tooLarge else
  match parseLines (text.splitOn 0x0a) zeroConfig 0 with
  | .error status => .error status
  | .ok (config, seen) =>
    if seen &&& requiredFields ≠ requiredFields then .error .missingRequired
    else if (cString config.defaultEntry).length ≠ (cString config.entryId).length ||
        !spanEqual (cString config.defaultEntry) (cString config.entryId) then .error .invalidValue
    else .ok config

/-! ### The paths of an accepted configuration -/

/-- The array holds a path that `pathValid` passed. -/
def HoldsPath (a : List UInt8) : Prop := ∃ value tail, pathValid value = true ∧ a = value ++ 0 :: tail

theorem pathValid_mem {value : List UInt8} (h : pathValid value = true) {c : UInt8} (hc : c ∈ value) :
    0x21 ≤ c ∧ c ≤ 0x7e ∧ c ≠ 0x5c := by
  have h₁ := List.all_eq_true.1 (Bool.and_eq_true_iff.1 h).2 c hc
  simp only [Bool.not_eq_true', Bool.or_eq_false_iff, decide_eq_false_iff_not, UInt8.not_lt, gt_iff_lt,
    beq_eq_false_iff_ne, ne_eq] at h₁
  exact ⟨h₁.1.1, h₁.1.2, h₁.2⟩

theorem HoldsPath.cString {a : List UInt8} (h : HoldsPath a) : pathValid (cString a) = true := by
  obtain ⟨value, tail, hv, rfl⟩ := h
  have hz : ∀ c ∈ value, (decide (c ≠ 0)) = true := by
    intro c hc
    have h₁ := (pathValid_mem hv hc).1
    refine decide_eq_true ?_
    rintro rfl
    exact absurd h₁ (by decide)
  rw [JoshBios.Config.cString, List.takeWhile_append_of_pos hz]
  simpa using hv

theorem HoldsPath.isSet {a : List UInt8} (h : HoldsPath a) : isSet a = true := by
  obtain ⟨value, tail, hv, rfl⟩ := h
  match value, hv with
  | [], hv => exact absurd hv (by decide)
  | c :: cs, hv =>
    have h₁ := (pathValid_mem hv (List.mem_cons_self ..)).1
    refine decide_eq_true ?_
    rintro (rfl : c = 0)
    exact absurd h₁ (by decide)

theorem copyValue_some {destination value a : List UInt8} {capacity : Nat}
    (h : copyValue destination capacity value = some a) :
    a = value ++ 0 :: destination.drop (value.length + 1) ∧ value.length < capacity := by
  unfold copyValue at h
  split at h
  · cases h
  · next hn =>
    cases h
    exact ⟨rfl, by omega⟩

theorem setText_ok {check : List UInt8 → Bool} {get : BootConfig → List UInt8}
    {put : BootConfig → List UInt8 → BootConfig} {capacity : Nat} {config config' : BootConfig} {value : List UInt8}
    (h : setText check capacity get put config value = .ok config') :
    ∃ a, check value = true ∧ copyValue (get config) capacity value = some a ∧ config' = put config a := by
  unfold setText at h
  split at h
  · cases h
  next hv =>
    split at h
    · cases h
    next a ha =>
      cases h
      exact ⟨a, by simpa using hv, ha, rfl⟩

theorem setText_path {get : BootConfig → List UInt8} {put : BootConfig → List UInt8 → BootConfig}
    {capacity : Nat} {config config' : BootConfig} {value : List UInt8}
    (h : setText pathValid capacity get put config value = .ok config') :
    ∃ a, HoldsPath a ∧ config' = put config a := by
  obtain ⟨a, hv, ha, rfl⟩ := setText_ok h
  exact ⟨a, ⟨value, _, hv, (copyValue_some ha).1⟩, rfl⟩

/-- A path array is a valid path or untouched, the kernel's is a valid path once its key was seen, and the
command line keeps to its array. -/
structure PathsOk (config : BootConfig) (seen : UInt32) : Prop where
  kernel : seen &&& Field.kernel.mask ≠ 0 → HoldsPath config.kernelPath
  previous : isSet config.previousKernelPath = true → HoldsPath config.previousKernelPath
  recovery : isSet config.recoveryKernelPath = true → HoldsPath config.recoveryKernelPath
  commandLine : config.commandLine.length = cmdlineMax + 1

theorem PathsOk.zero : PathsOk zeroConfig 0 := by
  refine ⟨fun h => ?_, fun h => ?_, fun h => ?_, rfl⟩
  all_goals exact absurd h (by decide)

theorem kernel_seen_of_or {seen : UInt32} {f : Field} (hf : f ≠ .kernel)
    (h : (seen ||| f.mask) &&& Field.kernel.mask ≠ 0) : seen &&& Field.kernel.mask ≠ 0 := by
  have h0 : f.mask &&& Field.kernel.mask = 0 := by
    cases f <;> first | rfl | exact absurd rfl hf
  have hd : (seen ||| f.mask) &&& Field.kernel.mask = (seen &&& Field.kernel.mask) ||| (f.mask &&& Field.kernel.mask) :=
    UInt32.toNat_inj.1 (by simp only [UInt32.toNat_and, UInt32.toNat_or, Nat.and_or_distrib_right])
  intro hs
  refine h ?_
  rw [hd, hs, h0]
  rfl

theorem applyField_paths {config config' : BootConfig} {seen : UInt32} {f : Field} {value : List UInt8}
    (h : PathsOk config seen) (ha : applyField config f value = .ok config') :
    PathsOk config' (seen ||| f.mask) := by
  have other : ∀ config', f ≠ .kernel → config'.kernelPath = config.kernelPath →
      config'.previousKernelPath = config.previousKernelPath →
      config'.recoveryKernelPath = config.recoveryKernelPath → config'.commandLine.length = cmdlineMax + 1 →
      PathsOk config' (seen ||| f.mask) := by
    intro config' hf hk hp hr hc
    refine ⟨fun hs => hk ▸ h.kernel (kernel_seen_of_or hf hs), ?_, ?_, hc⟩
    · rw [hp]; exact h.previous
    · rw [hr]; exact h.recovery
  cases f with
  | version =>
    simp only [applyField, setVersion] at ha
    split at ha
    · cases ha
    · split at ha
      · cases ha
      · cases ha
        exact other _ (by decide) rfl rfl rfl h.commandLine
  | timeout =>
    simp only [applyField, setTimeout] at ha
    split at ha
    · cases ha
    · split at ha
      · cases ha
      · cases ha
        exact other _ (by decide) rfl rfl rfl h.commandLine
  | flags =>
    simp only [applyField, setFlags] at ha
    split at ha
    · cases ha
    · cases ha
      exact other _ (by decide) rfl rfl rfl h.commandLine
  | kernel =>
    simp only [applyField, setKernel] at ha
    obtain ⟨a, hp, rfl⟩ := setText_path ha
    exact ⟨fun _ => hp, h.previous, h.recovery, h.commandLine⟩
  | previousKernel =>
    simp only [applyField, setPreviousKernel] at ha
    obtain ⟨a, hp, rfl⟩ := setText_path ha
    exact ⟨fun hs => h.kernel (kernel_seen_of_or (by decide) hs), fun _ => hp, h.recovery, h.commandLine⟩
  | recoveryKernel =>
    simp only [applyField, setRecoveryKernel] at ha
    obtain ⟨a, hp, rfl⟩ := setText_path ha
    exact ⟨fun hs => h.kernel (kernel_seen_of_or (by decide) hs), h.previous, fun _ => hp, h.commandLine⟩
  | default =>
    simp only [applyField, setDefaultEntry] at ha
    obtain ⟨a, -, -, rfl⟩ := setText_ok ha
    exact other _ (by decide) rfl rfl rfl h.commandLine
  | entry =>
    simp only [applyField, setEntryId] at ha
    obtain ⟨a, -, -, rfl⟩ := setText_ok ha
    exact other _ (by decide) rfl rfl rfl h.commandLine
  | name =>
    simp only [applyField, setName] at ha
    obtain ⟨a, -, -, rfl⟩ := setText_ok ha
    exact other _ (by decide) rfl rfl rfl h.commandLine
  | cmdline =>
    simp only [applyField, setCommandLine] at ha
    obtain ⟨a, -, hcopy, rfl⟩ := setText_ok ha
    obtain ⟨rfl, hlen⟩ := copyValue_some hcopy
    refine other _ (by decide) rfl rfl rfl ?_
    have := h.commandLine
    simp only [List.length_append, List.length_cons, List.length_drop]
    omega

theorem setField_paths {config config' : BootConfig} {seen seen' : UInt32} {key value : List UInt8}
    (h : PathsOk config seen) (hs : setField config seen key value = .ok (config', seen')) : PathsOk config' seen' := by
  unfold setField at hs
  split at hs
  · cases hs
  next f _ =>
    split at hs
    · cases hs
    match ha : applyField config f value with
    | .error _ => rw [ha] at hs; cases hs
    | .ok c => rw [ha] at hs; cases hs; exact applyField_paths h ha

theorem parseLine_paths {config config' : BootConfig} {seen seen' : UInt32} {line : List UInt8}
    (h : PathsOk config seen) (hl : parseLine config seen line = .ok (config', seen')) : PathsOk config' seen' := by
  simp only [parseLine] at hl
  split at hl
  · cases hl; exact h
  split at hl
  · cases hl; exact h
  split at hl
  · cases hl
  exact setField_paths h hl

theorem parseLines_paths {lines : List (List UInt8)} {config config' : BootConfig} {seen seen' : UInt32}
    (h : PathsOk config seen) (hl : parseLines lines config seen = .ok (config', seen')) : PathsOk config' seen' := by
  induction lines generalizing config seen with
  | nil => cases hl; exact h
  | cons line lines ih =>
    unfold parseLines at hl
    match hp : parseLine config seen line with
    | .error _ => rw [hp] at hl; cases hl
    | .ok (c, s) => rw [hp] at hl; exact ih (parseLine_paths h hp) hl

/-- What the boot code relies on: the kernel path is there, and every path it may open passed `pathValid`. -/
structure Accepted (config : BootConfig) : Prop where
  kernel : HoldsPath config.kernelPath
  previous : isSet config.previousKernelPath = true → HoldsPath config.previousKernelPath
  recovery : isSet config.recoveryKernelPath = true → HoldsPath config.recoveryKernelPath
  commandLine : config.commandLine.length = cmdlineMax + 1

theorem parse_accepted {text : List UInt8} {config : BootConfig} (h : parse text = .ok config) : Accepted config := by
  unfold parse at h
  split at h
  · cases h
  split at h
  · cases h
  next c seen hl =>
    split at h
    · cases h
    next hr =>
      split at h
      · cases h
      · cases h
        have hp := parseLines_paths PathsOk.zero hl
        refine ⟨hp.kernel fun hs => ?_, hp.previous, hp.recovery, hp.commandLine⟩
        have hm : requiredFields &&& Field.kernel.mask = Field.kernel.mask := by decide
        have hr' : seen &&& requiredFields = requiredFields := not_not.1 hr
        have hk : seen &&& Field.kernel.mask = Field.kernel.mask := by
          rw [← hm, ← UInt32.and_assoc, hr']
        exact absurd (hk.symm.trans hs) (by decide)

end JoshBios.Config
