import JoshBios.Config

/-! # The grammar of the boot configuration

`Grammatical` says which texts are configurations, in terms of their lines and of the values given in them; it does not
mention the parser. The checks of the parser on single values are the ones of the grammar. -/

namespace JoshBios.Config

/-! ### Lines -/

/-- How a line names the field. -/
def Field.key : Field → String
  | .version => "version"
  | .default => "default"
  | .timeout => "timeout"
  | .entry => "entry"
  | .name => "name"
  | .kernel => "kernel"
  | .cmdline => "cmdline"
  | .flags => "flags"
  | .previousKernel => "previous_kernel"
  | .recoveryKernel => "recovery_kernel"

def Field.required : List Field := [.version, .default, .timeout, .entry, .name, .kernel]

/-- Neither empty nor a comment. -/
def isContent (line : List UInt8) : Bool := line ≠ [] && line.head? ≠ some 0x23

def contentLines (text : List UInt8) : List (List UInt8) := ((text.splitOn 0x0a).map stripCr).filter isContent

/-- A key with the value that a line gives it. -/
abbrev Entry := Field × List UInt8

def entryLine (e : Entry) : List UInt8 := ascii e.1.key ++ 0x3d :: e.2

def keys (es : List Entry) : List Field := es.map Prod.fst

/-- The value of a key, empty if there is none. -/
def given (es : List Entry) (f : Field) : List UInt8 := (es.lookup f).getD []

/-! ### Values -/

def decimalFrom (n : Nat) (value : List UInt8) : Nat := value.foldl (fun n c => 10 * n + (c.toNat - 0x30)) n
def decimal (value : List UInt8) : Nat := decimalFrom 0 value

structure IsNumeral (value : List UInt8) : Prop where
  nonempty : value ≠ []
  digits : ∀ c ∈ value, 0x30 ≤ c ∧ c ≤ 0x39

def recoveryWord : List UInt8 := ascii "recovery"
def developmentWord : List UInt8 := ascii "development"

/-- No flags, or a list of distinct flag names with commas between them. -/
def IsFlags (value : List UInt8) : Prop :=
  value = [] ∨ value = ascii "none" ∨
    (∀ word ∈ value.splitOn 0x2c, word = recoveryWord ∨ word = developmentWord) ∧ (value.splitOn 0x2c).Nodup

def flagBits (recovery development : Bool) : UInt32 :=
  (if recovery then flagRecovery else 0) ||| (if development then flagDevelopment else 0)

def flagsOf (value : List UInt8) : UInt32 :=
  flagBits ((value.splitOn 0x2c).contains recoveryWord) ((value.splitOn 0x2c).contains developmentWord)

structure IsId (value : List UInt8) : Prop where
  length : 1 ≤ value.length ∧ value.length ≤ 15
  chars : ∀ c ∈ value, (0x61 ≤ c ∧ c ≤ 0x7a) ∨ (0x41 ≤ c ∧ c ≤ 0x5a) ∨ (0x30 ≤ c ∧ c ≤ 0x39) ∨ c = 0x2d ∨ c = 0x5f

structure IsPrintable (least most : Nat) (value : List UInt8) : Prop where
  length : least ≤ value.length ∧ value.length ≤ most
  chars : ∀ c ∈ value, 0x20 ≤ c ∧ c ≤ 0x7e

structure IsPath (value : List UInt8) : Prop where
  length : 2 ≤ value.length ∧ value.length ≤ 95
  absolute : value.head? = some 0x2f
  chars : ∀ c ∈ value, 0x21 ≤ c ∧ c ≤ 0x7e ∧ c ≠ 0x5c

theorem IsId.zero_free {v : List UInt8} (h : IsId v) : (0 : UInt8) ∉ v := by
  intro h0
  have hchars := h.chars 0 h0
  revert hchars
  decide

theorem IsPath.zero_free {v : List UInt8} (h : IsPath v) : (0 : UInt8) ∉ v := fun h0 => absurd (h.chars 0 h0).1 (by decide)

theorem IsPrintable.zero_free {least most : Nat} {v : List UInt8} (h : IsPrintable least most v) : (0 : UInt8) ∉ v :=
  fun h0 => absurd (h.chars 0 h0).1 (by decide)

def ValueOk : Field → List UInt8 → Prop
  | .version, value => IsNumeral value ∧ decimal value = 1
  | .timeout, value => IsNumeral value ∧ decimal value ≤ 30
  | .default, value | .entry, value => IsId value
  | .name, value => IsPrintable 1 31 value
  | .kernel, value | .previousKernel, value | .recoveryKernel, value => IsPath value
  | .cmdline, value => IsPrintable 0 127 value
  | .flags, value => IsFlags value

/-- Entries that may stand after one another. -/
structure WellFormed (es : List Entry) : Prop where
  distinct : (keys es).Nodup
  values : ∀ e ∈ es, ValueOk e.1 e.2

/-- The text is a configuration, and these are its entries. -/
structure Grammatical (text : List UInt8) (es : List Entry) : Prop where
  lines : contentLines text = es.map entryLine
  wellFormed : WellFormed es
  required : ∀ f ∈ Field.required, f ∈ keys es
  sameEntry : given es .default = given es .entry

/-! ### Values that the setters accept -/

theorem decimalFrom_cons (n : Nat) (c : UInt8) (cs : List UInt8) :
    decimalFrom n (c :: cs) = decimalFrom (10 * n + (c.toNat - 0x30)) cs := by
  rw [decimalFrom, List.foldl_cons, decimalFrom]

theorem le_decimalFrom (n : Nat) (cs : List UInt8) : n ≤ decimalFrom n cs := by
  induction cs generalizing n with
  | nil => exact Nat.le_refl n
  | cons c cs ih =>
    have := ih (10 * n + (c.toNat - 0x30))
    rw [decimalFrom_cons]
    omega

theorem parseDigits_iff {cs : List UInt8} {start n : UInt32} :
    parseDigits cs start = some n ↔ (∀ c ∈ cs, 0x30 ≤ c ∧ c ≤ 0x39) ∧ n.toNat = decimalFrom start.toNat cs := by
  induction cs generalizing start with
  | nil =>
    constructor
    · intro h
      exact ⟨fun c hc => absurd hc List.not_mem_nil, congrArg UInt32.toNat (Option.some.inj h).symm⟩
    · rintro ⟨-, h⟩
      exact congrArg some (UInt32.toNat_inj.1 h).symm
  | cons c cs ih =>
    rw [parseDigits, List.forall_mem_cons, decimalFrom_cons]
    by_cases hc : 0x30 ≤ c ∧ c ≤ 0x39
    · have hlo : 0x30 ≤ c.toNat := UInt8.le_iff_toNat_le.1 hc.1
      have hhi : c.toNat ≤ 0x39 := UInt8.le_iff_toNat_le.1 hc.2
      have hdigit : (c - 0x30).toUInt32.toNat = c.toNat - 0x30 := by
        rw [UInt8.toNat_toUInt32, UInt8.toNat_sub_of_le _ _ hc.1]
        rfl
      have hmax : ((0xffffffff : UInt32) - (c - 0x30).toUInt32).toNat = 0xffffffff - (c.toNat - 0x30) := by
        have htop : (c - 0x30).toUInt32 ≤ 0xffffffff := by
          rw [UInt32.le_iff_toNat_le, hdigit, show (0xffffffff : UInt32).toNat = 0xffffffff from rfl]
          omega
        rw [UInt32.toNat_sub_of_le _ _ htop, hdigit]
        rfl
      have hnot : ¬ (decide (c < 0x30) || decide (c > 0x39)) = true := by
        simp [UInt8.not_lt.2 hc.1, UInt8.not_lt.2 hc.2]
      rw [if_neg hnot]
      simp only
      by_cases hover : start > ((0xffffffff : UInt32) - (c - 0x30).toUInt32) / 10
      · rw [if_pos hover]
        have hlt := UInt32.lt_iff_toNat_lt.1 hover
        rw [UInt32.toNat_div, hmax, show (10 : UInt32).toNat = 10 from rfl] at hlt
        refine iff_of_false nofun fun hall => ?_
        have hle := le_decimalFrom (10 * start.toNat + (c.toNat - 0x30)) cs
        have hn := n.toNat_lt
        rw [← hall.2] at hle
        omega
      · rw [if_neg hover, ih]
        have hle := UInt32.le_iff_toNat_le.1 (UInt32.not_lt.1 hover)
        rw [UInt32.toNat_div, hmax, show (10 : UInt32).toNat = 10 from rfl] at hle
        have hstep : (start * 10 + (c - 0x30).toUInt32).toNat = 10 * start.toNat + (c.toNat - 0x30) := by
          rw [UInt32.toNat_add, UInt32.toNat_mul, hdigit, show (10 : UInt32).toNat = 10 from rfl]
          omega
        rw [hstep]
        exact ⟨fun ⟨h₁, h₂⟩ => ⟨⟨hc, h₁⟩, h₂⟩, fun ⟨⟨_, h₁⟩, h₂⟩ => ⟨h₁, h₂⟩⟩
    · have hbad : (decide (c < 0x30) || decide (c > 0x39)) = true := by
        rcases not_and_or.1 hc with h | h
        · simp [UInt8.not_le.1 h]
        · simp [UInt8.not_le.1 h]
      rw [if_pos hbad]
      exact iff_of_false nofun fun hall => hc hall.1.1

theorem parseU32_iff {value : List UInt8} {n : UInt32} :
    parseU32 value = some n ↔ IsNumeral value ∧ n.toNat = decimal value := by
  rw [parseU32]
  split
  next hlen =>
    refine iff_of_false nofun fun h => h.1.nonempty (List.length_eq_zero_iff.1 hlen)
  next hlen =>
    rw [parseDigits_iff]
    exact ⟨fun h => ⟨⟨fun h0 => hlen (congrArg List.length h0), h.1⟩, h.2⟩, fun h => ⟨h.1.digits, h.2⟩⟩

theorem parseU32_eq_none {value : List UInt8} : parseU32 value = none ↔ ¬ (IsNumeral value ∧ decimal value < 2 ^ 32) := by
  rw [Option.eq_none_iff_forall_ne_some]
  constructor
  · rintro h ⟨hnum, hlt⟩
    refine h (UInt32.ofNat (decimal value)) (parseU32_iff.2 ⟨hnum, ?_⟩)
    rw [UInt32.toNat_ofNat', Nat.mod_eq_of_lt hlt]
  · intro h n hn
    obtain ⟨hnum, heq⟩ := parseU32_iff.1 hn
    exact h ⟨hnum, heq ▸ n.toNat_lt⟩

theorem isBetween_iff {lo hi c : UInt8} : isBetween lo hi c = true ↔ lo ≤ c ∧ c ≤ hi := by
  rw [isBetween, Bool.and_eq_true, decide_eq_true_iff, decide_eq_true_iff]

theorem entryIdValid_iff {value : List UInt8} : entryIdValid value = true ↔ IsId value := by
  have hlen : (!(value.length == 0 || decide (value.length > entryIdMax))) = true ↔ 1 ≤ value.length ∧ value.length ≤ 15 := by
    rw [entryIdMax, Bool.not_eq_true', Bool.or_eq_false_iff, beq_eq_false_iff_ne, decide_eq_false_iff_not]
    omega
  rw [entryIdValid, Bool.and_eq_true, hlen, List.all_eq_true]
  simp only [Bool.or_eq_true, isBetween_iff, beq_iff_eq, or_assoc]
  exact ⟨fun h => ⟨h.1, h.2⟩, fun h => ⟨h.length, h.chars⟩⟩

theorem printable_iff {value : List UInt8} :
    (value.all fun c => !(c < 0x20 || c > 0x7e)) = true ↔ ∀ c ∈ value, 0x20 ≤ c ∧ c ≤ 0x7e := by
  rw [List.all_eq_true]
  simp only [Bool.not_eq_true', Bool.or_eq_false_iff, decide_eq_false_iff_not, UInt8.not_lt, gt_iff_lt]

theorem displayNameValid_iff {value : List UInt8} : displayNameValid value = true ↔ IsPrintable 1 31 value := by
  have hlen : (!(value.length == 0 || decide (value.length > nameMax))) = true ↔ 1 ≤ value.length ∧ value.length ≤ 31 := by
    rw [nameMax, Bool.not_eq_true', Bool.or_eq_false_iff, beq_eq_false_iff_ne, decide_eq_false_iff_not]
    omega
  rw [displayNameValid, Bool.and_eq_true, hlen, printable_iff]
  exact ⟨fun h => ⟨h.1, h.2⟩, fun h => ⟨h.length, h.chars⟩⟩

theorem commandLineValid_iff {value : List UInt8} : commandLineValid value = true ↔ IsPrintable 0 127 value := by
  have hlen : (!decide (value.length > cmdlineMax)) = true ↔ 0 ≤ value.length ∧ value.length ≤ 127 := by
    rw [cmdlineMax, Bool.not_eq_true', decide_eq_false_iff_not]
    omega
  rw [commandLineValid, Bool.and_eq_true, hlen, printable_iff]
  exact ⟨fun h => ⟨h.1, h.2⟩, fun h => ⟨h.length, h.chars⟩⟩

theorem pathValid_iff {value : List UInt8} : pathValid value = true ↔ IsPath value := by
  have hhead : value.getD 0 0 = 0x2f ↔ value.head? = some 0x2f := by
    cases value with
    | nil => exact iff_of_false (by decide) nofun
    | cons c cs => simp
  rw [pathValid, Bool.and_eq_true, List.all_eq_true]
  simp only [Bool.not_eq_true', Bool.or_eq_false_iff, decide_eq_false_iff_not, bne_eq_false_iff_eq, hhead,
    beq_eq_false_iff_ne, UInt8.not_lt, gt_iff_lt, pathMax, Nat.not_lt, and_assoc]
  exact ⟨fun h => ⟨⟨h.1, h.2.1⟩, h.2.2.1, h.2.2.2⟩, fun h => ⟨h.length.1, h.length.2, h.absolute, h.chars⟩⟩

/-- The words of a list of flags, when those in front of them set the bits. -/
theorem parseFlagWords_iff {words : List (List UInt8)} {recovery development : Bool} {flags : UInt32} :
    parseFlagWords words (flagBits recovery development) = some flags ↔
      (∀ word ∈ words, word = recoveryWord ∨ word = developmentWord) ∧ words.Nodup ∧
      (recovery = true → recoveryWord ∉ words) ∧ (development = true → developmentWord ∉ words) ∧
      flags = flagBits (recovery || words.contains recoveryWord) (development || words.contains developmentWord) := by
  have hne : recoveryWord ≠ developmentWord := by decide
  induction words generalizing recovery development with
  | nil => simp [parseFlagWords, eq_comm]
  | cons word words ih =>
    rw [parseFlagWords]
    by_cases hrec : word = recoveryWord
    · have hlen : word.length ≠ 0 := by rw [hrec]; decide
      have hspan : spanEqual word (ascii "recovery") = true := by rw [hrec]; decide
      have hbit : flagBits recovery development &&& flagRecovery ≠ 0 ↔ recovery = true := by
        cases recovery <;> cases development <;> decide
      have hset : flagBits recovery development ||| flagRecovery = flagBits true development := by
        cases recovery <;> cases development <;> decide
      rw [if_neg hlen, if_pos hspan, hset]
      subst hrec
      by_cases hb : recovery = true
      · rw [if_pos (hbit.2 hb)]
        exact iff_of_false nofun fun h => h.2.2.1 hb (List.mem_cons_self ..)
      · rw [if_neg (mt hbit.1 hb)]
        refine ih.trans ?_
        simp [hb, hne.symm, List.nodup_cons]
        tauto
    · by_cases hdev : word = developmentWord
      · have hlen : word.length ≠ 0 := by rw [hdev]; decide
        have hspan : spanEqual word (ascii "recovery") = false := by rw [hdev]; decide
        have hspan' : spanEqual word (ascii "development") = true := by rw [hdev]; decide
        have hbit : flagBits recovery development &&& flagDevelopment ≠ 0 ↔ development = true := by
          cases recovery <;> cases development <;> decide
        have hset : flagBits recovery development ||| flagDevelopment = flagBits recovery true := by
          cases recovery <;> cases development <;> decide
        rw [if_neg hlen, hspan, if_neg (by decide), if_pos hspan', hset]
        subst hdev
        by_cases hb : development = true
        · rw [if_pos (hbit.2 hb)]
          exact iff_of_false nofun fun h => h.2.2.2.1 hb (List.mem_cons_self ..)
        · rw [if_neg (mt hbit.1 hb)]
          refine ih.trans ?_
          simp [hb, hne, List.nodup_cons]
          tauto
      · have hspan : spanEqual word (ascii "recovery") = false := by simpa [spanEqual, recoveryWord] using hrec
        have hspan' : spanEqual word (ascii "development") = false := by simpa [spanEqual, developmentWord] using hdev
        refine iff_of_false ?_ fun h => ?_
        · rw [hspan, hspan']
          simp
        · exact (h.1 word (List.mem_cons_self ..)).elim hrec hdev

theorem parseFlags_iff {value : List UInt8} {flags : UInt32} :
    parseFlags value = some flags ↔ IsFlags value ∧ flags = flagsOf value := by
  rw [parseFlags]
  by_cases hnil : value = []
  · subst hnil
    rw [if_pos (by decide), show flagsOf [] = 0 by decide]
    exact ⟨fun h => ⟨Or.inl rfl, (Option.some.inj h).symm⟩, fun h => congrArg some h.2.symm⟩
  by_cases hnone : value = ascii "none"
  · subst hnone
    rw [if_pos (by decide), show flagsOf (ascii "none") = 0 by decide]
    exact ⟨fun h => ⟨Or.inr (Or.inl rfl), (Option.some.inj h).symm⟩, fun h => congrArg some h.2.symm⟩
  · rw [if_neg (by simp [spanEqual, hnil, hnone])]
    have hwords := @parseFlagWords_iff (value.splitOn 0x2c) false false flags
    simp only [Bool.false_eq_true, false_implies, true_and, Bool.false_or] at hwords
    refine hwords.trans ?_
    simp only [IsFlags, hnil, hnone, false_or, and_assoc, flagsOf]

end JoshBios.Config
