import Mathlib.Data.List.DropRight
import Mathlib.Data.List.Forall2
import StagedLowering.Config.Setting

/-!
# Options

Reading options is the inverse of writing a configuration out (`options_invert`): what is read is
exactly what options can express, an option that cannot be read leaves the configuration as it was,
and the first such option decides the error.
-/

namespace StagedLowering

/-! ### Blanks -/

namespace Text

def Trimmed (cs : List Char) : Prop :=
  (∀ c, cs.head? = some c → isBlank c = false) ∧ ∀ c, cs.getLast? = some c → isBlank c = false

variable {cs : List Char}

theorem dropWhile_of_head (plain : ∀ c, cs.head? = some c → isBlank c = false) :
    cs.dropWhile isBlank = cs := by
  cases cs with
  | nil => rfl
  | cons c rest => simp [plain c rfl]

theorem head_dropWhile (cs : List Char) {c : Char} (first : (cs.dropWhile isBlank).head? = some c) :
    isBlank c = false := by
  have plain := List.head?_dropWhile_not isBlank cs
  rwa [first] at plain

theorem trim_of_trimmed (trimmed : Trimmed cs) : trim cs = cs := by
  obtain ⟨first, last⟩ := trimmed
  rw [trim, dropWhile_of_head first, dropWhile_of_head, List.reverse_reverse]
  rwa [List.head?_reverse]

theorem trimmed_trim (cs : List Char) : Trimmed (trim cs) := by
  unfold trim
  constructor
  · intro c first
    rw [List.head?_reverse] at first
    obtain ⟨front, cut⟩ := List.dropWhile_suffix (l := (cs.dropWhile isBlank).reverse) isBlank
    refine head_dropWhile cs ?_
    rw [← List.getLast?_reverse, ← cut, List.getLast?_append, first, Option.some_or]
  · intro c last
    rw [List.getLast?_reverse] at last
    exact head_dropWhile _ last

theorem trimmed_of_plain (plain : ∀ c ∈ cs, isBlank c = false) : Trimmed cs :=
  ⟨fun c first => plain c (List.mem_of_head? first),
    fun c last => plain c (List.mem_of_getLast? last)⟩

/-- No range of blanks meets the digits. -/
theorem isBlank_of_isDigit {c : Char} (digit : c.isDigit = true) : isBlank c = false := by
  obtain ⟨low, high⟩ : 48 ≤ c.toNat ∧ c.toNat ≤ 57 := by
    simpa [Char.isDigit, UInt32.le_iff_toNat_le] using digit
  simp only [isBlank, inRanges, blankRanges, List.any_cons, List.any_nil, Bool.or_eq_false_iff,
    Bool.and_eq_false_iff, decide_eq_false_iff_not, and_true]
  omega

end Text

/-! ### Bounds -/

/-- The text is an optional plus sign and decimal digits, which write this number. -/
def Numeral (cs : List Char) (n : Nat) : Prop :=
  ∃ digits, (cs = digits ∨ cs = '+' :: digits) ∧ digits ≠ [] ∧
    (∀ c ∈ digits, c.isDigit = true) ∧ Nat.ofDigitChars 10 digits 0 = n

def unsigned (cs : List Char) : List Char :=
  match cs with
  | '+' :: rest => rest
  | _ => cs

theorem unsigned_cases (cs : List Char) : cs = unsigned cs ∨ cs = '+' :: unsigned cs := by
  unfold unsigned
  split
  · exact .inr rfl
  · exact .inl rfl

theorem unsigned_of_digits {digits : List Char} (all : ∀ c ∈ digits, c.isDigit = true) :
    unsigned digits = digits := by
  unfold unsigned
  split
  · next rest => exact absurd (all '+' List.mem_cons_self) (by decide)
  · rfl

theorem numeral_iff {cs : List Char} {n : Nat} :
    Numeral cs n ↔ (unsigned cs ≠ [] ∧ ∀ c ∈ unsigned cs, c.isDigit = true) ∧
      Nat.ofDigitChars 10 (unsigned cs) 0 = n := by
  constructor
  · rintro ⟨digits, rfl | rfl, nonempty, all, value⟩
    · rw [unsigned_of_digits all]
      exact ⟨⟨nonempty, all⟩, value⟩
    · exact ⟨⟨nonempty, all⟩, value⟩
  · rintro ⟨⟨nonempty, all⟩, value⟩
    exact ⟨unsigned cs, unsigned_cases cs, nonempty, all, value⟩

theorem readBound?_eq (cs : List Char) :
    readBound? cs =
      if unsigned cs ≠ [] ∧ (unsigned cs).all (·.isDigit) then
        if Nat.ofDigitChars 10 (unsigned cs) 0 < UInt64.size then
          some (Nat.ofDigitChars 10 (unsigned cs) 0)
        else none
      else none := by
  simp only [readBound?, Nat.ofDigitChars, Nat.mul_comm 10]
  rfl

theorem readBound?_eq_some {cs : List Char} {n : Nat} :
    readBound? cs = some n ↔ Numeral cs n ∧ n < UInt64.size := by
  rw [readBound?_eq, numeral_iff]
  simp only [List.all_eq_true]
  by_cases digits : unsigned cs ≠ [] ∧ ∀ c ∈ unsigned cs, c.isDigit = true
  · rw [if_pos digits]
    by_cases small : Nat.ofDigitChars 10 (unsigned cs) 0 < UInt64.size
    · rw [if_pos small, Option.some_inj]
      exact ⟨fun value => ⟨⟨digits, value⟩, value ▸ small⟩, fun both => both.1.2⟩
    · rw [if_neg small]
      exact ⟨nofun, fun both => absurd (both.1.2 ▸ both.2) small⟩
  · rw [if_neg digits]
    exact ⟨nofun, fun both => absurd both.1.1 digits⟩

theorem numeral_repr (n : Nat) : Numeral n.repr.toList n := by
  rw [Nat.toList_repr]
  exact ⟨Nat.toDigits 10 n, .inl rfl, Nat.toDigits_ne_nil,
    fun c member => Nat.isDigit_of_mem_toDigits (by decide) (by decide) member,
    Nat.ofDigitChars_toDigits (by decide) (by decide)⟩

theorem Numeral.trimmed {cs : List Char} {n : Nat} (numeral : Numeral cs n) : Text.Trimmed cs := by
  obtain ⟨digits, shape, -, all, -⟩ := numeral
  apply Text.trimmed_of_plain
  intro c member
  rcases shape with rfl | rfl
  · exact Text.isBlank_of_isDigit (all c member)
  · rcases List.mem_cons.mp member with rfl | member
    · rfl
    · exact Text.isBlank_of_isDigit (all c member)

/-! ### Settings -/

/-- What an option can say: a name that is its own value once blanks are dropped, and a bound of at
most 64 bits that is not 0. -/
def Setting.Expressible : Setting → Prop
  | .disable phase | .dumpAfter phase => phase ≠ "" ∧ Text.Trimmed phase.toList
  | .maxIterations bound => 1 ≤ bound ∧ bound < UInt64.size
  | .verbose | .timings | .dumpIr | .collectFileErrors => True

namespace Setting

variable {option key phase : String} {setting : Setting} {value : Option (List Char)}

/-- An option is cut at its first equals sign. -/
theorem split_of_mem {cs : List Char} (absent : '=' ∉ cs) (value : List Char) :
    split (cs ++ '=' :: value) = (Text.trim cs, some (Text.trim value)) := by
  have plain : ∀ c ∈ cs, decide (c ≠ '=') = true := fun c member =>
    decide_eq_true fun same => absent (same ▸ member)
  rw [split, List.takeWhile_append_of_pos plain, List.dropWhile_append_of_pos plain]
  simp

theorem trimmed_split {cs value : List Char} (valued : (split cs).2 = some value) :
    Text.Trimmed value := by
  unfold split at valued
  split at valued
  · cases valued
  · cases valued
    exact Text.trimmed_trim _

theorem flag_eq_ok {made : Setting} :
    flag key made value = .ok setting ↔ value = none ∧ setting = made := by
  cases value with
  | none => exact ⟨fun read => ⟨rfl, (Except.ok.inj read).symm⟩, fun both => both.2 ▸ rfl⟩
  | some value => exact ⟨nofun, nofun⟩

theorem named_eq_ok {make : PhaseId → Setting} :
    named key make value = .ok setting ↔
      ∃ phase : PhaseId, phase ≠ "" ∧ value = some phase.toList ∧ setting = make phase := by
  constructor
  · intro read
    rcases value with _ | _ | ⟨c, cs⟩
    · cases read
    · cases read
    · refine ⟨String.ofList (c :: cs), ?_, by rw [String.toList_ofList], (Except.ok.inj read).symm⟩
      exact fun empty => nomatch String.ofList_eq_empty_iff.mp empty
  · rintro ⟨phase, nonempty, rfl, rfl⟩
    unfold named
    split
    · next absent => cases absent
    · next empty => exact absurd (String.toList_eq_nil_iff.mp (Option.some.inj empty)) nonempty
    · next same =>
      cases same
      rw [String.ofList_toList]

theorem bounded_eq_ok {cs : List Char} :
    bounded key (some cs) = .ok setting ↔
      ∃ bound, Numeral cs bound ∧ 1 ≤ bound ∧ bound < UInt64.size ∧
        setting = .maxIterations bound := by
  constructor
  · intro made
    simp only [bounded] at made
    split at made
    · cases made
    · cases made
    · next bound positive read =>
      cases made
      obtain ⟨numeral, small⟩ := readBound?_eq_some.mp read
      exact ⟨bound, numeral, Nat.one_le_iff_ne_zero.mpr positive, small, rfl⟩
  · rintro ⟨bound, numeral, positive, small, rfl⟩
    rw [bounded, readBound?_eq_some.mpr ⟨numeral, small⟩]
    cases bound with
    | zero => cases positive
    | succ bound => rfl

/-! ### Reading and writing settings -/

/-- An option with a key that is trimmed already. -/
theorem split_keyed {keyed : String} (apart : keyed.toList = key.toList ++ ['='])
    (absent : '=' ∉ key.toList) (bare : Text.trim key.toList = key.toList) (value : String) :
    split (keyed ++ value).toList = (key.toList, some (Text.trim value.toList)) := by
  rw [String.toList_append, apart, List.append_assoc, List.singleton_append, split_of_mem absent,
    bare]

/-- What is behind the equals sign is the value if it has no blanks around it. -/
theorem split_valued {keyed : String} (apart : keyed.toList = key.toList ++ ['='])
    (absent : '=' ∉ key.toList) (bare : Text.trim key.toList = key.toList) {value : String}
    (trimmed : Text.Trimmed value.toList) :
    split (keyed ++ value).toList = (key.toList, some value.toList) := by
  rw [split_keyed apart absent bare, Text.trim_of_trimmed trimmed]

theorem parse_text (expressible : setting.Expressible) : parse setting.text = .ok setting := by
  cases setting with
  | verbose => rfl
  | timings => rfl
  | dumpIr => rfl
  | collectFileErrors => rfl
  | disable phase =>
    have cut : split (text (.disable phase)).toList = ("disable".toList, some phase.toList) :=
      split_valued rfl (by decide) rfl expressible.2
    rw [parse, cut]
    exact named_eq_ok.mpr ⟨phase, expressible.1, rfl, rfl⟩
  | dumpAfter phase =>
    have cut : split (text (.dumpAfter phase)).toList = ("dump-after".toList, some phase.toList) :=
      split_valued rfl (by decide) rfl expressible.2
    rw [parse, cut]
    exact named_eq_ok.mpr ⟨phase, expressible.1, rfl, rfl⟩
  | maxIterations bound =>
    have cut : split (text (.maxIterations bound)).toList =
        ("max-fixpoint-iterations".toList, some bound.repr.toList) :=
      split_valued rfl (by decide) rfl (numeral_repr bound).trimmed
    rw [parse, cut]
    exact bounded_eq_ok.mpr ⟨bound, numeral_repr bound, expressible.1, expressible.2, rfl⟩

theorem expressible_of_parse (read : parse option = .ok setting) : setting.Expressible := by
  have trimmed : ∀ value, (split option.toList).2 = some value → Text.Trimmed value :=
    fun value valued => trimmed_split valued
  unfold parse at read
  generalize split option.toList = parts at read trimmed
  obtain ⟨key, value⟩ := parts
  dsimp only at read
  split at read
  case h_1 | h_2 | h_3 | h_4 =>
    obtain ⟨-, rfl⟩ := flag_eq_ok.mp read
    trivial
  case h_5 | h_6 =>
    obtain ⟨phase, nonempty, valued, rfl⟩ := named_eq_ok.mp read
    exact ⟨nonempty, trimmed _ valued⟩
  case h_7 =>
    cases value with
    | none => cases read
    | some value =>
      obtain ⟨bound, -, positive, small, rfl⟩ := bounded_eq_ok.mp read
      exact ⟨positive, small⟩
  case h_8 => cases read

end Setting

/-! ### Configurations -/

namespace Config

open Setting (parse)

variable {config last : Config} {option : String} {options : List String} {setting : Setting}
  {made : List Setting} {error : OptionError}

theorem adopt_of_read (read : parse option = .ok setting) :
    adopt option config = (.ok (), config.apply setting) := by
  rw [adopt, read]
  rfl

theorem adopt_of_refused (refused : parse option = .error error) :
    adopt option config = (.error error, config) := by
  rw [adopt, refused]
  rfl

theorem adopt_eq_error (failed : adopt option config = (.error error, last)) : last = config := by
  cases outcome : parse option with
  | ok setting =>
    rw [adopt_of_read outcome] at failed
    cases failed
  | error refused =>
    rw [adopt_of_refused outcome] at failed
    exact (Prod.mk.inj failed).2.symm

theorem forM_adopt_of_read (read : parse option = .ok setting) :
    (option :: options).forM adopt config = options.forM adopt (config.apply setting) := by
  change StateT.bind (adopt option) (ExceptT.bindCont fun _ => options.forM adopt) config = _
  simp only [StateT.bind, adopt_of_read read]
  rfl

theorem forM_adopt_of_refused (refused : parse option = .error error) :
    (option :: options).forM adopt config = (.error error, config) := by
  change StateT.bind (adopt option) (ExceptT.bindCont fun _ => options.forM adopt) config = _
  simp only [StateT.bind, adopt_of_refused refused]
  rfl

theorem applyOption_eq_ok :
    config.applyOption option = .ok last ↔
      ∃ setting, parse option = .ok setting ∧ last = config.apply setting := by
  rw [applyOption, after]
  cases outcome : parse option with
  | ok setting =>
    rw [adopt_of_read outcome]
    exact ⟨fun made => ⟨setting, rfl, (Except.ok.inj made).symm⟩,
      fun ⟨_, same, made⟩ => by rw [made, Except.ok.inj same]⟩
  | error refused =>
    rw [adopt_of_refused outcome]
    exact ⟨nofun, fun ⟨_, read, _⟩ => nomatch read⟩

/-- Options that can all be read are made in turn. -/
theorem after_forM_eq_ok :
    config.after (options.forM adopt) = .ok last ↔
      ∃ settings, List.Forall₂ (fun option setting => parse option = .ok setting) options settings ∧
        last = settings.foldl apply config := by
  induction options generalizing config with
  | nil =>
    constructor
    · intro made
      exact ⟨[], .nil, (Except.ok.inj made).symm⟩
    · rintro ⟨_, ⟨⟩, rfl⟩
      rfl
  | cons option rest ih =>
    rw [after]
    cases outcome : parse option with
    | ok setting =>
      rw [forM_adopt_of_read outcome]
      refine ih.trans ⟨?_, ?_⟩
      · rintro ⟨settings, read, rfl⟩
        exact ⟨setting :: settings, .cons outcome read, rfl⟩
      · rintro ⟨_, _ | ⟨first, read⟩, rfl⟩
        rw [outcome] at first
        cases first
        exact ⟨_, read, rfl⟩
    | error refused =>
      rw [forM_adopt_of_refused outcome]
      refine ⟨nofun, ?_⟩
      rintro ⟨_, _ | ⟨first, -⟩, -⟩
      rw [outcome] at first
      cases first

/-- The error is that of the first option that cannot be read. -/
theorem after_forM_eq_error :
    config.after (options.forM adopt) = .error error ↔
      ∃ before option after, options = before ++ option :: after ∧
        (∀ earlier ∈ before, ∃ setting, parse earlier = .ok setting) ∧
          parse option = .error error := by
  induction options generalizing config with
  | nil =>
    refine ⟨nofun, ?_⟩
    rintro ⟨before, option, after, split, -⟩
    exact absurd split.symm (List.append_ne_nil_of_right_ne_nil _ (List.cons_ne_nil option after))
  | cons option rest ih =>
    rw [after]
    cases outcome : parse option with
    | ok setting =>
      rw [forM_adopt_of_read outcome]
      refine ih.trans ⟨?_, ?_⟩
      · rintro ⟨before, refusing, after, rfl, earlier, refused⟩
        refine ⟨option :: before, refusing, after, rfl, ?_, refused⟩
        exact List.forall_mem_cons.mpr ⟨⟨setting, outcome⟩, earlier⟩
      · rintro ⟨_ | ⟨first, before⟩, refusing, after, split, earlier, refused⟩
        · cases split
          rw [outcome] at refused
          cases refused
        · cases split
          exact ⟨before, refusing, after, rfl, (List.forall_mem_cons.mp earlier).2, refused⟩
    | error refusal =>
      rw [forM_adopt_of_refused outcome]
      constructor
      · intro made
        cases made
        exact ⟨[], option, rest, rfl, fun _ earlier => (List.not_mem_nil earlier).elim, outcome⟩
      · rintro ⟨_ | ⟨first, before⟩, refusing, after, split, earlier, refused⟩
        · cases split
          rw [outcome] at refused
          cases refused
          rfl
        · cases split
          obtain ⟨setting, read⟩ := earlier option List.mem_cons_self
          rw [outcome] at read
          cases read

/-! ### Writing a configuration out -/

theorem foldl_disable (config : Config) (phases : List PhaseId) :
    (phases.map Setting.disable).foldl apply config =
      { config with disabled := config.disabled ++ phases } := by
  induction phases generalizing config with
  | nil => simp
  | cons phase rest ih => simp [ih, apply, disable]

theorem foldl_dumpAfter (config : Config) (phases : List PhaseId) :
    (phases.map Setting.dumpAfter).foldl apply config =
      { config with dumpAfter := config.dumpAfter ++ phases } := by
  induction phases generalizing config with
  | nil => simp
  | cons phase rest ih => simp [ih, apply, dumpingAfter]

/-- The settings of a configuration, made on top of the defaults, are that configuration. -/
theorem foldl_settings (config : Config) : config.settings.foldl apply {} = config := by
  obtain ⟨⟨verbose, dumpIr, timings⟩, disabled, dumpAfter, maxIterations, filePolicy⟩ := config
  simp only [settings, List.foldl_append, foldl_disable, foldl_dumpAfter]
  cases verbose <;> cases dumpIr <;> cases timings <;> cases filePolicy <;> rfl

structure Expressible (config : Config) : Prop where
  bounded : 1 ≤ config.maxIterations ∧ config.maxIterations < UInt64.size
  named : ∀ phase ∈ config.disabled ++ config.dumpAfter, phase ≠ "" ∧ Text.Trimmed phase.toList

theorem Expressible.settings (expressible : config.Expressible)
    (member : setting ∈ config.settings) : setting.Expressible := by
  obtain ⟨bounded, named⟩ := expressible
  simp only [Config.settings, List.mem_append, List.mem_ite_nil_right, List.mem_singleton,
    List.mem_map] at member
  obtain (((((⟨-, rfl⟩ | ⟨-, rfl⟩) | ⟨-, rfl⟩) | ⟨-, rfl⟩) | ⟨phase, listed, rfl⟩) |
    ⟨phase, listed, rfl⟩) | rfl := member
  · trivial
  · trivial
  · trivial
  · trivial
  · exact named phase (List.mem_append_left _ listed)
  · exact named phase (List.mem_append_right _ listed)
  · exact bounded

theorem Expressible.apply (expressible : config.Expressible) (sayable : setting.Expressible) :
    (config.apply setting).Expressible := by
  obtain ⟨bounded, named⟩ := expressible
  cases setting with
  | verbose => exact ⟨bounded, named⟩
  | timings => exact ⟨bounded, named⟩
  | dumpIr => exact ⟨bounded, named⟩
  | collectFileErrors => exact ⟨bounded, named⟩
  | maxIterations bound => exact ⟨sayable, named⟩
  | disable phase =>
    refine ⟨bounded, fun other listed => ?_⟩
    simp only [Config.apply, disable, List.append_assoc, List.mem_append, List.mem_singleton]
      at listed
    rcases listed with old | rfl | old
    · exact named other (List.mem_append_left _ old)
    · exact sayable
    · exact named other (List.mem_append_right _ old)
  | dumpAfter phase =>
    refine ⟨bounded, fun other listed => ?_⟩
    rw [Config.apply, dumpingAfter, ← List.append_assoc, List.mem_append, List.mem_singleton]
      at listed
    rcases listed with old | rfl
    · exact named other old
    · exact sayable

theorem expressible_default : Expressible {} :=
  ⟨by decide, fun _ listed => (List.not_mem_nil listed).elim⟩

theorem Expressible.foldl (expressible : config.Expressible)
    (read : List.Forall₂ (fun option setting => parse option = .ok setting) options made) :
    (made.foldl Config.apply config).Expressible := by
  induction read generalizing config with
  | nil => exact expressible
  | cons first _ ih => exact ih (expressible.apply (Setting.expressible_of_parse first))

theorem forall₂_text (sayable : ∀ setting ∈ made, setting.Expressible) :
    List.Forall₂ (fun option setting => parse option = .ok setting) (made.map Setting.text) made :=
  List.forall₂_map_left_iff.mpr
    (List.forall₂_same.mpr fun setting member => Setting.parse_text (sayable setting member))

theorem parse_bound (value : String) :
    parse ("max-fixpoint-iterations=" ++ value) =
      Setting.bounded "max-fixpoint-iterations" (some (Text.trim value.toList)) := by
  have cut : Setting.split ("max-fixpoint-iterations=" ++ value).toList =
      ("max-fixpoint-iterations".toList, some (Text.trim value.toList)) :=
    Setting.split_keyed rfl (by decide) rfl value
  rw [parse, cut]
  rfl

theorem ofOptions_singleton (option : String) :
    ofOptions [option] = (parse option).map (Config.apply {}) := by
  rw [ofOptions, after]
  cases outcome : parse option with
  | ok setting =>
    rw [forM_adopt_of_read outcome]
    rfl
  | error error =>
    rw [forM_adopt_of_refused outcome]
    rfl

theorem ofOptions_singleton_eq_ok :
    (∃ config, ofOptions [option] = .ok config) ↔ ∃ setting, parse option = .ok setting := by
  rw [ofOptions_singleton]
  cases parse option with
  | ok setting => exact ⟨fun _ => ⟨setting, rfl⟩, fun _ => ⟨_, rfl⟩⟩
  | error error => exact ⟨nofun, nofun⟩

theorem ofOptions_singleton_eq_error :
    ofOptions [option] = .error error ↔ parse option = .error error := by
  rw [ofOptions_singleton]
  cases parse option with
  | ok setting => exact ⟨nofun, nofun⟩
  | error refused => exact ⟨fun same => by cases same; rfl, fun same => by cases same; rfl⟩

/-- Writing a configuration out and reading it again gives it back, and what can be read is what can
be written. A bound is read from a numeral alone. An option that is refused changes nothing, and the
error of a list is that of its first option that would be refused by itself. -/
theorem options_invert :
    (∀ config : Config, config.Expressible →
      ofOptions (config.settings.map Setting.text) = .ok config) ∧
    (∀ (options : List String) (config : Config), ofOptions options = .ok config →
      config.Expressible) ∧
    (∀ (config next : Config) (value : String),
      config.applyOption ("max-fixpoint-iterations=" ++ value) = .ok next ↔
        ∃ bound, Numeral (Text.trim value.toList) bound ∧ 1 ≤ bound ∧ bound < UInt64.size ∧
          next = { config with maxIterations := bound }) ∧
    (∀ (config next : Config) (option : String) (error : OptionError),
      adopt option config = (.error error, next) → next = config) ∧
    ∀ (options : List String) (error : OptionError),
      ofOptions options = .error error ↔
        ∃ before option after, options = before ++ option :: after ∧
          (∀ earlier ∈ before, ∃ config, ofOptions [earlier] = .ok config) ∧
            ofOptions [option] = .error error := by
  refine ⟨?writtenOut, ?readBack, ?bounds, ?unchanged, ?firstRefused⟩
  case writtenOut =>
    intro config expressible
    have read := forall₂_text fun setting member => expressible.settings member
    exact after_forM_eq_ok.mpr ⟨config.settings, read, (foldl_settings config).symm⟩
  case readBack =>
    intro options config result
    obtain ⟨made, read, rfl⟩ := after_forM_eq_ok.mp result
    exact expressible_default.foldl read
  case bounds =>
    intro config next value
    rw [applyOption_eq_ok, parse_bound]
    simp only [Setting.bounded_eq_ok]
    constructor
    · rintro ⟨_, ⟨bound, numeral, positive, small, rfl⟩, rfl⟩
      exact ⟨bound, numeral, positive, small, rfl⟩
    · rintro ⟨bound, numeral, positive, small, rfl⟩
      exact ⟨.maxIterations bound, ⟨bound, numeral, positive, small, rfl⟩, rfl⟩
  case unchanged => exact fun _ _ _ _ failed => adopt_eq_error failed
  case firstRefused =>
    intro options error
    simp only [ofOptions_singleton_eq_ok, ofOptions_singleton_eq_error]
    exact after_forM_eq_error

def busy : Config where
  debug := { verbose := true, dumpIr := true, timings := true }
  disabled := ["flatten-blocks", "a = b"]
  dumpAfter := ["x=", "flatten-blocks"]
  maxIterations := UInt64.size - 1
  filePolicy := .collectAll

theorem options_invert_busy : busy.Expressible ∧
    ofOptions ["verbose", "timings", "dump-ir", "collect-file-errors", "disable=flatten-blocks",
      "disable=a = b", "dump-after=x=", "dump-after=flatten-blocks",
      "max-fixpoint-iterations=18446744073709551615"] = .ok busy := by
  have expressible : busy.Expressible := by
    refine ⟨by decide, fun phase listed => ?_⟩
    simp only [busy, List.cons_append, List.nil_append, List.mem_cons, List.not_mem_nil, or_false]
      at listed
    rcases listed with rfl | rfl | rfl | rfl
    all_goals
      refine ⟨by decide, ?_, ?_⟩
      · rintro _ ⟨⟩
        rfl
      · rintro _ ⟨⟩
        rfl
  exact ⟨expressible, options_invert.1 busy expressible⟩

end Config

end StagedLowering
