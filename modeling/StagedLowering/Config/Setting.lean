import StagedLowering.Config
import StagedLowering.Text.Blank

/-!
# Settings

A setting is one textual option, `key` or `key=value`, with blanks around either part ignored. A
configuration is read by making the settings of a list of options in turn.
-/

namespace StagedLowering

inductive OptionError
  | unknown (option : String)
  | missingValue (option : String)
  | unexpectedValue (option : String)
  | invalidValue (option value reason : String)
deriving DecidableEq

def OptionError.message : OptionError → String
  | unknown option => s!"unknown option `{option}`"
  | missingValue option => s!"option `{option}` requires a value"
  | unexpectedValue option => s!"option `{option}` does not take a value"
  | invalidValue option value reason =>
    s!"invalid value `{value}` for option `{option}`: {reason}"

inductive Setting
  | verbose
  | timings
  | dumpIr
  | collectFileErrors
  | disable (phase : PhaseId)
  | dumpAfter (phase : PhaseId)
  | maxIterations (bound : Nat)
deriving DecidableEq

/-- The number written by decimal digits behind an optional plus sign, below `2 ^ 64`. -/
def readBound? (cs : List Char) : Option Nat :=
  let digits := match cs with
    | '+' :: rest => rest
    | _ => cs
  if digits ≠ [] ∧ digits.all (·.isDigit) then
    let bound := digits.foldl (fun n c => n * 10 + (c.toNat - '0'.toNat)) 0
    if bound < UInt64.size then some bound else none
  else none

namespace Setting

/-- The key before the first equals sign, and the value behind it if there is one. -/
def split (option : List Char) : List Char × Option (List Char) :=
  let key := option.takeWhile (· ≠ '=')
  match option.dropWhile (· ≠ '=') with
  | [] => (Text.trim key, none)
  | _ :: value => (Text.trim key, some (Text.trim value))

def flag (key : String) (setting : Setting) : Option (List Char) → Except OptionError Setting
  | none => .ok setting
  | some _ => .error (.unexpectedValue key)

def named (key : String) (setting : PhaseId → Setting) :
    Option (List Char) → Except OptionError Setting
  | none | some [] => .error (.missingValue key)
  | some value => .ok (setting (String.ofList value))

def bounded (key : String) : Option (List Char) → Except OptionError Setting
  | none => .error (.missingValue key)
  | some value =>
    match readBound? value with
    | none => .error (.invalidValue key (String.ofList value) "expected a positive integer")
    | some 0 => .error (.invalidValue key (String.ofList value) "the bound must be at least 1")
    | some bound => .ok (.maxIterations bound)

def parse (option : String) : Except OptionError Setting :=
  let (key, value) := split option.toList
  match String.ofList key with
  | "verbose" => flag "verbose" .verbose value
  | "timings" => flag "timings" .timings value
  | "dump-ir" => flag "dump-ir" .dumpIr value
  | "collect-file-errors" => flag "collect-file-errors" .collectFileErrors value
  | "disable" => named "disable" .disable value
  | "dump-after" => named "dump-after" .dumpAfter value
  | "max-fixpoint-iterations" => bounded "max-fixpoint-iterations" value
  | unknown => .error (.unknown unknown)

/-- The option that reads as this setting. -/
def text : Setting → String
  | verbose => "verbose"
  | timings => "timings"
  | dumpIr => "dump-ir"
  | collectFileErrors => "collect-file-errors"
  | disable phase => s!"disable={phase}"
  | dumpAfter phase => s!"dump-after={phase}"
  | maxIterations bound => s!"max-fixpoint-iterations={bound}"

end Setting

namespace Config

def apply (config : Config) : Setting → Config
  | .verbose => config.withDebug { verbose := true }
  | .timings => config.withDebug { timings := true }
  | .dumpIr => config.withDebug { dumpIr := true }
  | .collectFileErrors => config.withFilePolicy .collectAll
  | .disable phase => config.disable phase
  | .dumpAfter phase => config.dumpingAfter phase
  | .maxIterations bound => { config with maxIterations := bound }

/-- Makes the setting of an option in the configuration at hand. -/
def adopt (option : String) : ExceptT OptionError (StateM Config) Unit :=
  match Setting.parse option with
  | .ok setting => modify (·.apply setting)
  | .error error => throw error

/-- The configuration that adopting options makes of this one, unless one cannot be read. -/
def after (config : Config) (act : ExceptT OptionError (StateM Config) Unit) :
    Except OptionError Config :=
  match act config with
  | (.ok (), config) => .ok config
  | (.error error, _) => .error error

def applyOption (config : Config) (option : String) : Except OptionError Config :=
  config.after (adopt option)

/-- Makes every setting on top of the defaults; the first option that cannot be read is the error. -/
def ofOptions (options : List String) : Except OptionError Config :=
  after {} (options.forM adopt)

/-- The settings that make this configuration out of the default one. -/
def settings (config : Config) : List Setting :=
  (if config.debug.verbose then [.verbose] else []) ++
  (if config.debug.timings then [.timings] else []) ++
  (if config.debug.dumpIr then [.dumpIr] else []) ++
  (if config.filePolicy = .collectAll then [.collectFileErrors] else []) ++
  config.disabled.map .disable ++ config.dumpAfter.map .dumpAfter ++
  [.maxIterations config.maxIterations]

end Config
end StagedLowering
