import StagedLowering.Failure

/-!
# Configuration

What a run is told from outside: debugging aids, phases to leave out, the bound of a fixpoint, and
what happens when a file fails.
-/

namespace StagedLowering

/-- Debugging aids: phase starts at a higher level, a dump after every phase, wall times. -/
structure DebugFlags where
  verbose : Bool := false
  dumpIr : Bool := false
  timings : Bool := false
deriving DecidableEq

namespace DebugFlags

def union (flags more : DebugFlags) : DebugFlags where
  verbose := flags.verbose || more.verbose
  dumpIr := flags.dumpIr || more.dumpIr
  timings := flags.timings || more.timings

/-- The names of the flags that are set. -/
def names (flags : DebugFlags) : List String :=
  (if flags.verbose then ["VERBOSE"] else []) ++
  (if flags.dumpIr then ["DUMP_IR"] else []) ++
  (if flags.timings then ["TIMINGS"] else [])

/-- The flags with these names. -/
def ofNames (names : List String) : DebugFlags where
  verbose := "VERBOSE" ∈ names
  dumpIr := "DUMP_IR" ∈ names
  timings := "TIMINGS" ∈ names

end DebugFlags

/-- Whether the first file that fails ends the phase, or every file is lowered first. -/
inductive FilePolicy
  | failFast
  | collectAll
deriving DecidableEq

/-- A round bound that orderly programs stay far below. -/
def defaultMaxIterations : Nat := 50

structure Config where
  debug : DebugFlags := {}
  disabled : List PhaseId := []
  dumpAfter : List PhaseId := []
  maxIterations : Nat := defaultMaxIterations
  filePolicy : FilePolicy := .failFast
deriving DecidableEq

/-- The options that have one value. -/
inductive Scalar
  | verbose
  | dumpIr
  | timings
  | maxIterations
  | collectFileErrors
deriving DecidableEq

namespace Scalar

def all : List Scalar := [verbose, dumpIr, timings, maxIterations, collectFileErrors]

def default : Scalar → Nat
  | maxIterations => defaultMaxIterations
  | _ => 0

end Scalar

namespace Config

def withDebug (config : Config) (flags : DebugFlags) : Config :=
  { config with debug := config.debug.union flags }

def disable (config : Config) (phase : PhaseId) : Config :=
  { config with disabled := config.disabled ++ [phase] }

def dumpingAfter (config : Config) (phase : PhaseId) : Config :=
  { config with dumpAfter := config.dumpAfter ++ [phase] }

/-- Sets the bound, at least 1. -/
def withMaxIterations (config : Config) (bound : Nat) : Config :=
  { config with maxIterations := max bound 1 }

def withFilePolicy (config : Config) (filePolicy : FilePolicy) : Config :=
  { config with filePolicy }

/-- The value of an option; a flag counts as 1. -/
def value (config : Config) : Scalar → Nat
  | .verbose => config.debug.verbose.toNat
  | .dumpIr => config.debug.dumpIr.toNat
  | .timings => config.debug.timings.toNat
  | .maxIterations => config.maxIterations
  | .collectFileErrors => (decide (config.filePolicy = .collectAll)).toNat

def isEnabled (config : Config) (phase : PhaseId) : Bool := phase ∉ config.disabled

def shouldDump (config : Config) (phase : PhaseId) : Bool :=
  config.debug.dumpIr || phase ∈ config.dumpAfter

end Config

end StagedLowering
