import StagedLowering.Pass.Bind
import StagedLowering.Pass.Declare
import StagedLowering.Pass.Flatten
import StagedLowering.Pass.Resolve
import StagedLowering.Pass.Verify
import StagedLowering.Pass.Wrap
import StagedLowering.Run.PerFile

/-!
# The standard lists

The lowerings of a file, and those of a module with the file list underneath `lower_files`.
-/

namespace StagedLowering

variable {σ : Type}

def filePhases : PhaseList (Body σ File) where
  phases := [
    .alone "flatten_blocks" "splice nested blocks into their parent"
      (.transform fun _ => flattenBlocks),
    .alone "patch_parents" "repair parent links after restructuring"
      (.transform fun _ => patchParents),
    .after ["patch_parents"] "check_parents" "parent links match the tree"
      (.check fun _ => File.checkLinks),
    .after ["check_parents"] "introduce_temporaries" "bind every call result to a temporary"
      (.transform fun _ => introduceTemporaries),
    .after ["introduce_temporaries"] "check_temporaries" "every call sits in its own temporary"
      (.check fun _ => File.checkTemporaries)]
  ordered := rfl

/-- The resolution of aliases, which counts its rounds. -/
def aliasResolution : Fixpoint σ Module where
  round _ := resolveRound
  statistic := some "resolve_aliases.iterations"

def modulePhases : PhaseList (ModuleBody σ) where
  phases := [
    .alone "collect_declarations" "register functions and aliases"
      (.plain (.transform fun _ => collectDeclarations)),
    .after ["collect_declarations"] "resolve_aliases" "resolve alias chains"
      (.plain (.fixpoint aliasResolution)),
    .after ["resolve_aliases"] "resolve_calls" "bind calls to functions"
      (.plain (.transform fun _ => bindCalls)),
    .after ["resolve_calls"] "lower_files" "lower each file" (.perFile filePhases),
    .after ["lower_files"] "verify_module" "module is fully lowered"
      (.plain (.check fun context => Module.verify context.symbols)),
    .after ["lower_files"] "collect_statistics" "count what the lowering produced"
      (.plain (.transform fun _ => collectStatistics))]
  ordered := rfl

end StagedLowering
