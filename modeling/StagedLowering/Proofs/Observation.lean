import StagedLowering.Proofs.Policies

/-!
# Debugging options only observe

Nothing that a run does depends on the trace or on the dumps, which is where the debugging options
write. So two runs under configurations that differ in these options go side by side: they end alike
and leave states that agree in everything else (`Pipeline.runs_agree`).
-/

namespace StagedLowering

variable {σ υ : Type}

/-! ### States that agree but for what is observed -/

def State.Agrees (s t : State σ υ) : Prop :=
  ∃ (trace : Trace) (dumps : List Dump),
    t = { s with trace, context := { s.context with dumps } }

theorem State.Agrees.refl (state : State σ υ) : state.Agrees state :=
  ⟨state.trace, state.context.dumps, rfl⟩

theorem State.Agrees.unit {s t : State σ υ} (agrees : s.Agrees t) : t.unit = s.unit := by
  obtain ⟨trace, dumps, rfl⟩ := agrees
  rfl

theorem State.Agrees.traced {s t : State σ υ} (agrees : s.Agrees t) (trace other : Trace) :
    State.Agrees { s with trace } { t with trace := other } := by
  obtain ⟨_, dumps, rfl⟩ := agrees
  exact ⟨other, dumps, rfl⟩

def Run.Mirrors {ε α : Type} (act other : Run σ υ ε α) : Prop :=
  ∀ ⦃s t : State σ υ⦄, s.Agrees t → ∃ result last otherLast,
    act s = (result, last) ∧ other t = (result, otherLast) ∧ last.Agrees otherLast

namespace Run.Mirrors

variable {ε α β : Type}

theorem pure (a : α) : (Pure.pure a : Run σ υ ε α).Mirrors (Pure.pure a) :=
  fun s t agrees => ⟨.ok a, s, t, rfl, rfl, agrees⟩

theorem fail (error : ε) : (Run.fail error : Run σ υ ε α).Mirrors (Run.fail error) :=
  fun s t agrees => ⟨.error (.error error), s, t, rfl, rfl, agrees⟩

/-- What is emitted need not be the same. -/
theorem emit (event other : Event) :
    (Run.emit event : Run σ υ ε Unit).Mirrors (Run.emit other) :=
  fun _ _ agrees => ⟨.ok (), _, _, rfl, rfl, agrees.traced _ _⟩

theorem bump (name : String) (amount : Nat) :
    (Run.onContext (·.bump name amount) : Run σ υ ε Unit).Mirrors
      (Run.onContext (·.bump name amount)) := by
  rintro s _ ⟨trace, dumps, rfl⟩
  exact ⟨.ok (), _, _, rfl, rfl, _, _, rfl⟩

theorem bind {act other : Run σ υ ε α} {next otherNext : α → Run σ υ ε β}
    (first : act.Mirrors other) (second : ∀ a, (next a).Mirrors (otherNext a)) :
    (act >>= next).Mirrors (other >>= otherNext) := by
  intro s t agrees
  obtain ⟨stop | a, middle, otherMiddle, ran, otherRan, left⟩ := first agrees
  · rw [Run.bind_of_error ran, Run.bind_of_error otherRan]
    exact ⟨_, middle, otherMiddle, rfl, rfl, left⟩
  · rw [Run.bind_of_ok ran, Run.bind_of_ok otherRan]
    exact second a left

theorem forM {step other : α → Run σ υ ε Unit} {list : List α}
    (mirrors : ∀ a ∈ list, (step a).Mirrors (other a)) :
    Run.Mirrors (list.forM step) (list.forM other) := by
  induction list with
  | nil => exact Mirrors.pure ()
  | cons a rest ih =>
    have later := ih fun b member => mirrors b (List.mem_cons_of_mem _ member)
    exact (mirrors a List.mem_cons_self).bind fun _ => later

theorem attempt {ε' : Type} {act other : Run σ υ ε α} (mirrors : act.Mirrors other) :
    (Run.attempt act : Run σ υ ε' (Except ε α)).Mirrors (Run.attempt other) := by
  intro s t agrees
  obtain ⟨(error | _) | a, last, otherLast, ran, otherRan, left⟩ := mirrors agrees
  · rw [Run.attempt_apply, Run.attempt_apply, ran, otherRan]
    exact ⟨_, _, _, rfl, rfl, left⟩
  · rw [Run.attempt_apply, Run.attempt_apply, ran, otherRan]
    exact ⟨_, _, _, rfl, rfl, left⟩
  · rw [Run.attempt_apply, Run.attempt_apply, ran, otherRan]
    exact ⟨_, _, _, rfl, rfl, left⟩

theorem inSpan {act other : Run σ υ ε α} (mirrors : act.Mirrors other) (span : Span) :
    (Run.inSpan span act).Mirrors (Run.inSpan span other) := by
  intro s t agrees
  have entered : State.Agrees { s with trace := s.trace.enter span }
      { t with trace := t.trace.enter span } := agrees.traced _ _
  obtain ⟨result, last, otherLast, ran, otherRan, left⟩ := mirrors entered
  rw [Run.inSpan_apply, Run.inSpan_apply, ran, otherRan]
  exact ⟨_, _, _, rfl, rfl, left.traced _ _⟩

theorem settleFrom {round other : Run σ υ Failure Progress} (mirrors : round.Mirrors other)
    (done residual left : Nat) :
    (StagedLowering.settleFrom round done residual left).Mirrors
      (StagedLowering.settleFrom other done residual left) := by
  induction left generalizing done residual with
  | zero => exact Mirrors.fail _
  | succ left ih =>
    refine mirrors.bind fun progress => ?_
    split
    · exact Mirrors.pure _
    · exact (Mirrors.emit _ _).bind fun _ => ih _ _

theorem fixpoint {loop : Fixpoint σ υ} {config other : Config}
    (mirrors : (loop.round config).Mirrors (loop.round other))
    (bound : other.maxIterations = config.maxIterations) :
    (loop.run config).Mirrors (loop.run other) := by
  unfold Fixpoint.run settle
  rw [bound]
  refine (mirrors.settleFrom _ _ _).bind fun iterations => (Mirrors.emit _ _).bind fun _ => ?_
  cases loop.statistic with
  | none => exact Mirrors.pure _
  | some name => exact Mirrors.bump name iterations

/-- A check that reads nothing but symbols finds the same. -/
theorem check (holds : SymbolTable → υ → Except Violation Unit) (config other : Config) :
    ((Body.check fun context => holds context.symbols).run config : Run σ υ Failure Unit).Mirrors
      ((Body.check fun context => holds context.symbols).run other) := by
  rintro s _ ⟨trace, dumps, rfl⟩
  rw [Body.check_apply, Body.check_apply]
  rcases holds s.context.symbols s.unit with violation | _
  · exact ⟨_, _, _, rfl, rfl, _, _, rfl⟩
  · exact ⟨_, _, _, rfl, rfl, _, _, rfl⟩

end Run.Mirrors

/-! ### Phases -/

structure Config.Debugs (config other : Config) : Prop where
  disabled : other.disabled = config.disabled
  maxIterations : other.maxIterations = config.maxIterations
  filePolicy : other.filePolicy = config.filePolicy

variable {config other : Config} {label : String}

namespace Phase

variable {β : Type} {phase : Phase β} {depth : Nat} {failure : Failure} {s t : State σ υ}

theorem agrees_giveUp (agrees : s.Agrees t) :
    (phase.giveUp config label depth failure s).Agrees
      (phase.giveUp other label depth failure t) := by
  obtain ⟨trace, dumps, rfl⟩ := agrees
  unfold giveUp
  cases failure.isNested
  · exact ⟨_, _, rfl⟩
  · exact ⟨_, _, rfl⟩

/-- One run may write a dump here and the other none. -/
theorem agrees_finish [WorkUnit υ] (agrees : s.Agrees t) :
    (phase.finish config label depth s).Agrees (phase.finish other label depth t) := by
  obtain ⟨trace, dumps, rfl⟩ := agrees
  unfold finish
  cases config.shouldDump phase.id <;> cases other.shouldDump phase.id <;> exact ⟨_, _, rfl⟩

variable [Executable β σ υ] [WorkUnit υ]

theorem mirrors_execute
    (body : (Executable.run phase.body config : Run σ υ Failure Unit).Mirrors
      (Executable.run phase.body other)) :
    (phase.execute config label depth : Run σ υ PhaseError Unit).Mirrors
      (phase.execute other label depth) := by
  intro s t agrees
  have begun : (phase.begin config label s).Agrees (phase.begin other label t) :=
    agrees.traced _ _
  obtain ⟨(failure | _) | _, last, otherLast, ran, otherRan, left⟩ := body begun
  · rw [Phase.execute_apply, Phase.execute_apply, ran, otherRan]
    exact ⟨_, _, _, rfl, rfl, agrees_giveUp left⟩
  · rw [Phase.execute_apply, Phase.execute_apply, ran, otherRan]
    exact ⟨_, _, _, rfl, rfl, left.traced _ _⟩
  · rw [Phase.execute_apply, Phase.execute_apply, ran, otherRan]
    exact ⟨_, _, _, rfl, rfl, agrees_finish left⟩

theorem mirrors_run (debugs : config.Debugs other)
    (body : (Executable.run phase.body config : Run σ υ Failure Unit).Mirrors
      (Executable.run phase.body other)) :
    (phase.run config label : Run σ υ PhaseError Unit).Mirrors (phase.run other label) := by
  have enabled : other.isEnabled phase.id = config.isEnabled phase.id := by
    unfold Config.isEnabled
    rw [debugs.disabled]
  rintro s _ ⟨trace, dumps, rfl⟩
  have executes :
      (phase.execute config label s.context.scope.depth : Run σ υ PhaseError Unit).Mirrors
        (phase.execute other label s.context.scope.depth) := mirrors_execute body
  rw [Phase.run_apply, Phase.run_apply, enabled]
  cases s.context.cancelled with
  | true => exact ⟨_, _, _, rfl, rfl, _, _, rfl⟩
  | false =>
    cases config.isEnabled phase.id with
    | false => exact ⟨_, _, _, rfl, rfl, _, _, rfl⟩
    | true =>
      cases phase.prerequisites.find? (!s.context.scope.isDone ·) with
      | some prerequisite => exact ⟨_, _, _, rfl, rfl, _, _, rfl⟩
      | none => exact executes ⟨trace, dumps, rfl⟩

end Phase

theorem PhaseList.mirrors_run {β : Type} [Executable β σ υ] [WorkUnit υ] {list : PhaseList β}
    (debugs : config.Debugs other)
    (bodies : ∀ phase ∈ list.phases,
      (Executable.run phase.body config : Run σ υ Failure Unit).Mirrors
        (Executable.run phase.body other)) :
    (list.run config : Run σ υ PhaseError Unit).Mirrors (list.run other) := by
  intro s t agrees
  rw [PhaseList.run_apply, PhaseList.run_apply, agrees.unit]
  exact Run.Mirrors.forM (fun phase member => Phase.mirrors_run debugs (bodies phase member)) agrees

/-! ### Files -/

namespace PhaseList

variable {list : PhaseList (Body σ File)}

theorem agrees_enter {s t : State σ File} (agrees : s.Agrees t) : (enter s).Agrees (enter t) := by
  obtain ⟨trace, dumps, rfl⟩ := agrees
  exact ⟨_, _, rfl⟩

theorem agrees_leave {s t : State σ File} (agrees : s.Agrees t) : (leave s).Agrees (leave t) := by
  obtain ⟨trace, dumps, rfl⟩ := agrees
  unfold leave Context.exitScope
  cases s.context.enclosing with
  | nil => exact ⟨_, _, rfl⟩
  | cons scope enclosing => exact ⟨_, _, rfl⟩

theorem mirrors_runFile (mirrors : (list.run config).Mirrors (list.run other)) :
    (list.runFile config).Mirrors (list.runFile other) := by
  intro s t agrees
  obtain ⟨(error | _) | _, last, otherLast, ran, otherRan, left⟩ := mirrors (agrees_enter agrees)
  · rw [runFile_apply, runFile_apply, ran, otherRan]
    exact ⟨_, _, _, rfl, rfl, agrees_leave left⟩
  · rw [runFile_apply, runFile_apply, ran, otherRan]
    exact ⟨_, _, _, rfl, rfl, left.traced _ _⟩
  · rw [runFile_apply, runFile_apply, ran, otherRan]
    exact ⟨_, _, _, rfl, rfl, agrees_leave left⟩

theorem mirrors_onFile {ε α : Type} {act again : Run σ File ε α} (mirrors : act.Mirrors again)
    (i : Nat) : (Run.onFile i act).Mirrors (Run.onFile i again) := by
  rintro s _ ⟨trace, dumps, rfl⟩
  unfold Run.onFile
  cases s.unit.files[i]? with
  | none => exact ⟨_, _, _, rfl, rfl, _, _, rfl⟩
  | some file =>
    have entered : State.Agrees ({ s with unit := file } : State σ File)
        { s with trace, context := { s.context with dumps }, unit := file } := ⟨_, _, rfl⟩
    obtain ⟨result, last, _, ran, otherRan, trace, dumps, rfl⟩ := mirrors entered
    dsimp only at ran otherRan ⊢
    rw [ran, otherRan]
    exact ⟨_, _, _, rfl, rfl, _, _, rfl⟩

theorem mirrors_runFiles (debugs : config.Debugs other)
    (mirrors : (list.run config).Mirrors (list.run other)) (numbers : List Nat) :
    (list.runFiles config numbers).Mirrors (list.runFiles other numbers) := by
  induction numbers with
  | nil => exact Run.Mirrors.pure []
  | cons i rest ih =>
    intro s t agrees
    obtain ⟨(error | _) | _, next, otherNext, ran, otherRan, left⟩ :=
      mirrors_onFile (mirrors_runFile mirrors) i agrees
    · cases policy : config.filePolicy with
      | failFast =>
        rw [runFiles_cons_of_failFast policy ran,
          runFiles_cons_of_failFast (debugs.filePolicy.trans policy) otherRan, left.unit]
        exact ⟨_, _, _, rfl, rfl, left⟩
      | collectAll =>
        have goneOn : (carriedOn i error next).Agrees (carriedOn i error otherNext) :=
          left.traced _ _
        obtain ⟨result, last, otherLast, onward, otherOnward, done⟩ := ih goneOn
        rw [runFiles_cons_of_collectAll policy ran,
          runFiles_cons_of_collectAll (debugs.filePolicy.trans policy) otherRan, onward, otherOnward]
        rcases result with stop | errors
        · exact ⟨_, _, _, rfl, rfl, done⟩
        · exact ⟨_, _, _, rfl, rfl, done⟩
    · rw [runFiles_cons, runFiles_cons, ran, otherRan]
      exact ⟨_, _, _, rfl, rfl, left⟩
    · rw [runFiles_cons_of_ok ran, runFiles_cons_of_ok otherRan]
      exact ih left

theorem mirrors_perFile (debugs : config.Debugs other)
    (mirrors : (list.run config).Mirrors (list.run other)) :
    ((ModuleBody.perFile list).run config).Mirrors ((ModuleBody.perFile list).run other) := by
  intro s t agrees
  obtain ⟨result, last, otherLast, ran, otherRan, left⟩ :=
    mirrors_runFiles debugs mirrors (List.range s.unit.files.length) agrees
  have files : t.unit.files.length = s.unit.files.length := by rw [agrees.unit]
  rw [← files] at otherRan
  exact ⟨_, last, otherLast, perFile_of_runFiles ran, perFile_of_runFiles otherRan, left⟩

end PhaseList

/-! ### The standard phases -/

theorem mirrors_flattenBlocks : (flattenBlocks : Run σ File Failure Unit).Mirrors flattenBlocks := by
  rintro s _ ⟨trace, dumps, rfl⟩
  obtain ⟨left, ran⟩ := flattenBlocks_apply s
  obtain ⟨otherLeft, otherRan⟩ :=
    flattenBlocks_apply { s with trace, context := { s.context with dumps } }
  exact ⟨_, _, _, ran, otherRan, _, _, rfl⟩

theorem mirrors_introduceTemporaries :
    (introduceTemporaries : Run σ File Failure Unit).Mirrors introduceTemporaries := by
  rintro s _ ⟨trace, dumps, rfl⟩
  refine ⟨_, _, _, introduceTemporaries_apply _, introduceTemporaries_apply _, ?_⟩
  unfold Context.countTemporaries
  by_cases some : 0 < s.unit.exposedCalls.length
  · simp only [some, if_true]
    exact ⟨_, _, rfl⟩
  · simp only [some, if_false]
    exact ⟨_, _, rfl⟩

theorem mirrors_filePhases (config other : Config) :
    ∀ phase ∈ (filePhases : PhaseList (Body σ File)).phases,
      (phase.body.run config).Mirrors (phase.body.run other) := by
  simp only [filePhases, List.forall_mem_cons]
  refine ⟨mirrors_flattenBlocks, ?_, ?_, mirrors_introduceTemporaries, ?_, ?_⟩
  · rintro s _ ⟨trace, dumps, rfl⟩
    exact ⟨_, _, _, patchParents_apply _, patchParents_apply _, _, _, rfl⟩
  · exact Run.Mirrors.check (fun _ => File.checkLinks) config other
  · exact Run.Mirrors.check (fun _ => File.checkTemporaries) config other
  · exact fun _ none => absurd none List.not_mem_nil

theorem mirrors_collectDeclarations :
    (collectDeclarations : Run σ Module Failure Unit).Mirrors collectDeclarations := by
  rintro s _ ⟨trace, dumps, rfl⟩
  rw [collectDeclarations_apply, collectDeclarations_apply]
  rcases s.context.symbols.declareAll s.unit.declarations with ⟨symbols, _ | ⟨symbol, earlier⟩⟩
  · exact ⟨_, _, _, rfl, rfl, _, _, rfl⟩
  · dsimp only
    cases symbols.get? earlier with
    | none => exact ⟨_, _, _, rfl, rfl, _, _, rfl⟩
    | some holder => exact ⟨_, _, _, rfl, rfl, _, _, rfl⟩

theorem mirrors_bindCalls : (bindCalls : Run σ Module Failure Unit).Mirrors bindCalls := by
  rintro s _ ⟨trace, dumps, rfl⟩
  rw [bindCalls_apply, bindCalls_apply]
  rcases bindFiles s.context.symbols s.unit.files with ⟨files, failure | count⟩
  · exact ⟨_, _, _, rfl, rfl, _, _, rfl⟩
  · exact ⟨_, _, _, rfl, rfl, _, _, rfl⟩

theorem mirrors_modulePhases (debugs : config.Debugs other) :
    ∀ phase ∈ (modulePhases : PhaseList (ModuleBody σ)).phases,
      (phase.body.run config).Mirrors (phase.body.run other) := by
  simp only [modulePhases, List.forall_mem_cons]
  refine ⟨mirrors_collectDeclarations, ?_, mirrors_bindCalls, ?_, ?_, ?_, ?_⟩
  · refine Run.Mirrors.fixpoint ?_ debugs.maxIterations
    rintro s _ ⟨trace, dumps, rfl⟩
    exact ⟨_, _, _, resolveRound_apply _, resolveRound_apply _, _, _, rfl⟩
  · exact PhaseList.mirrors_perFile debugs
      (PhaseList.mirrors_run debugs (mirrors_filePhases config other))
  · exact Run.Mirrors.check Module.verify config other
  · rintro s _ ⟨trace, dumps, rfl⟩
    exact ⟨_, _, _, rfl, rfl, _, _, rfl⟩
  · exact fun _ none => absurd none List.not_mem_nil

/-! ### Pipelines -/

namespace Pipeline

theorem mirrors_runIn {p q : Pipeline σ}
    (mirrors : (p.phases.run p.config).Mirrors (q.phases.run q.config)) :
    p.runIn.Mirrors q.runIn := by
  intro s t agrees
  unfold runIn
  rw [Run.bind_of_ok (Run.getUnit_apply s), Run.bind_of_ok (Run.getUnit_apply t), agrees.unit]
  refine Run.Mirrors.inSpan ?_ _ agrees
  refine (Run.Mirrors.emit _ _).bind fun _ => mirrors.attempt.bind fun result => ?_
  cases result with
  | error error => exact (Run.Mirrors.emit _ _).bind fun _ => Run.Mirrors.fail error
  | ok =>
    rintro s _ ⟨trace, dumps, rfl⟩
    exact ⟨.ok (), _, _, rfl, rfl, _, _, rfl⟩

theorem mirrors_run {p q : Pipeline σ}
    (mirrors : (p.phases.run p.config).Mirrors (q.phases.run q.config)) :
    p.run.Mirrors q.run := by
  have fresh : (Run.onContext fun _ => {} : Run σ Module PhaseError Unit).Mirrors
      (Run.onContext fun _ => {}) := by
    rintro s _ ⟨trace, dumps, rfl⟩
    exact ⟨.ok (), _, _, rfl, rfl, _, _, rfl⟩
  exact fresh.bind fun _ => mirrors_runIn mirrors

/-- Two runs under accepted configurations that differ in debugging options end alike, in a fresh
context and in one that is given. -/
theorem runs_agree {config other : Config} (debugs : config.Debugs other) {p q : Pipeline σ}
    (accepted : Pipeline.of config modulePhases = .ok p)
    (otherAccepted : Pipeline.of other modulePhases = .ok q) (state : State σ Module) :
    ((p.run state).1 = (q.run state).1 ∧ (p.run state).2.Agrees (q.run state).2) ∧
      (p.runIn state).1 = (q.runIn state).1 ∧ (p.runIn state).2.Agrees (q.runIn state).2 := by
  obtain ⟨rfl, phases⟩ := of_ok accepted
  obtain ⟨rfl, otherPhases⟩ := of_ok otherAccepted
  have mirrors : (p.phases.run p.config).Mirrors (q.phases.run q.config) := by
    rw [phases, otherPhases]
    exact PhaseList.mirrors_run debugs (mirrors_modulePhases debugs)
  constructor
  · obtain ⟨result, last, otherLast, ran, otherRan, left⟩ := mirrors_run mirrors (.refl state)
    rw [ran, otherRan]
    exact ⟨rfl, left⟩
  · obtain ⟨result, last, otherLast, ran, otherRan, left⟩ := mirrors_runIn mirrors (.refl state)
    rw [ran, otherRan]
    exact ⟨rfl, left⟩

/-- A run without debugging options and one with all of them. -/
theorem runs_agree_dumping :
    let other : Config := { debug := ⟨true, true, true⟩, dumpAfter := ["lower_files"] }
    let state : State Unit Module := ⟨(), {}, {}, "program", [{ path := "main" }]⟩
    Config.Debugs {} other ∧ ∃ p q : Pipeline Unit, Pipeline.of {} modulePhases = .ok p ∧
      Pipeline.of other modulePhases = .ok q ∧
      ((p.run state).1 = (q.run state).1 ∧ (p.run state).2.Agrees (q.run state).2) ∧
        (p.runIn state).1 = (q.runIn state).1 ∧ (p.runIn state).2.Agrees (q.runIn state).2 := by
  intro other state
  have debugs : Config.Debugs {} other := ⟨rfl, rfl, rfl⟩
  obtain ⟨p, accepted⟩ : ∃ p : Pipeline Unit, Pipeline.of {} modulePhases = .ok p := ⟨_, rfl⟩
  obtain ⟨q, otherAccepted⟩ : ∃ q : Pipeline Unit, Pipeline.of other modulePhases = .ok q := ⟨_, rfl⟩
  exact ⟨debugs, p, q, accepted, otherAccepted, runs_agree debugs accepted otherAccepted state⟩

end Pipeline

end StagedLowering
