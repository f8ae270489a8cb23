import ReactWeave.Proofs.Stages

/-!
# ReactWeave.Proofs.PluginRuns

**How a compilation runs**: which hooks are called, on what, and when it stops.

The options alone say what there is to do, in which order: `Options.plan` lists
the hooks of the plugins, the preparation, the assembly of the source and the
formatter. A task takes a draft and answers with the next one, fails, or answers
with something of another sort, which is a failure as well.

* `compile_runs_plan`: the log of a compilation, and that a plugin without hooks
  leaves no trace.
-/

namespace ReactWeave

namespace Traced

variable {α β γ : Type}

theorem pure_bind (a : α) (f : α → Traced β) : pure a >>= f = f a := rfl

theorem bind_pure (x : Traced α) : (x >>= fun a => pure a) = x := by
  obtain ⟨events, outcome⟩ := x
  cases outcome <;> simp [bind, andThen, pure]

theorem cons_events_map (e : Event) (x : Traced α) (f : α → β) :
    (⟨e :: x.events, x.outcome.map f⟩ : Traced β) = emit e >>= fun _ => x >>= fun a =>
      pure (f a) := by
  obtain ⟨events, outcome⟩ := x
  cases outcome <;> simp [bind, andThen, emit, pure, Except.map]

theorem lift_ok (a : α) : lift (.ok a) = pure a := rfl

/-- Traces are joined in order. -/
theorem bind_assoc (x : Traced α) (f : α → Traced β) (g : β → Traced γ) :
    x >>= f >>= g = x >>= fun a => f a >>= g := by
  obtain ⟨events, outcome⟩ := x
  cases outcome with
  | error e => rfl
  | ok a =>
    cases hfa : (f a).outcome with
    | error e => simp [bind, andThen, hfa]
    | ok b => simp [bind, andThen, hfa]

end Traced

/-! ## Drafts and tasks -/

/-- How far a compilation has come. -/
inductive Draft where
  /-- The component, before it is prepared. -/
  | read (c : Component)
  /-- The component, and what its preparation took out of it. -/
  | prepared (p : Prepared) (c : Component)
  /-- The source, and the component that it was made of. -/
  | source (c : Component) (s : String)

namespace Draft

/-- What hooks and the formatter get to see of a draft. -/
def payload : Draft → Payload
  | read c => .component c
  | prepared _ c => .component c
  | source _ s => .code s

/-- The source, once there is one. -/
def text : Draft → String
  | source _ s => s
  | _ => ""

end Draft

/-- Something to do during a compilation. -/
inductive Task where
  /-- To call a hook of a plugin with a component. -/
  | componentHook (stage : Stage) (plugin : Json) (hook : Component → Traced (Answer Component))
  | prepare (state : StateStrategy) (styles : StyleStrategy)
  | assemble (state : StateStrategy) (styles : StyleStrategy)
  /-- To call a hook of a plugin with a source. -/
  | codeHook (stage : Stage) (plugin : Json) (hook : String → Traced (Answer String))
  /-- To call the formatter. -/
  | format (f : Formatter)
  /-- To give up, since no formatter can be had. -/
  | giveUp (e : Failure)
  | closeGaps

/-- The same answer about another thing. -/
def Answer.map {α β : Type} (f : α → β) : Answer α → Answer β
  | payload a => payload (f a)
  | other sort => other sort

/-- What a hook or formatter answers, for the draft that it works on. -/
def Traced.mapAnswer {α β : Type} (f : α → β) (x : Traced (Answer α)) : Traced (Answer β) :=
  ⟨x.events, x.outcome.map (Answer.map f)⟩

namespace Task

/-- The stage and the plugin of a task that calls a hook. -/
def hook? : Task → Option (Stage × Json)
  | componentHook stage plugin _ => some (stage, plugin)
  | codeHook stage plugin _ => some (stage, plugin)
  | _ => none

/-- What is told before a task is carried out. -/
def announcement (t : Task) (d : Draft) : List Event :=
  match t.hook? with
  | some (stage, plugin) => [.hook stage plugin d.payload]
  | none => []

/-- What a task answers. A task that does not go with the draft does not apply. -/
def perform : Task → Draft → Traced (Answer Draft)
  | componentHook _ _ hook, .read c => (hook c).mapAnswer .read
  | componentHook _ _ hook, .prepared p c => (hook c).mapAnswer (.prepared p)
  | prepare state styles, .read c =>
    ReactWeave.prepare state styles c >>= fun p => pure (.payload (.prepared p p.component))
  | assemble state styles, .prepared p c =>
    Traced.lift ((partsOf state styles p c).map fun parts => .payload (.source c parts.assemble))
  | codeHook _ _ hook, .source c s => (hook s).mapAnswer (.source c)
  | format f, .source c s => (callFormatter f s c).mapAnswer (.source c)
  | giveUp e, _ => Traced.lift (.error e)
  | closeGaps, .source c s => pure (.payload (.source c (collapseImportGaps s)))
  | _, _ => Traced.fail .notApplicable

/-- The failure that an answer of another sort is: that of a hook names the plugin and the stage. -/
def misfit (t : Task) (sort : String) : Failure :=
  match t.hook? with
  | some (stage, plugin) => .hookReply plugin stage sort
  | none => .notApplicable

/-- The draft that an answer leaves, or the failure that it is. -/
def judge (t : Task) : Outcome (Answer Draft) → Outcome Draft
  | .error e => .error e
  | .ok (.payload d) => .ok d
  | .ok (.other sort) => .error (t.misfit sort)

/-- Carries out a task. -/
def run (t : Task) (d : Draft) : Traced Draft :=
  ⟨t.announcement d ++ (t.perform d).events, t.judge (t.perform d).outcome⟩

/-- Whether a task is a call of a hook or of the formatter. -/
def isCall : Task → Bool
  | componentHook _ _ _ => true
  | codeHook _ _ _ => true
  | format _ => true
  | _ => false

end Task

/-- Carries out tasks one after another, up to the first that fails. -/
def runAll : List Task → Draft → Traced Draft
  | [], d => pure d
  | t :: ts, d => t.run d >>= runAll ts

theorem runAll_append (ts us : List Task) (d : Draft) :
    runAll (ts ++ us) d = runAll ts d >>= runAll us := by
  induction ts generalizing d with
  | nil => rfl
  | cons t ts ih =>
    rw [List.cons_append, runAll, runAll, Traced.bind_assoc]
    congr
    funext d'
    exact ih d'

/-! ## Plans -/

namespace Options

/-- The hooks that plugins have for a stage on components. -/
def componentHooks (stage : Stage) (hook : Plugin → Option (Component → Traced (Answer Component)))
    (o : Options) : List Task :=
  o.plugins.filterMap fun p => (hook p).map (.componentHook stage p.name)

/-- The hooks that plugins have for a stage on sources. -/
def codeHooks (stage : Stage) (hook : Plugin → Option (String → Traced (Answer String)))
    (o : Options) : List Task :=
  o.plugins.filterMap fun p => (hook p).map (.codeHook stage p.name)

/-- What there is to do about the format of the source. -/
def formatting (host : Host) (o : Options) : List Task :=
  if o.format then
    match o.formatterFor host with
    | .ok f => [.format f, .closeGaps]
    | .error e => [.giveUp e]
  else []

/-- What there is to do. -/
def plan (host : Host) (o : Options) : List Task :=
  o.componentHooks .jsonPre Plugin.jsonPre ++ .prepare o.state o.styles ::
    (o.componentHooks .jsonPost Plugin.jsonPost ++ .assemble o.state o.styles ::
      (o.codeHooks .codePre Plugin.codePre ++
        (o.formatting host ++ o.codeHooks .codePost Plugin.codePost)))

end Options

/-! ## Compilations as runs -/

/-- The task of a hook is the call of it. -/
theorem Task.run_eq_call {α : Type} {stage : Stage} {payload : α → Payload} {draft : α → Draft}
    {t : Task} {name : Json} {hook : α → Traced (Answer α)} {a : α}
    (hannounced : t.announcement (draft a) = [.hook stage name (payload a)])
    (hmisfit : ∀ sort, t.misfit sort = .hookReply name stage sort)
    (hperform : t.perform (draft a) = (hook a).mapAnswer draft) :
    t.run (draft a) = Plugin.call stage payload name hook a >>= fun b => pure (draft b) := by
  rw [run, hannounced, hperform]
  unfold Plugin.call Traced.mapAnswer
  obtain ⟨events, outcome⟩ := hook a
  cases outcome with
  | error e => rfl
  | ok answer =>
    cases answer with
    | payload b =>
      simp [judge, Except.map, Answer.map, bind, Traced.andThen, Traced.emit, pure]
    | other sort =>
      simp [judge, Except.map, Answer.map, bind, Traced.andThen, Traced.emit, Traced.fail,
        hmisfit]

/-- The tasks of a stage are its hooks, in the order of the plugins. -/
theorem runAll_filterMap {α : Type} {stage : Stage} {payload : α → Payload}
    {hook : Plugin → Option (α → Traced (Answer α))}
    {task : Json → (α → Traced (Answer α)) → Task} {draft : α → Draft}
    (hrun : ∀ name f a, (task name f).run (draft a) =
      Plugin.call stage payload name f a >>= fun b => pure (draft b))
    (ps : List Plugin) (a : α) :
    runAll (ps.filterMap fun p => (hook p).map (task p.name)) (draft a) =
      Plugin.runStage stage payload hook ps a >>= fun b => pure (draft b) := by
  induction ps generalizing a with
  | nil => rfl
  | cons p ps ih =>
    rw [List.filterMap_cons, Plugin.runStage]
    -- A plugin without the hook is passed over on both sides.
    cases hook p with
    | none => exact ih a
    | some f =>
      simp only [Option.map_some, runAll, hrun, Traced.bind_assoc]
      congr
      funext b
      exact ih b

section Stages

variable (host : Host) (o : Options)

theorem runAll_jsonPre (c : Component) :
    runAll (o.componentHooks .jsonPre Plugin.jsonPre) (.read c) =
      Plugin.runJsonPre o.plugins c >>= fun c => pure (.read c) :=
  runAll_filterMap (fun _ _ _ => Task.run_eq_call rfl (fun _ => rfl) rfl) _ _

theorem runAll_jsonPost (p : Prepared) (c : Component) :
    runAll (o.componentHooks .jsonPost Plugin.jsonPost) (.prepared p c) =
      Plugin.runJsonPost o.plugins c >>= fun c => pure (.prepared p c) :=
  runAll_filterMap (fun _ _ _ => Task.run_eq_call rfl (fun _ => rfl) rfl) _ _

theorem runAll_codePre (c : Component) (s : String) :
    runAll (o.codeHooks .codePre Plugin.codePre) (.source c s) =
      Plugin.runCodePre o.plugins s >>= fun s => pure (.source c s) :=
  runAll_filterMap (fun _ _ _ => Task.run_eq_call rfl (fun _ => rfl) rfl) _ _

theorem runAll_codePost (c : Component) (s : String) :
    runAll (o.codeHooks .codePost Plugin.codePost) (.source c s) =
      Plugin.runCodePost o.plugins s >>= fun s => pure (.source c s) :=
  runAll_filterMap (fun _ _ _ => Task.run_eq_call rfl (fun _ => rfl) rfl) _ _

theorem run_prepare (state : StateStrategy) (styles : StyleStrategy) (c : Component) :
    (Task.prepare state styles).run (.read c) =
      prepare state styles c >>= fun p => pure (.prepared p p.component) := by
  rw [Task.run, Task.perform]
  obtain ⟨events, outcome⟩ := prepare state styles c
  cases outcome <;> rfl

theorem run_assemble (state : StateStrategy) (styles : StyleStrategy) (p : Prepared)
    (c : Component) : (Task.assemble state styles).run (.prepared p c) =
      Traced.lift (partsOf state styles p c) >>= fun parts =>
        pure (.source c parts.assemble) := by
  rw [Task.run, Task.perform]
  cases partsOf state styles p c with
  | ok parts => rfl
  | error e => cases e <;> rfl

/-- Formatting is a task of its own, or none. -/
theorem runAll_formatting (c : Component) (s : String) :
    runAll (o.formatting host) (.source c s) =
      (if o.format then formatSource host o s c else pure s) >>= fun s =>
        pure (.source c s) := by
  unfold Options.formatting
  split
  · unfold formatSource
    cases o.formatterFor host with
    | error e => cases e <;> rfl
    | ok f =>
      rw [Traced.lift_ok, Traced.pure_bind]
      simp only [runAll, Task.run, Task.perform, Task.announcement]
      -- The gaps are only closed in what the formatter gives back.
      generalize callFormatter f s c = x
      obtain ⟨events, outcome⟩ := x
      cases outcome with
      | error e => rfl
      | ok answer =>
        cases answer with
        | payload formatted =>
          simp [Traced.mapAnswer, bind, Traced.andThen, Task.hook?, Task.judge, Except.map,
            Answer.map, pure]
        | other sort =>
          simp [Traced.mapAnswer, bind, Traced.andThen, Task.hook?, Task.judge, Except.map,
            Answer.map, Traced.fail, Task.misfit]
  · rfl

/-- **A compilation is a run of its plan.** -/
theorem compile_eq_runAll (c : Component) :
    c.compile host o = ⟨.generating c.name o.state o.styles ::
      (runAll (o.plan host) (.read c)).events,
      (runAll (o.plan host) (.read c)).outcome.map Draft.text⟩ := by
  rw [Traced.cons_events_map]
  unfold Component.compile Options.plan
  simp only [runAll_append, runAll, runAll_jsonPre, run_prepare, runAll_jsonPost, run_assemble,
    runAll_codePre, runAll_formatting, runAll_codePost, Traced.bind_assoc, Traced.pure_bind]
  cases o.format <;>
    simp only [Draft.text, Traced.bind_pure, Traced.pure_bind, Bool.false_eq_true, if_true,
      if_false]

/-- A plan that goes through ends with a source. -/
theorem exists_source {c : Component} {d : Draft}
    (h : (runAll (o.plan host) (.read c)).outcome = .ok d) :
    ∃ (c' : Component) (s : String), d = .source c' s := by
  unfold Options.plan at h
  simp only [runAll_append, runAll, runAll_jsonPre, run_prepare, runAll_jsonPost, run_assemble,
    runAll_codePre, runAll_formatting, runAll_codePost, Traced.bind_assoc, Traced.pure_bind] at h
  obtain ⟨read, -, h⟩ := Traced.bind_eq_ok.1 h
  obtain ⟨p, -, h⟩ := Traced.bind_eq_ok.1 h
  obtain ⟨c', -, h⟩ := Traced.bind_eq_ok.1 h
  obtain ⟨parts, -, h⟩ := Traced.bind_eq_ok.1 h
  obtain ⟨source, -, h⟩ := Traced.bind_eq_ok.1 h
  obtain ⟨formatted, -, h⟩ := Traced.bind_eq_ok.1 h
  obtain ⟨s, -, h⟩ := Traced.bind_eq_ok.1 h
  exact ⟨c', s, (Traced.pure_eq_ok.1 h).symm⟩

end Stages

/-! ## Logs -/

/-- A task, and the draft that it was carried out on. -/
structure Step where
  task : Task
  draft : Draft

namespace Step

/-- What the task answered. -/
def reply (s : Step) : Outcome (Answer Draft) := (s.task.perform s.draft).outcome

/-- The draft that the step left, or the failure that it ended with. -/
def result (s : Step) : Outcome Draft := (s.task.run s.draft).outcome

/-- What happened during the step. -/
def events (s : Step) : List Event := (s.task.run s.draft).events

end Step

/-- The steps of a run, up to the first that fails. -/
def stepsFrom : List Task → Draft → List Step
  | [], _ => []
  | t :: ts, d => ⟨t, d⟩ ::
    match (t.run d).outcome with
    | .ok d' => stepsFrom ts d'
    | .error _ => []

/-- What the log of a run tells: it takes the tasks in order, each on the draft that the one before
it left, and everything that happens happens in its steps. The run comes to what its last step comes
to, and goes through only if no task is left. -/
structure IsRun (ts : List Task) (d : Draft) (x : Traced Draft) (steps : List Step) : Prop where
  tasks : steps.map Step.task <+: ts
  first : ∀ s ∈ steps.head?, s.draft = d
  chained : steps.IsChain fun a b => a.result = .ok b.draft
  events : x.events = steps.flatMap Step.events
  outcome : x.outcome = (steps.getLast?.map Step.result).getD (.ok d)
  complete : ∀ d', x.outcome = .ok d' → steps.map Step.task = ts

/-- A task that fails is the last one of the run. -/
theorem IsRun.stop {t : Task} {ts : List Task} {d : Draft} {e : Failure}
    (h : (t.run d).outcome = .error e) :
    IsRun (t :: ts) d (runAll (t :: ts) d) [⟨t, d⟩] := by
  have hrun : runAll (t :: ts) d = ⟨(t.run d).events, .error e⟩ := by
    simp [runAll, bind, Traced.andThen, h]
  rw [hrun]
  exact {
    tasks := ⟨ts, rfl⟩
    first := by simp
    chained := List.IsChain.singleton _
    events := by simp [Step.events]
    outcome := h.symm
    complete := by simp }

/-- A task that goes through hands its draft to the rest of the run. -/
theorem IsRun.step {t : Task} {ts : List Task} {d d' : Draft} {steps : List Step}
    (h : (t.run d).outcome = .ok d') (hrest : IsRun ts d' (runAll ts d') steps) :
    IsRun (t :: ts) d (runAll (t :: ts) d) (⟨t, d⟩ :: steps) := by
  have hrun : runAll (t :: ts) d =
      ⟨(t.run d).events ++ (runAll ts d').events, (runAll ts d').outcome⟩ := by
    simp [runAll, bind, Traced.andThen, h]
  rw [hrun]
  refine {
    tasks := (List.prefix_cons_inj t).2 hrest.tasks
    first := by simp
    chained := ?_
    events := by simp [hrest.events, Step.events]
    outcome := ?_
    complete := fun d'' hd => congrArg (t :: ·) (hrest.complete d'' hd) }
  · -- The run goes on with the draft that this step left.
    cases steps with
    | nil => exact .singleton _
    | cons s steps =>
      have hdraft : s.draft = d' := hrest.first s rfl
      exact .cons_cons (by rw [hdraft]; exact h) hrest.chained
  · rw [hrest.outcome]
    cases steps with
    | nil => exact h.symm
    | cons s steps =>
      rw [List.getLast?_cons_cons]
      simp [List.getLast?_cons]

/-- **The log of a run**, whatever the tasks are. -/
theorem isRun_stepsFrom (ts : List Task) (d : Draft) :
    IsRun ts d (runAll ts d) (stepsFrom ts d) := by
  induction ts generalizing d with
  | nil =>
    exact {
      tasks := List.nil_prefix
      first := by simp [stepsFrom]
      chained := .nil
      events := rfl
      outcome := rfl
      complete := fun _ _ => rfl }
  | cons t ts ih =>
    rw [stepsFrom]
    cases h : (t.run d).outcome with
    | error e => exact .stop h
    | ok d' => exact .step h (ih d')

theorem stepsFrom_eq_cons {ts : List Task} (h : ts ≠ []) (d : Draft) :
    ∃ first rest, stepsFrom ts d = first :: rest := by
  cases ts with
  | nil => exact absurd rfl h
  | cons t ts => exact ⟨_, _, rfl⟩

/-! ## Compilations -/

/-- The hooks and the formatter that a compilation calls if nothing fails, in order. -/
def Options.calls (host : Host) (o : Options) : List Task :=
  o.componentHooks .jsonPre Plugin.jsonPre ++ o.componentHooks .jsonPost Plugin.jsonPost ++
    o.codeHooks .codePre Plugin.codePre ++
    (if o.format then (o.formatterFor host).toOption.toList.map .format else []) ++
    o.codeHooks .codePost Plugin.codePost

theorem filter_isCall_filterMap {α : Type} {hook : Plugin → Option α} {task : Json → α → Task}
    (htask : ∀ name f, (task name f).isCall = true) (ps : List Plugin) :
    (ps.filterMap fun p => (hook p).map (task p.name)).filter Task.isCall =
      ps.filterMap fun p => (hook p).map (task p.name) := by
  rw [List.filter_eq_self]
  intro t ht
  obtain ⟨p, -, hp⟩ := List.mem_filterMap.1 ht
  obtain ⟨f, -, rfl⟩ := Option.map_eq_some_iff.1 hp
  exact htask p.name f

/-- The calls of a plan are the hooks of the plugins and the formatter. -/
theorem Options.filter_plan (host : Host) (o : Options) :
    (o.plan host).filter Task.isCall = o.calls host := by
  have hformatting : (o.formatting host).filter Task.isCall =
      if o.format then (o.formatterFor host).toOption.toList.map .format else [] := by
    unfold formatting
    split
    · cases o.formatterFor host <;> rfl
    · rfl
  have hcomponent (stage : Stage) (hook : Plugin → Option (Component → Traced (Answer Component))) :
      (o.componentHooks stage hook).filter Task.isCall = o.componentHooks stage hook :=
    filter_isCall_filterMap (fun _ _ => rfl) _
  have hcode (stage : Stage) (hook : Plugin → Option (String → Traced (Answer String))) :
      (o.codeHooks stage hook).filter Task.isCall = o.codeHooks stage hook :=
    filter_isCall_filterMap (fun _ _ => rfl) _
  simp [plan, calls, hcomponent, hcode, hformatting, Task.isCall]

/-- A plugin without hooks. -/
def Plugin.idle (name : Json) : Plugin := ⟨name, none, none, none, none⟩

theorem Options.plan_idle (host : Host) (o : Options) (name : Json)
    (ps qs : List Plugin) :
    ({ o with plugins := ps ++ Plugin.idle name :: qs } : Options).plan host =
      ({ o with plugins := ps ++ qs } : Options).plan host := by
  simp [plan, componentHooks, codeHooks, formatting, formatterFor, Plugin.idle]

/-- The steps of a compilation. -/
def Component.steps (host : Host) (o : Options) (c : Component) : List Step :=
  stepsFrom (o.plan host) (.read c)

/-- **How a compilation runs**, whatever the hooks and the formatter do. Everything that happens
happens in its steps. These are the first tasks of the plan, so the calls of hooks and of the
formatter are the first of those that there are to make. The first step gets the component, and each
other one what the step before it left. The compilation ends with its last step: with the failure of
a task that fails; with the failure that an answer of another sort is; or, if no task is left, with
the source. A plugin without hooks makes no difference, wherever it stands. -/
theorem compile_runs_plan (host : Host) (o : Options) (c : Component) :
    (c.compile host o).events = .generating c.name o.state o.styles ::
        (c.steps host o).flatMap Step.events ∧
      (c.steps host o).map Step.task <+: o.plan host ∧
      ((c.steps host o).map Step.task).filter Task.isCall <+: o.calls host ∧
      (c.steps host o).head?.map Step.draft = some (.read c) ∧
      (c.steps host o).IsChain (fun a b => a.result = .ok b.draft) ∧
      (∃ last, (c.steps host o).getLast? = some last ∧
        (∀ e, last.reply = .error e → (c.compile host o).outcome = .error e) ∧
        (∀ sort, last.reply = .ok (.other sort) →
          (c.compile host o).outcome = .error (last.task.misfit sort)) ∧
        ∀ d, last.reply = .ok (.payload d) → (c.steps host o).map Step.task = o.plan host ∧
          ∃ (c' : Component) (s : String), d = .source c' s ∧
            (c.compile host o).outcome = .ok s) ∧
      ∀ (name : Json) (ps qs : List Plugin),
        c.compile host { o with plugins := ps ++ Plugin.idle name :: qs } =
          c.compile host { o with plugins := ps ++ qs } := by
  have hrun : IsRun (o.plan host) (.read c) (runAll (o.plan host) (.read c))
    (c.steps host o) := isRun_stepsFrom _ _
  -- A plan has the preparation in it, so there is a first step and a last one.
  obtain ⟨first, rest, hsteps⟩ : ∃ first rest, c.steps host o = first :: rest :=
    stepsFrom_eq_cons (by simp [Options.plan]) _
  refine ⟨?_, hrun.tasks, ?_, ?_, hrun.chained, ?_, ?_⟩
  · rw [compile_eq_runAll, hrun.events]
  · rw [← Options.filter_plan]
    exact hrun.tasks.filter _
  · rw [hsteps]
    exact congrArg some (hrun.first first (by rw [hsteps]; rfl))
  · obtain ⟨last, hlast⟩ : ∃ last, (c.steps host o).getLast? = some last := by
      rw [hsteps]
      exact ⟨_, List.getLast?_cons⟩
    have hresult : (runAll (o.plan host) (.read c)).outcome = last.task.judge last.reply := by
      rw [hrun.outcome, hlast]
      rfl
    have houtcome : (c.compile host o).outcome =
        (last.task.judge last.reply).map Draft.text := by
      rw [compile_eq_runAll, hresult]
    refine ⟨last, hlast, ?_, ?_, ?_⟩
    · intro e he
      rw [houtcome, he]
      rfl
    · intro sort hsort
      rw [houtcome, hsort]
      rfl
    · intro d hd
      rw [hd] at hresult houtcome
      obtain ⟨c', s, rfl⟩ := exists_source host o hresult
      exact ⟨hrun.complete _ hresult, c', s, rfl, houtcome⟩
  · intro name ps qs
    rw [compile_eq_runAll, compile_eq_runAll, Options.plan_idle]

end ReactWeave
