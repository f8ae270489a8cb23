import ReactWeave.Proofs.Messages
import ReactWeave.Proofs.WellShaped

/-!
# ReactWeave.Proofs.Reports

**How a run of the program ends.**

A run that is asked to compile a file writes the source, or it complains and leaves
all files as they are, or a fault of the program ends it. This is so on every host:
whatever comes of the formatter, and however deep the recursion may go. Only of
half a surrogate pair, which no text holds, nothing is said.

* `Cli.Sound` says what a request has to be like for no fault to come up.
* `Cli.run_cases` puts this together, and `Cli.run_faults` shows every fault.
-/

namespace ReactWeave

/-! ## Saved files -/

variable {files files' : Files} {place : Place}

namespace Files

/-- Places that are directories whatever is told of them. -/
def isFixed (place : Place) : Bool := place.all (· == "..") || place == [rootStep]

theorem entry?_of_isFixed (h : isFixed place = true) : files.entry? place = some .directory := by
  unfold entry?
  exact if_pos h

theorem entry?_cons (p : Place) (e : Entry) (h : isFixed place = false) :
    entry? ((p, e) :: files) place = if p = place then some e else files.entry? place := by
  rw [ entry?]
  exact if_neg (by simpa [isFixed] using h)

theorem entry?_put_self (h : isFixed place = false) (e : Entry) :
    Files.entry? (files.put place e) place = some e := by
  induction files with
  | nil =>
    rw [put, entry?_cons _ _ h, if_pos rfl]
  | cons file files ih =>
    obtain ⟨p, old⟩ := file
    rw [put]
    split
    · rename_i hp
      rw [entry?_cons _ _ h, if_pos hp]
    · rename_i hp
      rw [entry?_cons _ _ h, if_neg hp, ih]

/-- Putting a file leaves all other places alone. -/
theorem entry?_put_of_ne {other : Place} (h : other ≠ place) (e : Entry) :
    Files.entry? (files.put place e) other = files.entry? other := by
  cases hfixed : isFixed other with
  | true => rw [entry?_of_isFixed hfixed, entry?_of_isFixed hfixed]
  | false =>
    induction files with
    | nil =>
      rw [put, entry?_cons _ _ hfixed, if_neg h.symm]
    | cons file files ih =>
      obtain ⟨p, old⟩ := file
      rw [put]
      split
      · rename_i hp
        have hother : ¬p = other := fun heq => h (heq.symm.trans hp)
        rw [entry?_cons _ _ hfixed, entry?_cons _ _ hfixed, if_neg hother, if_neg hother]
      · rw [entry?_cons _ _ hfixed, entry?_cons _ _ hfixed, ih]

/-- A path leads where it did, if the new file hides no directory. -/
theorem follow_put {goal : Place} (e : Entry) (hplace : files.entry? place ≠ some .directory)
    {steps : List String} {start : Place} (h : files.follow start steps = .ok goal) :
    (files.put place e).follow start steps = .ok goal := by
  induction steps generalizing start with
  | nil => exact h
  | cons step steps ih =>
    rw [follow] at h ⊢
    split at h
    · cases h
    · cases h
    · rename_i hstart
      have hne : start ≠ place := by
        rintro rfl
        exact hplace hstart
      rw [entry?_put_of_ne hne, hstart]
      exact ih h

/-- A write puts a text at a place that is no directory. -/
theorem exists_of_write {p : CleanPath} {text : String} (h : files.write p text = .ok files') :
    ∃ place, files.follow [] p.steps = .ok place ∧ files.entry? place ≠ some .directory ∧
      files' = files.put place (.file (.text text)) := by
  unfold write find at h
  cases hfollow : files.follow [] p.steps with
  | error fault =>
    rw [hfollow] at h
    cases h
  | ok place =>
    rw [hfollow] at h
    refine ⟨place, rfl, ?_, ?_⟩
    · intro hdirectory
      simp only [Except.map, hdirectory] at h
      cases h
    · simp only [Except.map] at h
      split at h
      · cases h
      · cases h
      · rename_i heq
        cases heq
        split at h <;> cases h
        rfl

/-- **A file that was saved is found** where it was asked for. -/
theorem find_of_save {p : CleanPath} {text : String} (h : files.save p text = .ok files') :
    ∃ place, files'.find p.steps = .ok (place, some (.file (.text text))) := by
  obtain ⟨made, -, h⟩ := bind_eq_ok.1 h
  obtain ⟨place, hfollow, hplace, rfl⟩ := exists_of_write h
  have hfree : isFixed place = false := by
    by_contra hfixed
    exact hplace (entry?_of_isFixed (by simpa using hfixed))
  refine ⟨place, ?_⟩
  rw [find, follow_put _ hplace hfollow]
  simp only [Except.map, entry?_put_self hfree]

end Files

/-! ## Quiet compilations -/

section Quiet

variable {α β : Type}

/-- Whether an event is logged only if asked for. -/
def Event.isQuiet (e : Event) : Bool := e.logLine?.all fun l => l.level != .error

/-- Whether nothing that happens is logged unasked. -/
def Quiet (x : Traced α) : Prop := ∀ e ∈ x.events, e.isQuiet = true

theorem Quiet.bind {x : Traced α} {f : α → Traced β} (hx : Quiet x) (hf : ∀ a, Quiet (f a)) :
    Quiet (x >>= f) := by
  change Quiet (x.andThen f)
  unfold Traced.andThen
  split
  · exact hx
  · rename_i a _
    intro e he
    rcases List.mem_append.1 he with he | he
    · exact hx e he
    · exact hf a e he

theorem quiet_pure (a : α) : Quiet (pure a : Traced α) := List.forall_mem_nil _

theorem quiet_lift (x : Outcome α) : Quiet (Traced.lift x) := by
  intro e he
  change e ∈ Traced.eventsOf x at he
  unfold Traced.eventsOf at he
  split at he
  · rw [List.mem_singleton.1 he]
    rfl
  · cases he

theorem quiet_emit {e : Event} (he : e.isQuiet = true) : Quiet (Traced.emit e) :=
  List.forall_mem_singleton.2 he

theorem quiet_prepareRefs (c : Component) : Quiet (prepareRefs c) := by
  unfold prepareRefs
  dsimp only
  split
  · exact (quiet_emit rfl).bind fun _ => quiet_lift _
  · exact quiet_lift _

theorem quiet_prepareStyles (strategy : StyleStrategy) (hasStyles : Bool) (c : Component) :
    Quiet (prepareStyles strategy hasStyles c) := by
  cases strategy with
  | emotion => exact quiet_pure _
  | styledJsx => exact (quiet_lift _).bind fun _ => quiet_pure _
  | styledComponents =>
    simp only [prepareStyles]
    split
    · refine Quiet.bind (Quiet.bind ?_ fun _ => quiet_lift _) fun _ => quiet_pure _
      intro e he
      obtain ⟨s, -, rfl⟩ := List.mem_map.1 he
      rfl
    · exact quiet_pure _

theorem quiet_prepare (state : StateStrategy) (styles : StyleStrategy) (c : Component) :
    Quiet (prepare state styles c) :=
  (quiet_lift _).bind fun _ => (quiet_lift _).bind fun _ => (quiet_prepareRefs _).bind fun _ =>
    (quiet_prepareStyles _ _ _).bind fun _ => (quiet_lift _).bind fun _ => quiet_pure _

/-- **A compilation without plugins and formatting is quiet.** -/
theorem quiet_compile (host : Host) {o : Options} (hplugins : o.plugins = [])
    (hformat : o.format = false) (c : Component) : Quiet (c.compile host o) := by
  unfold Component.compile
  rw [hplugins, hformat]
  refine (quiet_emit rfl).bind fun _ => (quiet_pure c).bind fun _ => ?_
  refine (quiet_prepare _ _ _).bind fun p => (quiet_pure p.component).bind fun _ => ?_
  refine (quiet_lift _).bind fun parts => (quiet_pure parts.assemble).bind fun _ => ?_
  exact (quiet_pure _).bind fun source => quiet_pure source

end Quiet

namespace Cli

/-! ## Faults -/

/-- The faults that can end a run. -/
inductive Fault where
  /-- The name of a getter has an escape that means nothing. -/
  | badTemplate
  /-- The name of a getter refers to a group. -/
  | unknownGroup
  /-- A value is of the wrong sort for an operation. -/
  | notApplicable
  /-- A value is of a sort that does not have an operation. -/
  | noSuchOperation
  /-- An import has no path. -/
  | missingKey
  /-- The command of the formatter has no words. -/
  | indexOutOfRange
  /-- What the file holds is nested too deep. -/
  | tooDeep
  deriving DecidableEq, Repr

/-- The fault that a failure is, if it is one. -/
def fault? : Failure → Option Fault
  | .badTemplate => some .badTemplate
  | .unknownGroup => some .unknownGroup
  | .notApplicable => some .notApplicable
  | .noSuchOperation => some .noSuchOperation
  | .missingKey => some .missingKey
  | .indexOutOfRange => some .indexOutOfRange
  | .raised message => if message == Failure.depthMessage then some .tooDeep else none
  | _ => none

theorem exists_fault {e : Failure} (hown : e.isOwn = true) (h : isFault e = true) :
    ∃ fault, fault? e = some fault := by
  cases e with
  | raised message => exact ⟨.tooDeep, if_pos hown⟩
  | badTemplate | unknownGroup | notApplicable | noSuchOperation | missingKey
  | indexOutOfRange => exact ⟨_, rfl⟩
  | _ => cases h

/-! ## Requests without a fault -/

/-- Whether what a file holds has the shape of a component, if it can be read as data at all. -/
def isShapedFile (files : Files) (path : String) : Bool :=
  match files.read path with
  | .error _ => true
  | .ok text =>
    match Json.read text with
    | .error _ => true
    | .ok j => j.isComponentShaped

/-- Whether the names of the getters of a component have no backslash. -/
def hasPlainGetters (c : Component) : Bool :=
  (State.getterKeys c.state).all fun key => !key.asText.toList.contains '\\'

theorem plainGetters_of_hasPlainGetters {c : Component} (h : hasPlainGetters c = true) :
    State.PlainGetters c := by
  intro name hname
  simpa [Json.asText] using List.all_eq_true.1 h (.str name) hname

/-- Whether nothing about a request leads to a fault: not the shape of the component or the depth of
the file, not the names of its getters if they are called, and not the command if the source is
formatted; and whether no half of a surrogate pair is met. -/
structure Sound (host : Host) (files : Files) (r : Request) : Prop where
  shape : isShapedFile files r.input = true
  depth : (files.read r.input).toOption.all host.fits = true
  paired : ∀ e, (perform host files r).outcome = .error e → e.isUnpaired = false
  getters : r.state = .useState → (load host files r.input).toOption.all hasPlainGetters = true
  command : r.format = true →
    (Shell.words (host.setting.getD CommandFormatter.defaultCommand)).toOption ≠ some []

variable {host : Host} {files : Files} {r : Request}

/-- A shaped file that is not too deep is loaded without a fault. -/
theorem ends_load (hshape : isShapedFile files r.input = true)
    (hdepth : (files.read r.input).toOption.all host.fits = true) :
    Ends NoFault Component.Shaped (load host files r.input) := by
  unfold isShapedFile at hshape
  unfold load Component.ofText
  cases hread : files.read r.input with
  | error e =>
    have htold := files.told_read r.input
    rw [hread] at htold
    exact htold.2
  | ok text =>
    rw [hread] at hshape hdepth
    have hfits : host.fits text = true := hdepth
    rw [ok_bind, if_pos hfits]
    dsimp only at hshape
    split
    · rfl
    · rename_i j hj
      rw [hj] at hshape
      exact Component.ends_ofJson hshape

/-- **A sound request is carried out**, or refused in a way that is no fault. -/
theorem Sound.faultless_perform (h : Sound host files r) :
    FailsIn NoFault (perform host files r).outcome := by
  have hload := ends_load h.shape h.depth
  unfold perform
  cases hc : load host files r.input with
  | error e => rwa [hc] at hload
  | ok c =>
    rw [hc] at hload
    have hgetters : r.state = .useState → State.PlainGetters c := by
      intro hstate
      have hplain := h.getters hstate
      rw [hc] at hplain
      exact plainGetters_of_hasPlainGetters hplain
    have hcommand : r.format = true →
        Shell.words (host.setting.getD CommandFormatter.defaultCommand) ≠ .ok [] :=
      fun hformat hempty => h.command hformat (congrArg Except.toOption hempty)
    have hcompile : FailsIn NoFault (c.compile host r.options).outcome :=
      Component.Shaped.faultless_compile hload rfl rfl hgetters hcommand
    dsimp only
    split
    · rename_i e he
      rwa [he] at hcompile
    · exact (told_deliver files r _).faultless

/-! ## Logs -/

theorem logText_eq_empty {lines : List LogLine} (h : ∀ l ∈ lines, l.level ≠ .error) :
    logText false lines = "" := by
  have hnone : lines.filter (isWritten false) = [] := by
    rw [List.filter_eq_nil_iff]
    intro l hl hwritten
    exact h l hl (by simpa [isWritten] using hwritten)
  rw [logText, hnone]
  rfl

theorem level_of_quiet {x : Traced String} (hx : Quiet x) :
    ∀ l ∈ x.events.filterMap Event.logLine?, l.level ≠ .error := by
  intro l hl
  obtain ⟨e, he, hline⟩ := List.mem_filterMap.1 hl
  have hquiet := hx e he
  rw [Event.isQuiet, hline] at hquiet
  simpa using hquiet

theorem level_of_deliver (source : String) :
    ∀ l ∈ (deliver files r source).log, l.level ≠ .error := by
  unfold deliver
  split
  · exact List.forall_mem_nil _
  · dsimp only
    split
    · exact List.forall_mem_nil _
    · exact List.forall_mem_singleton.2 nofun

theorem logText_perform (hformat : r.format = false) :
    logText false (perform host files r).log = "" := by
  refine logText_eq_empty ?_
  unfold perform
  split
  · exact List.forall_mem_nil _
  · rename_i c _
    have hlevel := level_of_quiet (quiet_compile host (o := r.options) rfl hformat c)
    dsimp only
    split
    · exact hlevel
    · exact List.forall_mem_append.2 ⟨hlevel, level_of_deliver _⟩

/-! ## Runs -/

/-- Whether a source stands where a request asks for it: in the output, with all files as they were,
or in the file. -/
def Delivered (files : Files) (r : Request) (source : String) (report : Report) : Prop :=
  match r.output.filter fun path => !path.isEmpty with
  | none => report.output = source ∧ report.files = files
  | some path => report.output = "" ∧ ∃ place,
      report.files.find (CleanPath.ofString path).steps = .ok (place, some (.file (.text source)))

/-- What a run delivers is its source, on the output or in the file that was asked for. -/
theorem delivered_of_deliver {source output : String} (status : Nat) (errors : String)
    (h : (deliver files r source).outcome = .ok (output, files')) :
    Delivered files r source ⟨status, output, errors, files'⟩ := by
  unfold deliver at h
  unfold Delivered
  cases hpath : r.output.filter fun path => !path.isEmpty with
  | none =>
    rw [hpath] at h
    cases h
    exact ⟨rfl, rfl⟩
  | some path =>
    rw [hpath] at h
    dsimp only at h
    split at h
    · cases h
    · rename_i saved hsave
      cases h
      exact ⟨rfl, Files.find_of_save hsave⟩

theorem exists_of_perform {output : String}
    (h : (perform host files r).outcome = .ok (output, files')) :
    ∃ c source, load host files r.input = .ok c ∧ (c.compile host r.options).outcome = .ok source ∧
      (deliver files r source).outcome = .ok (output, files') := by
  unfold perform at h
  split at h
  · cases h
  · rename_i c hc
    dsimp only at h
    split at h
    · cases h
    · rename_i source hsource
      exact ⟨c, source, hc, hsource, h⟩

theorem run_of_error {call : Call} {e : Failure}
    (h : (perform host files call.request).outcome = .error e) :
    call.run host files =
      if isReported e then
        .ok ⟨1, "", logText call.verbose (perform host files call.request).log ++ "Error: " ++
          e.format ++ "\n", files⟩
      else .error e := by
  simp only [Call.run, h]

/-- **How a run ends, on every host.** It writes the source of the component that the file holds; or
it complains, in one line unless that repeats a text as it is, and leaves the output empty and all
files as they were; or a fault ends it; or it meets half of a surrogate pair. Neither a fault nor a
half pair does if the request is sound. -/
theorem run_cases (host : Host) (files : Files) (args : List String) (call : Call)
    (hcall : readCall args = .ok call) :
    ((∃ c source report, load host files call.request.input = .ok c ∧
        (c.compile host call.request.options).outcome = .ok source ∧
        run host files args = .ok report ∧ report.status = 0 ∧
        Delivered files call.request source report) ∨
      (∃ e log, (perform host files call.request).outcome = .error e ∧
        run host files args = .ok ⟨1, "", log ++ "Error: " ++ e.format ++ "\n", files⟩ ∧
        (call.verbose = false → call.request.format = false → log = "") ∧
        (e.isVerbatim = false → Text.IsLine e.format)) ∨
      (∃ e fault, (perform host files call.request).outcome = .error e ∧
        fault? e = some fault ∧ run host files args = .error e) ∨
      ∃ e, (perform host files call.request).outcome = .error e ∧ e.isUnpaired = true ∧
        run host files args = .error e) ∧
    (Sound host files call.request → ∃ report, run host files args = .ok report) := by
  have hrun : run host files args = call.run host files := by
    rw [run, hcall]
  rw [hrun]
  cases hperform : (perform host files call.request).outcome with
  | ok result =>
    have hreport : call.run host files = .ok ⟨0, result.1,
        logText call.verbose (perform host files call.request).log, result.2⟩ := by
      simp only [Call.run, hperform]
    obtain ⟨c, source, hc, hsource, hdeliver⟩ := exists_of_perform hperform
    refine ⟨.inl ⟨c, source, _, hc, hsource, hreport, rfl, ?_⟩, fun _ => ⟨_, hreport⟩⟩
    exact delivered_of_deliver 0 _ hdeliver
  | error e =>
    have hown : e.isOwn = true := by
      have howned := owned_perform host files call.request
      rwa [hperform] at howned
    have hreport := run_of_error hperform
    by_cases hreported : isReported e = true
    · rw [if_pos hreported] at hreport
      refine ⟨.inr (.inl ⟨e, _, rfl, hreport, ?_, fun hplain => e.isLine_format hown hplain⟩),
        fun _ => ⟨_, hreport⟩⟩
      intro hverbose hformat
      rw [hverbose]
      exact logText_perform hformat
    · rw [if_neg hreported] at hreport
      refine ⟨.inr (.inr ?_), fun hsound => ?_⟩
      · cases hfault : isFault e with
        | true =>
          obtain ⟨fault, hkind⟩ := exists_fault hown hfault
          exact .inl ⟨e, fault, rfl, hkind, hreport⟩
        | false => exact .inr ⟨e, rfl, by simpa [isReported, hfault] using hreported, hreport⟩
      · have hnoFault : isFault e = false := by
          have hends := hsound.faultless_perform
          rwa [hperform] at hends
        have hpaired := hsound.paired e hperform
        exact absurd (by rw [isReported, hnoFault, hpaired]; rfl) hreported

/-- A file with the given text. -/
def oneFile (text : String) : Files := [(["a.json"], .file (.text text))]

/-- The text of a counter with a handler. -/
def counterText : String :=
  "\x7b\"name\": \"A\", \"state\": \x7b\"n\": 0\x7d, \"children\": " ++
    "[\x7b\"name\": \"b\", \"bindings\": \x7b\"onClick\": \"state.n = 1\"\x7d\x7d]\x7d"

theorem paired_of_isOk (h : (perform host files r).outcome.toOption.isSome = true) :
    ∀ e, (perform host files r).outcome = .error e → e.isUnpaired = false := by
  intro e he
  rw [he] at h
  cases h

/-- The counter is compiled, or refused in a way that is reported. -/
theorem run_cases_counter :
    readCall ["compile", "a.json", "--state-type", "useState", "--no-prettier"] =
        .ok ⟨false, "a.json", none, .useState, .emotion, false⟩ ∧
      Sound .bare (oneFile counterText) ⟨"a.json", none, .useState, .emotion, false⟩ ∧
      ∃ report, run .bare (oneFile counterText)
        ["compile", "a.json", "--state-type", "useState", "--no-prettier"] = .ok report := by
  have hcall : (readCall ["compile", "a.json", "--state-type", "useState",
      "--no-prettier"]).toOption = some ⟨false, "a.json", none, .useState, .emotion, false⟩ := by
    decide +kernel
  have hok := State.ok_of_toOption hcall
  have hsound : Sound .bare (oneFile counterText) ⟨"a.json", none, .useState, .emotion, false⟩ :=
    ⟨by decide +kernel, by decide +kernel, paired_of_isOk (by decide +kernel),
      fun _ => by decide +kernel, nofun⟩
  exact ⟨hok, hsound, (run_cases .bare (oneFile counterText) _ _ hok).2 hsound⟩

/-- The fault that ends a run of one file. -/
def faultOn (host : Host) (text : String) (flags : List String) : Option Fault :=
  match run host (oneFile text) (["compile", "a.json"] ++ flags) with
  | .error e => fault? e
  | .ok _ => none

/-- Every fault comes up, and a complaint can be longer than a line. -/
theorem run_faults :
    faultOn .bare "5" ["--no-prettier"] = some .notApplicable ∧
      faultOn .bare "\x7b\"name\": \"A\", \"imports\": [\x7b\x7d]\x7d" ["--no-prettier"] =
        some .missingKey ∧
      faultOn .bare "\x7b\"name\": \"A\", \"hooks\": [1]\x7d" ["--no-prettier"] =
        some .noSuchOperation ∧
      faultOn .bare ("\x7b\"name\": \"A\", \"state\": " ++
          "\x7b\"\\\\q\": \"@jsx-lite/method:get q() \x7b\x7d\"\x7d\x7d")
        ["--no-prettier", "--state-type", "useState"] = some .badTemplate ∧
      faultOn .bare ("\x7b\"name\": \"A\", \"state\": " ++
          "\x7b\"\\\\g<q>\": \"@jsx-lite/method:get q() \x7b\x7d\"\x7d\x7d")
        ["--no-prettier", "--state-type", "useState"] = some .unknownGroup ∧
      faultOn { Host.bare with setting := some "" } "\x7b\"name\": \"A\"\x7d" [] =
        some .indexOutOfRange ∧
      faultOn { Host.bare with fits := fun _ => false } "[]" ["--no-prettier"] = some .tooDeep ∧
      (run .bare (oneFile ("\x7b\"name\": \"A\", \"children\": " ++
          "[\x7b\"name\": \"b\", \"bindings\": \x7b\"css\": \"\x7ba: 'x\\ny'\x7d\"\x7d\x7d]\x7d"))
        ["compile", "a.json", "--no-prettier", "--styles-type", "styled-jsx"]).toOption.map
          Report.errors = some "Error: <string>:1 Unexpected \"\n\" at column 7\n" := by
  refine ⟨?_, ?_, ?_, ?_, ?_, ?_, ?_, ?_⟩ <;> decide +kernel

end Cli

end ReactWeave
