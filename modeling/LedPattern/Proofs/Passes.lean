import LedPattern.Proofs.Reports
import LedPattern.Proofs.Verifying

/-!
# Passes agree with the calls that they stand for

A compilation goes from pass to pass through a state, where each pass looks for what the passes
before it have left. `direct` makes the same calls one after another and hands their results on
itself. `run_agrees` says that the two cannot be told apart: not by what they yield, and not by the
pass and the reason with which they stop.

After a pass that succeeds the state is `Reached`, after one that fails it is `Stopped`, and one
lemma a pass leads from the first to one of the two (`lower_agrees` and its like). This rests on
what loading and lowering leave if they report no error, which is a graph (`Graph.load_isSome_iff`)
and a program (`Graph.lower_reports`). So no pass finds its input missing.
-/

namespace LedPattern

/-- What the calls of a compilation yield, as far as they have been made. -/
structure Results where
  graph : Option Graph := none
  program : Option Program := none
  artifact : Option Artifact := none
  report : Option Comparison := none

/-- The results of the calls up to a pass. -/
def Results.upTo (r : Results) : Pass → Results
  | .load => { graph := r.graph }
  | .lower => { graph := r.graph, program := r.program }
  | .codegen => { graph := r.graph, program := r.program, artifact := r.artifact }
  | .verify => r

/-- The calls of a compilation one after another, up to a goal. -/
def direct (source : String) (s : Settings) (goal : Pass) : Except Stop Results := do
  let g ← (Graph.ofSource source).mapError (Stop.mk .load)
  if goal = .load then
    return { graph := some g }
  let p ← g.program.mapError (Stop.mk .lower)
  if goal = .lower then
    return { graph := some g, program := some p }
  let a := p.print (.ofSource source) s.print
  if goal = .codegen then
    return { graph := some g, program := some p, artifact := some a }
  let r ← (g.verify a.text s.verify).mapError (Stop.mk .verify)
  r.ensurePassed.mapError fun first => ⟨.verify, .equivalence first⟩
  return { graph := some g, program := some p, artifact := some a, report := some r }

/-- What there is to report about the verification of an artifact. -/
def Graph.verifyDiagnostics (g : Graph) (a : Artifact) (options : VerifyOptions) :
    List Diagnostic :=
  match g.verify a.text options with
  | .error failure => [Compilation.failureDiagnostic failure]
  | .ok r =>
    match r.ensurePassed with
    | .ok () => []
    | .error first => [Compilation.mismatchDiagnostic r first]

/-- What there is to report about a call, if those before it succeed. -/
def reported (source : String) (s : Settings) : Pass → List Diagnostic
  | .load => (Graph.load source).diagnostics
  | .lower =>
    match Graph.ofSource source with
    | .error _ => []
    | .ok g => g.lower.diagnostics
  | .codegen => []
  | .verify =>
    match Graph.ofSource source with
    | .error _ => []
    | .ok g =>
      match g.program with
      | .error _ => []
      | .ok p => g.verifyDiagnostics (p.print (.ofSource source) s.print) s.verify

/-! ## The calls -/

section Direct

variable {source : String} {s : Settings} {g : Graph} {p : Program} {r : Results}

/-- If loading fails, all goals fail for its reason. -/
theorem direct_of_load_error {failure : Failure} (hload : Graph.ofSource source = .error failure)
    (goal : Pass) : direct source s goal = .error ⟨.load, failure⟩ := by
  simp only [direct, hload, Except.mapError, bind, Except.bind]

/-- The call for a graph returns the graph. -/
theorem direct_load (hload : Graph.ofSource source = .ok g) :
    direct source s .load = .ok { graph := some g } := by
  simp only [direct, hload, Except.mapError, bind, Except.bind, if_true]
  rfl

/-- If lowering fails, all goals that need it fail for its reason. -/
theorem direct_of_lower_error {failure : Failure} (hload : Graph.ofSource source = .ok g)
    (hlower : g.program = .error failure) {goal : Pass} (hgoal : goal ≠ .load) :
    direct source s goal = .error ⟨.lower, failure⟩ := by
  simp only [direct, hload, hlower, Except.mapError, bind, Except.bind, if_neg hgoal]

/-- The calls for a program return the graph and the program. -/
theorem direct_lower (hload : Graph.ofSource source = .ok g) (hlower : g.program = .ok p) :
    direct source s .lower = .ok { graph := some g, program := some p } := by
  simp [direct, hload, hlower, Except.mapError, bind, Except.bind, pure, Except.pure]

/-- The calls for an artifact return the graph, the program and the artifact. -/
theorem direct_codegen (hload : Graph.ofSource source = .ok g) (hlower : g.program = .ok p) :
    direct source s .codegen =
      .ok ⟨some g, some p, some (p.print (.ofSource source) s.print), none⟩ := by
  simp [direct, hload, hlower, Except.mapError, bind, Except.bind, pure, Except.pure]

/-- The calls for a report end with those for an artifact before them. -/
theorem direct_verify (hload : Graph.ofSource source = .ok g) (hlower : g.program = .ok p) :
    direct source s .verify = (do
      let r ← (g.verify (p.print (.ofSource source) s.print).text s.verify).mapError
        (Stop.mk .verify)
      r.ensurePassed.mapError fun first => ⟨.verify, .equivalence first⟩
      .ok ⟨some g, some p, some (p.print (.ofSource source) s.print), some r⟩) := by
  simp [direct, hload, hlower, Except.mapError, bind, Except.bind, pure, Except.pure]

/-- If the call for a graph succeeds, it returns a graph and nothing else. -/
theorem direct_load_eq_ok (h : direct source s .load = .ok r) :
    ∃ g, Graph.ofSource source = .ok g ∧ r = ⟨some g, none, none, none⟩ := by
  cases hload : Graph.ofSource source with
  | error failure =>
    rw [direct_of_load_error hload] at h
    cases h
  | ok g =>
    rw [direct_load hload] at h
    exact ⟨g, rfl, (Except.ok.inj h).symm⟩

/-- The calls that a later goal makes succeed. -/
theorem exists_program_of_direct {goal : Pass} (hgoal : goal ≠ .load)
    (h : direct source s goal = .ok r) :
    ∃ g p, Graph.ofSource source = .ok g ∧ g.program = .ok p := by
  cases hload : Graph.ofSource source with
  | error failure =>
    rw [direct_of_load_error hload] at h
    cases h
  | ok g =>
    cases hlower : g.program with
    | error failure =>
      rw [direct_of_lower_error hload hlower hgoal] at h
      cases h
    | ok p => exact ⟨g, p, rfl, hlower⟩

/-- If the calls for a program succeed, they return a graph, its program and nothing else. -/
theorem direct_lower_eq_ok (h : direct source s .lower = .ok r) :
    ∃ g p, Graph.ofSource source = .ok g ∧ g.program = .ok p ∧
      r = ⟨some g, some p, none, none⟩ := by
  obtain ⟨g, p, hload, hlower⟩ := exists_program_of_direct (by decide) h
  rw [direct_lower hload hlower] at h
  exact ⟨g, p, hload, hlower, (Except.ok.inj h).symm⟩

/-- If the calls for an artifact succeed, they return a graph, its program and the artifact of that.
-/
theorem direct_codegen_eq_ok (h : direct source s .codegen = .ok r) :
    ∃ g p, Graph.ofSource source = .ok g ∧ g.program = .ok p ∧
      r = ⟨some g, some p, some (p.print (.ofSource source) s.print), none⟩ := by
  obtain ⟨g, p, hload, hlower⟩ := exists_program_of_direct (by decide) h
  rw [direct_codegen hload hlower] at h
  exact ⟨g, p, hload, hlower, (Except.ok.inj h).symm⟩

end Direct

/-- A pass is the last of those that it needs. -/
theorem Pass.mem_required (pass : Pass) : pass ∈ pass.required := by
  rw [required_eq]
  cases pass <;> decide

/-! ## What loading and lowering leave -/

namespace Diagnostic

/-- Without an error all diagnostics are warnings. -/
theorem warning_of_anyError {ds : List Diagnostic} (h : anyError ds = false) :
    ∀ d ∈ ds, d.level = .warning := by
  intro d hd
  rw [anyError, List.any_eq_false] at h
  cases hlevel : d.level with
  | warning => rfl
  | error => exact absurd (decide_eq_true hlevel) (h d hd)

end Diagnostic

namespace Graph

variable {source : String} {g : Graph} {failure : Failure}

/-- A description that is refused has an error, and leaves no graph. -/
theorem load_of_ofSource_error (h : ofSource source = .error failure) :
    (load source).value = none ∧ Diagnostic.anyError (load source).diagnostics = true ∧
      failure = .schema (Diagnostic.errors (load source).diagnostics) := by
  have hiff := load_isSome_iff source
  unfold ofSource at h
  split at h
  · next g ds hload =>
    rw [hload] at hiff
    rw [hiff.1 rfl] at h
    cases h
  · next ds hload =>
    rw [hload] at hiff ⊢
    have herror := Bool.eq_true_of_not_eq_false fun hnone => nomatch hiff.2 hnone
    exact ⟨rfl, herror, (Except.error.inj h).symm⟩

/-- A graph that is not lowered has an error, and leaves no program and no certificate. -/
theorem lower_of_program_error (hload : (load source).value = some g)
    (h : g.program = .error failure) :
    ∃ ds, g.lower = ⟨none, none, ds⟩ ∧ Diagnostic.anyError ds = true ∧
      failure = .lowering (Diagnostic.errors ds) ∧
      ∀ d ∈ Diagnostic.errors ds, d.code ≠ none := by
  obtain ⟨warnings, hwarnings, ⟨p, hlower, -⟩ | ⟨d, hlower, id, -, hfault⟩⟩ :=
    lower_reports (wellFormed_of_load hload) (nodes_ne_nil_of_load hload)
  · rw [program, hlower] at h
    dsimp only at h
    rw [anyError_of_notices hwarnings] at h
    cases h
  · have herror : d.isError = true := decide_eq_true hfault.level
    have herrors : Diagnostic.errors (warnings ++ [d]) = [d] := by
      have hnone := anyError_of_notices hwarnings
      rw [Diagnostic.anyError, List.any_eq_false] at hnone
      rw [Diagnostic.errors, List.filter_append, List.filter_eq_nil_iff.2 hnone]
      simp [herror]
    rw [program, hlower] at h
    refine ⟨_, hlower, by simp [Diagnostic.anyError, herror], (Except.error.inj h).symm, ?_⟩
    rw [herrors, List.forall_mem_singleton]
    obtain ⟨code, hcode, -⟩ := hfault.code
    simp [hcode]

/-- The certificate of a program comes with it. -/
theorem certificate_of_program {p : Program} (hload : (load source).value = some g)
    (h : g.program = .ok p) : g.lower.certificate = some p.certificate := by
  have hprogram := (lower_of_program h).1
  obtain ⟨warnings, -, ⟨q, hlower, -⟩ | ⟨d, hlower, -⟩⟩ :=
    lower_reports (wellFormed_of_load hload) (nodes_ne_nil_of_load hload)
  · rw [hlower] at hprogram ⊢
    exact congrArg (Option.map Program.certificate) hprogram
  · rw [hlower] at hprogram
    cases hprogram

/-- A verification of a graph that has a program does not fail for want of one. -/
theorem verify_ne_lowering {p : Program} (hlower : g.program = .ok p) {text : String}
    {options : VerifyOptions} (h : g.verify text options = .error failure)
    (ds : List Diagnostic) : failure ≠ .lowering ds := by
  rintro rfl
  simp only [verify, hlower, Program.ofArtifact, bind, Except.bind] at h
  cases htext : Program.ofText text with
  | error e =>
    rw [htext] at h
    cases h
  | ok parsed =>
    simp only [htext, Except.mapError, Failure.ofFault] at h
    repeat' split at h
    all_goals cases h

end Graph

namespace Compilation

/-- What a compilation has, as far as it comes from the calls. -/
def results (c : Compilation) : Results := ⟨c.graph, c.program, c.artifact, c.report⟩

/-- Whether a compilation has a product. -/
def has (c : Compilation) : Product → Bool
  | .graph => c.graph.isSome
  | .program => c.program.isSome
  | .certificate => c.certificate.isSome
  | .artifact => c.artifact.isSome
  | .report => c.report.isSome

/-- What the passes up to one of them report. -/
def eventsUpTo (source : String) (s : Settings) (pass : Pass) : List Event :=
  pass.required.map fun pass => ⟨pass, reported source s pass⟩

/-- A compilation after a pass that succeeded. -/
structure Reached (source : String) (s : Settings) (pass : Pass) (c : Compilation) : Prop where
  provenance : c.provenance = .ofSource source
  results : direct source s pass = .ok c.results
  certificate : c.certificate = c.program.map Program.certificate
  events : c.events = eventsUpTo source s pass
  diagnostics : c.diagnostics = c.events.flatMap Event.diagnostics
  warnings : ∀ d ∈ c.diagnostics, d.level = .warning
  noError : c.hasError = false

/-- A compilation after a pass that failed. -/
structure Stopped (source : String) (s : Settings) (stop : Stop) (c : Compilation) : Prop where
  results : ∀ goal : Pass, stop.pass ∈ goal.required → direct source s goal = .error stop
  earlier : ∀ pass ∈ stop.pass.required, pass ≠ stop.pass →
    direct source s pass = .ok (c.results.upTo pass) ∧ ∀ x ∈ pass.outputs, c.has x = true
  later : ∀ pass : Pass, pass ∉ stop.pass.required → ∀ x ∈ pass.outputs, c.has x = false
  events : c.events = eventsUpTo source s stop.pass
  diagnostics : c.diagnostics = c.events.flatMap Event.diagnostics
  hasError : c.hasError = true
  coded : ∀ ds, stop.failure = .lowering ds → ∀ d ∈ ds, d.code ≠ none

/-- The outcome of the passes up to one of them is that of the calls. -/
def Agrees (source : String) (s : Settings) (pass : Pass) : Outcome → Prop
  | (c, none) => Reached source s pass c
  | (c, some stop) => stop.pass ∈ pass.required ∧ Stopped source s stop c

variable {source : String} {s : Settings} {c : Compilation} {pass : Pass} {ds : List Diagnostic}
  {failure : List Diagnostic → Failure}

/-- The diagnostics of one more pass are kept with those that were announced before. -/
theorem diagnostics_append (h : c.diagnostics = c.events.flatMap Event.diagnostics) (e : Event) :
    c.diagnostics ++ e.diagnostics = (c.events ++ [e]).flatMap Event.diagnostics := by
  simp [h]

/-- A pass without an error leads on. -/
theorem finish_reached (hnone : Diagnostic.anyError ds = false)
    (hevents : c.events ++ [⟨pass, ds⟩] = eventsUpTo source s pass)
    (hprovenance : c.provenance = .ofSource source)
    (hresults : direct source s pass = .ok c.results)
    (hcertificate : c.certificate = c.program.map Program.certificate)
    (hdiagnostics : c.diagnostics = c.events.flatMap Event.diagnostics)
    (hwarnings : ∀ d ∈ c.diagnostics, d.level = .warning) (hnoError : c.hasError = false) :
    Agrees source s pass (c.finish pass ds failure) := by
  rw [finish_ok hnone]
  refine ⟨hprovenance, hresults, hcertificate, hevents, diagnostics_append hdiagnostics ⟨pass, ds⟩,
    ?_, hnoError⟩
  rw [List.forall_mem_append]
  exact ⟨hwarnings, Diagnostic.warning_of_anyError hnone⟩

/-- A pass with an error stops the compilation. -/
theorem finish_stopped (herror : Diagnostic.anyError ds = true)
    (hevents : c.events ++ [⟨pass, ds⟩] = eventsUpTo source s pass)
    (hdiagnostics : c.diagnostics = c.events.flatMap Event.diagnostics)
    (hresults : ∀ goal : Pass, pass ∈ goal.required →
      direct source s goal = .error ⟨pass, failure (Diagnostic.errors ds)⟩)
    (hearlier : ∀ q ∈ pass.required, q ≠ pass →
      direct source s q = .ok (c.results.upTo q) ∧ ∀ x ∈ q.outputs, c.has x = true)
    (hlater : ∀ q : Pass, q ∉ pass.required → ∀ x ∈ q.outputs, c.has x = false)
    (hcoded : ∀ es, failure (Diagnostic.errors ds) = .lowering es → ∀ d ∈ es, d.code ≠ none) :
    Agrees source s pass (c.finish pass ds failure) := by
  rw [finish, if_pos herror]
  exact ⟨pass.mem_required, hresults, hearlier, hlater, hevents,
    diagnostics_append hdiagnostics ⟨pass, ds⟩, rfl, hcoded⟩

/-- Loading agrees with the call. -/
theorem load_agrees (source : String) (s : Settings) :
    Agrees source s .load (start source).load := by
  have hevents : [⟨.load, (Graph.load source).diagnostics⟩] = eventsUpTo source s .load := by
    rw [eventsUpTo, Pass.required_eq]
    rfl
  cases hload : Graph.ofSource source with
  | ok g =>
    obtain ⟨hvalue, hnone⟩ := Graph.load_of_ofSource hload
    refine finish_reached hnone hevents rfl ?_ rfl rfl nofun rfl
    rw [direct_load hload, ← hvalue]
    rfl
  | error failure =>
    obtain ⟨hvalue, herror, rfl⟩ := Graph.load_of_ofSource_error hload
    refine finish_stopped herror hevents rfl (fun goal _ => direct_of_load_error hload goal) ?_ ?_
      nofun
    · intro q hq hne
      rw [Pass.required_eq] at hq
      exact absurd (List.mem_singleton.1 hq) hne
    · intro q hq x hx
      cases x with
      | graph => exact congrArg Option.isSome hvalue
      | program | certificate | artifact | report => rfl

/-- Lowering agrees with the call. -/
theorem lower_agrees (h : Reached source s .load c) : Agrees source s .lower c.lower := by
  obtain ⟨g, hload, hresults⟩ := direct_load_eq_ok h.results
  obtain ⟨hgraph, -, hartifact, hreport⟩ := Results.mk.inj hresults
  have hvalue := (Graph.load_of_ofSource hload).1
  have hevents : c.events ++ [⟨.lower, g.lower.diagnostics⟩] = eventsUpTo source s .lower := by
    rw [h.events, eventsUpTo, eventsUpTo, Pass.required_eq, Pass.required_eq]
    simp [Pass.all, reported, hload]
  rw [lower, hgraph]
  dsimp only
  cases hlower : g.program with
  | ok p =>
    obtain ⟨hprogram, hnone⟩ := Graph.lower_of_program hlower
    have hcertificate := Graph.certificate_of_program hvalue hlower
    refine finish_reached hnone hevents h.provenance ?_ ?_ h.diagnostics h.warnings h.noError
    · rw [direct_lower hload hlower, results, hprogram]
      simp only [hartifact, hreport]
    · rw [hprogram, hcertificate]
      rfl
  | error failure =>
    -- Of the products only the graph is there, from the pass before.
    obtain ⟨ds, hlowered, herror, rfl, hcoded⟩ := Graph.lower_of_program_error hvalue hlower
    rw [hlowered] at hevents ⊢
    refine finish_stopped herror hevents h.diagnostics ?_ ?_ ?_ ?_
    · intro goal hgoal
      rw [Pass.required_eq] at hgoal
      exact direct_of_lower_error hload hlower (by rintro rfl; exact absurd hgoal (by decide))
    · intro q hq hne
      rw [Pass.required_eq] at hq
      obtain rfl : q = .load := by
        revert hq hne
        cases q <;> decide
      refine ⟨by rw [h.results, hresults]; rfl, fun x hx => ?_⟩
      obtain rfl := List.mem_singleton.1 hx
      rfl
    · intro q hq x hx
      cases x with
      | graph =>
        obtain rfl : q = .load := by cases q <;> simp_all [Pass.outputs]
        rw [Pass.required_eq] at hq
        exact absurd (by decide) hq
      | program | certificate => rfl
      | artifact => exact congrArg Option.isSome hartifact
      | report => exact congrArg Option.isSome hreport
    · rintro _ ⟨⟩
      exact hcoded

/-- Printing agrees with the call, which cannot fail. -/
theorem codegen_agrees (h : Reached source s .lower c) :
    Agrees source s .codegen (c.codegen s.print) := by
  obtain ⟨g, p, hload, hlower, hresults⟩ := direct_lower_eq_ok h.results
  obtain ⟨hgraph, hprogram, -, hreport⟩ := Results.mk.inj hresults
  rw [codegen, hprogram]
  refine finish_reached rfl ?_ h.provenance ?_ ?_ h.diagnostics h.warnings h.noError
  · rw [h.events, eventsUpTo, eventsUpTo, Pass.required_eq, Pass.required_eq]
    rfl
  · rw [direct_codegen hload hlower, ← h.provenance, results, ← hgraph, ← hreport]
  · exact h.certificate.trans (congrArg _ hprogram)

/-- Verification finds what the passes before it have left. -/
theorem Reached.earlier (h : Reached source s .codegen c) (r : Option Comparison) :
    ∀ q ∈ Pass.verify.required, q ≠ .verify →
      direct source s q = .ok (({ c with report := r } : Compilation).results.upTo q) ∧
        ∀ x ∈ q.outputs, ({ c with report := r } : Compilation).has x = true := by
  obtain ⟨g, p, hload, hlower, hresults⟩ := direct_codegen_eq_ok h.results
  obtain ⟨hgraph, hprogram, hartifact, -⟩ := Results.mk.inj hresults
  have hcertificate := h.certificate
  rw [hprogram] at hcertificate
  simp only [hgraph, hprogram, hartifact]
  intro q _ hne
  cases q with
  | load => exact ⟨direct_load hload, by simp [Pass.outputs, has]⟩
  | lower => exact ⟨direct_lower hload hlower, by simp [Pass.outputs, has, hcertificate]⟩
  | codegen => exact ⟨direct_codegen hload hlower, by simp [Pass.outputs, has]⟩
  | verify => exact absurd rfl hne

/-- Verification agrees with the calls. -/
theorem verify_agrees (h : Reached source s .codegen c) :
    Agrees source s .verify (c.verify s.verify) := by
  obtain ⟨g, p, hload, hlower, hresults⟩ := direct_codegen_eq_ok h.results
  obtain ⟨hgraph, hprogram, hartifact, hreport⟩ := Results.mk.inj hresults
  have hlast : ∀ goal : Pass, .verify ∈ goal.required → goal = .verify := by
    intro goal
    rw [Pass.required_eq]
    cases goal <;> decide
  have hlater : ∀ q : Pass, q ∉ Pass.verify.required → ∀ c : Compilation, ∀ x ∈ q.outputs,
      c.has x = false := by
    intro q hq
    rw [Pass.required_eq] at hq
    exact absurd (by cases q <;> decide) hq
  have hgoal := direct_verify (s := s) hload hlower
  have hevents : c.events ++ [⟨.verify, g.verifyDiagnostics (p.print (.ofSource source) s.print)
      s.verify⟩] = eventsUpTo source s .verify := by
    rw [h.events, eventsUpTo, eventsUpTo, Pass.required_eq, Pass.required_eq]
    simp [Pass.all, reported, hload, hlower]
  rw [Graph.verifyDiagnostics] at hevents
  -- With the state taken apart, the report stands out as all that verification adds to it.
  obtain ⟨source', provenance, graph, program, certificate, artifact, report, kept, hasError,
    events⟩ := c
  obtain rfl : graph = _ := hgraph
  obtain rfl : program = _ := hprogram
  obtain rfl : artifact = _ := hartifact
  rw [verify]
  dsimp only
  cases hverify : g.verify (p.print (.ofSource source) s.print).text s.verify with
  | error failure =>
    rw [hverify] at hgoal hevents
    refine finish_stopped ?_ hevents h.diagnostics ?_ (h.earlier report)
      (fun q hq => hlater q hq _) ?_
    · cases failure <;> rfl
    · intro goal hgoal'
      rw [hlast goal hgoal', hgoal]
      rfl
    · rintro es rfl
      exact absurd rfl (Graph.verify_ne_lowering hlower hverify es)
  | ok r =>
    rw [hverify] at hgoal hevents
    dsimp only at hevents ⊢
    cases hpassed : r.ensurePassed with
    | ok =>
      rw [hpassed] at hevents
      refine finish_reached rfl hevents h.provenance ?_ h.certificate h.diagnostics h.warnings
        h.noError
      rw [hgoal]
      simp only [bind, Except.bind, Except.mapError, hpassed, results]
    | error first =>
      rw [hpassed] at hevents
      refine finish_stopped rfl hevents h.diagnostics ?_ (h.earlier (some r))
        (fun q hq => hlater q hq _) ?_
      · intro goal hgoal'
        rw [hlast goal hgoal', hgoal]
        simp only [bind, Except.bind, Except.mapError, hpassed]
      · rintro es ⟨⟩

/-- Running a list of one pass is running the pass. -/
theorem runPasses_singleton (s : Settings) (pass : Pass) (c : Compilation) :
    runPasses s [pass] c = c.runPass s pass := by
  rw [runPasses]
  rcases c.runPass s pass with ⟨c, _ | stop⟩ <;> rfl

/-- Some passes after others are run if those have succeeded. -/
theorem runPasses_append (s : Settings) (xs ys : List Pass) (c : Compilation) :
    runPasses s (xs ++ ys) c =
      match runPasses s xs c with
      | (c, none) => runPasses s ys c
      | (c, some stop) => (c, some stop) := by
  induction xs generalizing c with
  | nil => rfl
  | cons pass rest ih =>
    rw [List.cons_append, runPasses, runPasses]
    rcases c.runPass s pass with ⟨c, _ | stop⟩
    · exact ih c
    · rfl

/-- From one goal to the next: if the state after the passes so far leads on, so do all passes. -/
theorem run_agrees_next (next : Pass) (hnext : next.required = pass.required ++ [next])
    (h : Agrees source s pass (run source pass s))
    (hstep : ∀ c, Reached source s pass c → Agrees source s next (c.runPass s next)) :
    Agrees source s next (run source next s) := by
  rw [run, hnext, runPasses_append]
  rw [run] at h
  generalize runPasses s pass.required (start source) = outcome at h ⊢
  obtain ⟨c, _ | stop⟩ := outcome
  · dsimp only
    rw [runPasses_singleton]
    exact hstep c h
  · exact ⟨hnext ▸ List.mem_append_left _ h.1, h.2⟩

/-- A compilation agrees with the calls, whatever its goal. -/
theorem run_agrees (source : String) (s : Settings) (goal : Pass) :
    Agrees source s goal (run source goal s) := by
  have hload : Agrees source s .load (run source .load s) := by
    rw [run, Pass.required_eq]
    exact (runPasses_singleton s .load (start source)) ▸ load_agrees source s
  have hlower := run_agrees_next .lower (by simp only [Pass.required_eq]; rfl) hload
    fun _ => lower_agrees
  have hcodegen := run_agrees_next .codegen (by simp only [Pass.required_eq]; rfl) hlower
    fun _ => codegen_agrees
  have hverify := run_agrees_next .verify (by simp only [Pass.required_eq]; rfl) hcodegen
    fun _ => verify_agrees
  cases goal with
  | load => exact hload
  | lower => exact hlower
  | codegen => exact hcodegen
  | verify => exact hverify

/-- No pass finds its input missing. -/
theorem run_ne_missing (source : String) (s : Settings) (goal : Pass) (c : Compilation)
    (pass : Pass) (what : String) : run source goal s ≠ missing c pass what := by
  intro hrun
  have hagrees := run_agrees source s goal
  rw [hrun] at hagrees
  -- The error of a pass without its input has no code, but all errors of lowering have one.
  exact hagrees.2.coded _ rfl _ (List.mem_singleton_self _) rfl

end Compilation

/-- A description is compiled exactly if it is loaded and lowered without errors. -/
theorem compile_eq_ok_iff (source : String) (options : PrintOptions) :
    (∃ r, compile source options = .ok r) ↔
      ∃ g p, Graph.ofSource source = .ok g ∧ g.program = .ok p := by
  have hagrees := Compilation.run_agrees source { print := options } .codegen
  unfold compile
  generalize Compilation.run source .codegen { print := options } = outcome at hagrees ⊢
  obtain ⟨c, _ | stop⟩ := outcome
  · obtain ⟨g, p, hload, hlower, hresults⟩ := direct_codegen_eq_ok hagrees.results
    obtain ⟨hgraph, hprogram, hartifact, -⟩ := Results.mk.inj hresults
    simp only [hgraph, hprogram, hartifact]
    exact iff_of_true ⟨_, rfl⟩ ⟨g, p, hload, hlower⟩
  · refine iff_of_false nofun ?_
    rintro ⟨g, p, hload, hlower⟩
    have hstop := hagrees.2.results .codegen hagrees.1
    rw [direct_codegen hload hlower] at hstop
    cases hstop

/-- A compilation and the calls that its passes stand for cannot be told apart. For every
description, all settings and every goal, the compilation succeeds exactly if the calls do, and then
has their results and nothing else, the certificate of the program apart, and only warnings. If it
fails, so do the calls, at the same pass and for the same reason. The passes before it have left the
results of their calls, those after it nothing, and there is an error. Either way each pass up to
the last that was run has reported once, in order, and all that was reported is kept. A pass never
lacks its input, and an artifact is compiled exactly if loading and lowering succeed. -/
theorem passes_agree_with_calls (source : String) (s : Settings) (goal : Pass) :
    ((Compilation.run source goal s).2 = none ↔ ∃ r, direct source s goal = .ok r) ∧
    (∀ c, Compilation.run source goal s = (c, none) →
      direct source s goal = .ok c.results ∧
      c.certificate = c.program.map Program.certificate ∧
      c.events = Compilation.eventsUpTo source s goal ∧
      c.diagnostics = c.events.flatMap Event.diagnostics ∧ c.hasError = false ∧
      ∀ d ∈ c.diagnostics, d.level = .warning) ∧
    (∀ c stop, Compilation.run source goal s = (c, some stop) →
      direct source s goal = .error stop ∧ stop.pass ∈ goal.required ∧
      (∀ pass ∈ stop.pass.required, pass ≠ stop.pass →
        direct source s pass = .ok (c.results.upTo pass) ∧ ∀ x ∈ pass.outputs, c.has x = true) ∧
      (∀ pass : Pass, pass ∉ stop.pass.required → ∀ x ∈ pass.outputs, c.has x = false) ∧
      c.events = Compilation.eventsUpTo source s stop.pass ∧
      c.diagnostics = c.events.flatMap Event.diagnostics ∧ c.hasError = true) ∧
    (∀ c pass what, Compilation.run source goal s ≠ Compilation.missing c pass what) ∧
    ((∃ r, compile source s.print = .ok r) ↔
      ∃ g p, Graph.ofSource source = .ok g ∧ g.program = .ok p) := by
  have hagrees := Compilation.run_agrees source s goal
  refine ⟨?_, fun c hrun => ?_, fun c stop hrun => ?_, Compilation.run_ne_missing source s goal,
    compile_eq_ok_iff source s.print⟩
  · generalize Compilation.run source goal s = outcome at hagrees ⊢
    obtain ⟨c, _ | stop⟩ := outcome
    · exact iff_of_true rfl ⟨_, hagrees.results⟩
    · refine iff_of_false nofun ?_
      rintro ⟨r, hr⟩
      rw [hagrees.2.results goal hagrees.1] at hr
      cases hr
  · rw [hrun] at hagrees
    exact ⟨hagrees.results, hagrees.certificate, hagrees.events, hagrees.diagnostics,
      hagrees.noError, hagrees.warnings⟩
  · rw [hrun] at hagrees
    obtain ⟨hpass, hstopped⟩ := hagrees
    exact ⟨hstopped.results goal hpass, hpass, hstopped.earlier, hstopped.later, hstopped.events,
      hstopped.diagnostics, hstopped.hasError⟩

end LedPattern
