import PromptBlocks.Proofs.Host.Atomicity

/-!
Contract: a catalog that could not be loaded touches nothing but patterns.

Owns:
- the commands that read the catalog, and the requests that ask them;
- the answers of all other requests, which another catalog does not change;
- the refusals of a host whose catalog is unavailable, and the fixes that it still plans.

Does not own: what a catalog answers when there is one.
-/

namespace PromptBlocks

/-! ### Commands -/

namespace CommandName

/-- The commands that ask the catalog for patterns. -/
def seeksPatterns : CommandName → Bool
  | .analyzePatterns | .suggestPatterns | .getPatterns => true
  | _ => false

end CommandName

namespace PlanRequest

/-- The request follows a template, and needs the catalog to find it. -/
def followsPattern : PlanRequest → Bool
  | .fix _ => false
  | .applyPattern _ | .completePattern _ => true

end PlanRequest

/-- The command reads the catalog. -/
def Command.readsCatalog : Command → Bool
  | .ask (.planFix _ _ request) => request.followsPattern
  | command => command.name.seeksPatterns

/-! ### Requests -/

namespace Request

/-- The request is for patterns, whatever its arguments. -/
def seeksPatterns (request : Request) : Bool :=
  ["analyze_patterns", "suggest_patterns", "get_patterns"].contains request.command

/-- The request is for a plan that follows a template. -/
def PlansPattern (request : Request) : Prop :=
  ∃ source locale plan, Host.commandOf request = .ok (.ask (.planFix source locale plan)) ∧
    plan.followsPattern = true

end Request

namespace Host

variable {host left right : Host} {request : Request} {command : Command} {reason : String}

theorem seeksPatterns_of_commandOf (asked : commandOf request = .ok command) :
    request.seeksPatterns = command.name.seeksPatterns := by
  rw [Request.seeksPatterns, ← id_name_of_commandOf asked]
  cases command.name <;> decide

/-- A request that neither seeks patterns nor plans by one is for a command without the catalog. -/
theorem readsCatalog_of_commandOf (seeksNone : request.seeksPatterns = false)
    (plansNone : ¬request.PlansPattern) (asked : commandOf request = .ok command) :
    command.readsCatalog = false := by
  rw [seeksPatterns_of_commandOf asked] at seeksNone
  unfold Command.readsCatalog
  split
  · next source locale plan =>
    refine Bool.eq_false_iff.mpr fun follows => plansNone ?_
    exact ⟨source, locale, plan, asked, follows⟩
  · exact seeksNone

/-! ### Another catalog -/

/-- The state with another catalog in place of its own. -/
def withCatalog (host : Host) (catalog : CatalogSource) : Host :=
  { host with catalog }

/-- The states differ in their catalogs only, if they differ. -/
structure AgreeButCatalog (left right : Host) : Prop where
  settings : left.settings = right.settings
  shelf : left.shelf = right.shelf

theorem AgreeButCatalog.eq_withCatalog (agree : AgreeButCatalog left right) :
    right = left.withCatalog right.catalog := by
  rw [withCatalog, agree.settings, agree.shelf]

/-- The files that a host starts with tell in its catalog only. -/
theorem agreeButCatalog_start (files others : Files) (settings : Settings) :
    AgreeButCatalog (start files settings) (start others settings) :=
  ⟨rfl, rfl⟩

theorem agreeButCatalog_withCatalog (host : Host) (catalog : CatalogSource) :
    AgreeButCatalog host (host.withCatalog catalog) :=
  ⟨rfl, rfl⟩

section Another

variable (host) (catalog : CatalogSource)

theorem answer_withCatalog {query : Query} (free : (Command.ask query).readsCatalog = false) :
    (host.withCatalog catalog).answer query = host.answer query := by
  cases query with
  | analyzePatterns | suggestPatterns | getPatterns => cases free
  | planFix source locale request =>
    cases request with
    | fix fix => rfl
    | applyPattern | completePattern => cases free
  | _ => rfl

/-- A command that does not read the catalog does the same under any other, in success and in
failure. -/
theorem perform_withCatalog (free : command.readsCatalog = false) :
    (host.withCatalog catalog).perform command =
      ((host.perform command).1.withCatalog catalog, (host.perform command).2) := by
  cases command with
  | ask query => rw [perform_ask, answer_withCatalog host catalog free, perform_ask]
  | saveChain id value =>
    rw [perform_saveChain, perform_saveChain]
    cases (BlockChain.headsOf value).head? with
    | none => rfl
    | some chain => cases Text.isAllBlank id <;> rfl
  | removeChain id => rfl

theorem serve_withCatalog
    (free : ∀ command, commandOf request = .ok command → command.readsCatalog = false) :
    (host.withCatalog catalog).serve request =
      ((host.serve request).1.withCatalog catalog, (host.serve request).2) := by
  unfold serve
  rw [after_run, after_run]
  cases asked : commandOf request with
  | error error => rfl
  | ok command =>
    simp only [perform_withCatalog host catalog (free command asked)]
    rcases host.perform command with ⟨changed, error | result⟩ <;> rfl

theorem handleLine_withCatalog {line : String}
    (free : ∀ request command, Request.ofLine? line = some request →
      commandOf request = .ok command → command.readsCatalog = false) :
    (host.withCatalog catalog).handleLine line =
      ((host.handleLine line).1.withCatalog catalog, (host.handleLine line).2) := by
  unfold Request.ofLine? at free
  unfold handleLine
  cases read : Json.readText Request.codec.read line with
  | error fault => rfl
  | ok request =>
    refine serve_withCatalog host catalog fun command asked => ?_
    exact free request command (by rw [read]; rfl) asked

/-- Lines without a command that reads the catalog are answered the same under any other. -/
theorem handleLines_withCatalog {lines : List String}
    (free : ∀ line ∈ lines, ∀ request command, Request.ofLine? line = some request →
      commandOf request = .ok command → command.readsCatalog = false) :
    (host.withCatalog catalog).handleLines lines =
      ((host.handleLines lines).1.withCatalog catalog, (host.handleLines lines).2) := by
  induction lines generalizing host with
  | nil => rfl
  | cons line later inductionHypothesis =>
    obtain ⟨here, others⟩ := List.forall_mem_cons.mp free
    simp only [handleLines_cons, handleLine_withCatalog host catalog here,
      inductionHypothesis (host.handleLine line).1 others]

end Another

/-! ### No catalog -/

section Unavailable

variable {source : SequenceSource} {sequence : Sequence}

theorem requireCatalog_of_unavailable (unavailable : host.catalog = .unavailable reason)
    (locale : Option Locale) : host.requireCatalog locale = .error (.catalogUnavailable reason) := by
  rw [requireCatalog, catalogFor, unavailable]
  rfl

/-- Without a catalog a command that seeks patterns fails before it looks at its sequence. -/
theorem perform_of_seeksPatterns (unavailable : host.catalog = .unavailable reason)
    (seeks : command.name.seeksPatterns = true) :
    host.perform command = (host, .error (.catalogUnavailable reason)) := by
  have refused := requireCatalog_of_unavailable unavailable
  cases command with
  | ask query =>
    cases query with
    | analyzePatterns | suggestPatterns | getPatterns =>
      simp [perform_ask, answer, refused, bind, Except.bind]
    | _ => cases seeks
  | _ => cases seeks

/-- Without a catalog a plan that follows a template fails once its sequence is there. -/
theorem perform_planFix_of_followsPattern (unavailable : host.catalog = .unavailable reason)
    (resolved : host.resolve source = .ok sequence) (locale : Option Locale) {plan : PlanRequest}
    (follows : plan.followsPattern = true) :
    host.perform (.ask (.planFix source locale plan)) =
      (host, .error (.catalogUnavailable reason)) := by
  have refused := requireCatalog_of_unavailable unavailable
  cases plan with
  | fix fix => cases follows
  | applyPattern id | completePattern id =>
    simp [perform_ask, answer, resolved, Host.plan, refused, Except.map, bind, Except.bind]

/-- The plan of a fix needs a sequence only. -/
theorem perform_planFix_fix (resolved : host.resolve source = .ok sequence) (locale : Option Locale)
    (fix : Fix) :
    host.perform (.ask (.planFix source locale (.fix fix))) =
      (host, .ok (PlannedEdit.toJson
        { plan := Plan.forFix sequence fix
          result := (Plan.forFix sequence fix).apply sequence })) := by
  simp [perform_ask, answer, resolved, Host.plan, bind, Except.bind]

theorem serve_of_perform_eq_error {changed : Host} {error : CommandError}
    (asked : commandOf request = .ok command) (failed : host.perform command = (changed, .error error)) :
    host.serve request = (changed, .failure request.id error) := by
  simp [serve, after_run, asked, failed]

theorem serve_of_perform_eq_ok {changed : Host} {result : Json}
    (asked : commandOf request = .ok command) (performed : host.perform command = (changed, .ok result)) :
    host.serve request = (changed, .success request.id result) := by
  simp [serve, after_run, asked, performed]

end Unavailable

/-- A catalog that could not be loaded is felt by requests for patterns only.  States that differ in
their catalogs give the same response to any request that neither seeks patterns nor plans by a template,
and the states they leave differ in their catalogs only; so do whole runs of such lines.  Without a
catalog every request that seeks patterns and reads as a command, and every plan by a template whose
sequence is there, is answered with the reason and changes nothing, and fixes are planned as ever. -/
theorem unavailable_catalog_contained :
    (∀ left right, AgreeButCatalog left right →
      (∀ request : Request, request.seeksPatterns = false → ¬request.PlansPattern →
        (left.serve request).2 = (right.serve request).2 ∧
          AgreeButCatalog (left.serve request).1 (right.serve request).1) ∧
      ∀ lines,
        (∀ line ∈ lines, ∀ request, Request.ofLine? line = some request →
          request.seeksPatterns = false ∧ ¬request.PlansPattern) →
        (left.handleLines lines).2 = (right.handleLines lines).2 ∧
          AgreeButCatalog (left.handleLines lines).1 (right.handleLines lines).1) ∧
      ∀ (host : Host) (reason : String), host.catalog = .unavailable reason →
        (∀ request command, request.seeksPatterns = true → commandOf request = .ok command →
          host.serve request = (host, .failure request.id (.catalogUnavailable reason))) ∧
        ∀ request source locale plan sequence,
          commandOf request = .ok (.ask (.planFix source locale plan)) →
          host.resolve source = .ok sequence →
            (plan.followsPattern = true →
              host.serve request = (host, .failure request.id (.catalogUnavailable reason))) ∧
            ∀ fix, plan = .fix fix → host.serve request =
              (host, .success request.id (PlannedEdit.toJson
                { plan := Plan.forFix sequence fix
                  result := (Plan.forFix sequence fix).apply sequence })) := by
  constructor
  · intro left right agree
    rw [agree.eq_withCatalog]
    constructor
    · intro request seeksNone plansNone
      rw [serve_withCatalog left right.catalog fun command asked =>
        readsCatalog_of_commandOf seeksNone plansNone asked]
      exact ⟨rfl, agreeButCatalog_withCatalog _ _⟩
    · intro lines free
      rw [handleLines_withCatalog left right.catalog fun line member request command read asked =>
        readsCatalog_of_commandOf (free line member request read).1 (free line member request read).2
          asked]
      exact ⟨rfl, agreeButCatalog_withCatalog _ _⟩
  · intro host reason unavailable
    constructor
    · intro request command seeks asked
      rw [seeksPatterns_of_commandOf asked] at seeks
      exact serve_of_perform_eq_error asked (perform_of_seeksPatterns unavailable seeks)
    · intro request source locale plan sequence asked resolved
      constructor
      · intro follows
        exact serve_of_perform_eq_error asked
          (perform_planFix_of_followsPattern unavailable resolved locale follows)
      · rintro fix rfl
        exact serve_of_perform_eq_ok asked (perform_planFix_fix resolved locale fix)

/-- A host whose catalog file is missing greets like one that found it, refuses its patterns, and plans
a fix of no tokens but no completion of them. -/
theorem unavailable_catalog_contained_of_missing_file :
    let settings := { Settings.standard with catalogPath := some "patterns.json" }
    let missing := start { isThere := fun _ => false, read := fun _ => .error .notFound } settings
    let found := start { isThere := fun _ => true, read := fun _ => .ok "[]" } settings
    let reason := "patterns.json: I/O error: No such file or directory (os error 2)"
    let refusal : Response := .failure .null (.catalogUnavailable reason)
    let greet : Request := { id := .null, command := "greet", args := .null }
    let list : Request := { id := .null, command := "get_patterns", args := .null }
    let planned (plan : PlanRequest) : Request :=
      { id := .null
        command := "plan_fix"
        args := .object [("tokens", .array []), ("request", Wire.write plan)] }
    (missing.serve greet).2 = (found.serve greet).2 ∧
      missing.serve list = (missing, refusal) ∧
      missing.serve (planned (.completePattern "task")) = (missing, refusal) ∧
      (missing.serve (planned (.fix ⟨.insertAfter, "promps_verb_create", 0, ""⟩))).2.isOk = true := by
  intro settings missing found reason refusal greet list planned
  obtain ⟨agreeing, refusing⟩ := unavailable_catalog_contained
  obtain ⟨alike, -⟩ := agreeing missing found (agreeButCatalog_start _ _ settings)
  obtain ⟨seekers, planners⟩ := refusing missing reason rfl
  have greetPlansNone : ¬greet.PlansPattern := by
    rintro ⟨source, locale, plan, asked, -⟩
    have greets : commandOf greet = .ok (.ask (.greet "")) := rfl
    rw [greets] at asked
    simp at asked
  obtain ⟨refused, -⟩ := planners (planned (.completePattern "task")) _ _ _ _ rfl rfl
  obtain ⟨-, fixed⟩ := planners
    (planned (.fix ⟨.insertAfter, "promps_verb_create", 0, ""⟩)) _ _ _ _ rfl rfl
  refine ⟨(alike greet rfl greetPlansNone).1, seekers list _ rfl rfl, refused rfl, ?_⟩
  rw [fixed _ rfl]
  rfl

end Host

end PromptBlocks
