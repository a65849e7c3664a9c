import PromptBlocks.Host.Request
import PromptBlocks.Proofs.Outcomes
import PromptBlocks.Proofs.Vocabulary.Ids

/-!
Contract: requests are atomic, and reads are invisible.

Owns:
- the name of each command, which is the name in its request;
- the requests that write: those that save or remove a chain and succeed;
- the command: what each does to the state, and that failing leaves it as it was;
- the step: a line that does not write leaves the state as it was, and a write changes saved chains
  only;
- runs of lines, whole and with lines taken out that do not write;
- the members of a response.

Does not own: what a command computes.
-/

namespace PromptBlocks

/-! ### Writes -/

namespace CommandName

/-- The commands that change saved chains. -/
def isWrite : CommandName → Bool
  | .saveChain | .removeChain => true
  | _ => false

end CommandName

namespace Command

def isWrite : Command → Bool
  | .ask _ => false
  | .saveChain _ _ | .removeChain _ => true

end Command

namespace Request

def isWrite (request : Request) : Bool :=
  request.command == "register_macro" || request.command == "remove_macro"

/-- The request on a line, if the line is one. -/
def ofLine? (line : String) : Option Request :=
  (Json.readText codec.read line).toOption

end Request

/-! ### Names -/

namespace Command

/-- The name under which a command is asked. -/
def name : Command → CommandName
  | .ask (.linearize _) => .linearize
  | .ask (.validate _ _ _) => .validate
  | .ask (.analyzePatterns _ _) => .analyzePatterns
  | .ask (.suggestPatterns _ _ _) => .suggestPatterns
  | .ask (.getPatterns _) => .getPatterns
  | .ask (.planFix _ _ _) => .planFix
  | .ask (.renderPrompt _ _) => .renderPrompt
  | .ask (.generatePrompt _ _) => .generatePrompt
  | .ask (.writeScript _ _) => .writeScript
  | .ask (.readScript _) => .readScript
  | .ask (.greet _) => .greet
  | .ask .listChains => .listChains
  | .saveChain _ _ => .saveChain
  | .removeChain _ => .removeChain

theorem isWrite_eq (command : Command) : command.isWrite = command.name.isWrite := by
  cases command with
  | ask query => cases query <;> rfl
  | _ => rfl

end Command

/-- What is read under a name is a command of that name, whatever the arguments. -/
theorem CommandName.name_of_read {name : CommandName} {args : Json} {command : Command}
    (read : name.read args = .ok command) : command.name = name := by
  cases name with
  | listChains =>
    obtain rfl := Except.ok.inj read
    rfl
  | _ =>
    obtain ⟨value, -, rfl⟩ := exists_of_map_eq_ok read
    rfl

namespace Host

variable {host changed : Host} {request : Request} {command : Command} {line : String} {result : Json}

theorem id_name_of_commandOf (asked : commandOf request = .ok command) :
    Enumerated.id command.name = request.command := by
  unfold commandOf at asked
  cases named : (Enumerated.ofId? request.command : Option CommandName) with
  | none => simp [named] at asked
  | some name =>
    rw [named] at asked
    rw [CommandName.name_of_read (eq_ok_of_mapError_eq_ok asked)]
    exact Enumerated.id_of_ofId? named

theorem isWrite_of_commandOf (asked : commandOf request = .ok command) :
    command.isWrite = request.isWrite := by
  rw [Command.isWrite_eq, Request.isWrite, ← id_name_of_commandOf asked]
  cases command.name <;> decide

/-! ### One command -/

section After

variable {Value Next : Type} (host : Host)

theorem after_bind (action : HostAction Value) (next : Value → HostAction Next) :
    host.after (action >>= next) =
      match host.after action with
      | (changed, .ok value) => changed.after (next value)
      | (changed, .error error) => (changed, .error error) := by
  simp only [after, run_bind]
  rcases action.run.run host with ⟨_ | _, changed⟩ <;> rfl

theorem after_lift (reading : Except CommandError Value) :
    host.after (liftM reading : HostAction Value) = (host, reading) :=
  rfl

theorem after_onShelf (change : ExceptT Shelf.Refusal (StateM Shelf) Value) :
    host.after (HostAction.onShelf change) =
      ({ host with shelf := (change.run.run host.shelf).2 },
        (change.run.run host.shelf).1.mapError fun | .blankId => .invalidArguments .blankId) :=
  rfl

end After

theorem perform_ask (host : Host) (query : Query) :
    host.perform (.ask query) = (host, host.answer query) :=
  rfl

/-- Saving a chain fails without one, and then under a blank id; only then is it saved. -/
theorem perform_saveChain (host : Host) (id : String) (value : Json) :
    host.perform (.saveChain id value) =
      match (BlockChain.headsOf value).head? with
      | none => (host, .error (.invalidArguments .emptyChain))
      | some chain =>
        if Text.isAllBlank id then (host, .error (.invalidArguments .blankId))
        else
          ({ host with shelf := host.shelf.insert id chain },
            .ok (SavedChainInfo.toJson { id, chain })) := by
  rw [perform, Command.run, after_bind, HostAction.saveChain]
  cases (BlockChain.headsOf value).head? with
  | none => rfl
  | some chain =>
    simp only [after_bind, after_onShelf, Shelf.run_register]
    cases Text.isAllBlank id <;> rfl

theorem perform_removeChain (host : Host) (id : String) :
    host.perform (.removeChain id) =
      ({ host with shelf := host.shelf.remove id }, .ok (.bool (host.shelf.contains id))) :=
  rfl

/-- What a command can do: it leaves the state as it was, whatever its outcome, or it writes and
succeeds with another shelf. -/
theorem perform_cases (host : Host) (command : Command) :
    (∃ outcome, host.perform command = (host, outcome)) ∨
      command.isWrite = true ∧
        ∃ shelf result, host.perform command = ({ host with shelf }, .ok result) := by
  cases command with
  | ask query => exact .inl ⟨_, host.perform_ask query⟩
  | saveChain id value =>
    rw [perform_saveChain]
    split
    · exact .inl ⟨_, rfl⟩
    · split
      · exact .inl ⟨_, rfl⟩
      · exact .inr ⟨rfl, _, _, rfl⟩
  | removeChain id => exact .inr ⟨rfl, _, _, host.perform_removeChain id⟩

/-- A command changes saved chains only, and those only when it writes. -/
theorem perform_keeps (host : Host) (command : Command) :
    (host.perform command).1.settings = host.settings ∧
      (host.perform command).1.catalog = host.catalog ∧
      (command.isWrite = false → (host.perform command).1 = host) := by
  rcases host.perform_cases command with ⟨outcome, stays⟩ | ⟨write, shelf, result, changes⟩
  · rw [stays]
    exact ⟨rfl, rfl, fun _ => rfl⟩
  · rw [changes]
    exact ⟨rfl, rfl, fun noWrite => absurd (write.symm.trans noWrite) (by decide)⟩

/-- Every way in which a command fails comes before its change. -/
theorem eq_of_perform_eq_error {error : CommandError}
    (failed : host.perform command = (changed, .error error)) : changed = host := by
  rcases host.perform_cases command with ⟨outcome, stays⟩ | ⟨-, shelf, result, changes⟩
  · rw [stays] at failed
    exact (Prod.mk.inj failed).1.symm
  · rw [changes] at failed
    cases failed

/-! ### One line -/

theorem after_run (host : Host) (request : Request) :
    host.after request.run =
      match commandOf request with
      | .error error => (host, .error error)
      | .ok command => host.perform command := by
  rw [Request.run, after_bind, after_lift]
  cases commandOf request <;> rfl

/-- What serving a request does: a command succeeds, or the state stays as it was. -/
theorem serve_cases (host : Host) (request : Request) :
    (∃ command changed result, commandOf request = .ok command ∧
        host.perform command = (changed, .ok result) ∧
        host.serve request = (changed, .success request.id result)) ∨
      ∃ error, host.serve request = (host, .failure request.id error) := by
  unfold serve
  rw [after_run]
  cases asked : commandOf request with
  | error error => exact .inr ⟨error, rfl⟩
  | ok command =>
    rcases performed : host.perform command with ⟨changed, error | result⟩
    · obtain rfl := eq_of_perform_eq_error performed
      refine .inr ⟨error, ?_⟩
      simp only [performed]
    · refine .inl ⟨command, changed, result, rfl, performed, ?_⟩
      simp only [performed]

/-- The id under which a line is answered. -/
def idOf (line : String) : Json :=
  ((Request.ofLine? line).map Request.id).getD .null

/-- What a line does: it asks for a command that succeeds, or the state stays as it was.  Either way it
is answered under its id. -/
theorem handleLine_cases (host : Host) (line : String) :
    (∃ request command changed result, Request.ofLine? line = some request ∧
        commandOf request = .ok command ∧ host.perform command = (changed, .ok result) ∧
        host.handleLine line = (changed, .success (idOf line) result)) ∨
      ∃ error, host.handleLine line = (host, .failure (idOf line) error) := by
  unfold idOf Request.ofLine? handleLine
  cases Json.readText Request.codec.read line with
  | error fault => exact .inr ⟨_, rfl⟩
  | ok request =>
    rcases host.serve_cases request with
      ⟨command, changed, result, asked, performed, served⟩ | ⟨error, served⟩
    · exact .inl ⟨request, command, changed, result, rfl, asked, performed, served⟩
    · exact .inr ⟨error, served⟩

/-- The line asks for a write that succeeds. -/
def writes (host : Host) (line : String) : Bool :=
  (Request.ofLine? line).any Request.isWrite && (host.handleLine line).2.isOk

/-- Whatever a line asks, only saved chains change. -/
theorem handleLine_keeps (host : Host) (line : String) :
    (host.handleLine line).1.settings = host.settings ∧
      (host.handleLine line).1.catalog = host.catalog := by
  rcases host.handleLine_cases line with
    ⟨request, command, changed, result, -, -, performed, handled⟩ | ⟨error, handled⟩
  · obtain ⟨sameSettings, sameCatalog, -⟩ := host.perform_keeps command
    rw [performed] at sameSettings sameCatalog
    rw [handled]
    exact ⟨sameSettings, sameCatalog⟩
  · rw [handled]
    exact ⟨rfl, rfl⟩

/-- A line that does not write leaves the state as it was. -/
theorem handleLine_of_not_writes (noWrite : host.writes line = false) :
    (host.handleLine line).1 = host := by
  rcases host.handleLine_cases line with
    ⟨request, command, changed, result, isRequest, asked, performed, handled⟩ | ⟨error, handled⟩
  · have reads : command.isWrite = false := by
      rw [writes, isRequest, handled] at noWrite
      rw [isWrite_of_commandOf asked]
      simpa [Response.success] using noWrite
    obtain ⟨-, -, unchanged⟩ := host.perform_keeps command
    rw [performed] at unchanged
    rw [handled]
    exact unchanged reads
  · rw [handled]

/-- To remove a chain is a write, also where there is none. -/
example : writes { settings := Settings.standard, catalog := .builtin, shelf := Shelf.empty }
    "\x7b\"command\":\"remove_macro\",\"args\":\x7b\"id\":\"x\"\x7d\x7d" = true := by
  decide +kernel

theorem writes_of_not_isOk (failed : (host.handleLine line).2.isOk = false) :
    host.writes line = false := by
  rw [writes, failed, Bool.and_false]

/-! ### Responses -/

/-- A response has the id of its request, and one of a result and an error. -/
theorem exists_toJson_handleLine (host : Host) (line : String) :
    ∃ body, (host.handleLine line).2.toJson =
      .object [("id", idOf line), ("ok", .bool (host.handleLine line).2.isOk),
        (if (host.handleLine line).2.isOk then "result" else "error", body)] := by
  rcases host.handleLine_cases line with ⟨_, _, _, result, -, -, -, handled⟩ | ⟨error, handled⟩
  · rw [handled, Response.toJson_success]
    exact ⟨_, rfl⟩
  · rw [handled, Response.toJson_failure]
    exact ⟨_, rfl⟩

theorem isSome_handleLine (host : Host) (line : String) :
    (host.handleLine line).2.result.isSome = (host.handleLine line).2.isOk ∧
      (host.handleLine line).2.error.isSome = !(host.handleLine line).2.isOk := by
  rcases host.handleLine_cases line with ⟨_, _, _, result, -, -, -, handled⟩ | ⟨error, handled⟩
  · rw [handled]
    exact ⟨rfl, rfl⟩
  · rw [handled]
    exact ⟨rfl, rfl⟩

/-! ### Runs -/

/-- Serve lines in order: the state that they leave, and the responses. -/
def handleLines (host : Host) : List String → Host × List Response
  | [] => (host, [])
  | line :: later =>
    let (changed, response) := host.handleLine line
    let (final, responses) := changed.handleLines later
    (final, response :: responses)

theorem handleLines_cons (host : Host) (line : String) (later : List String) :
    host.handleLines (line :: later) =
      (((host.handleLine line).1.handleLines later).1,
        (host.handleLine line).2 :: ((host.handleLine line).1.handleLines later).2) :=
  rfl

theorem handleLines_keeps (host : Host) (lines : List String) :
    (host.handleLines lines).1.settings = host.settings ∧
      (host.handleLines lines).1.catalog = host.catalog := by
  induction lines generalizing host with
  | nil => exact ⟨rfl, rfl⟩
  | cons line later inductionHypothesis =>
    obtain ⟨sameSettings, sameCatalog⟩ := host.handleLine_keeps line
    obtain ⟨laterSettings, laterCatalog⟩ := inductionHypothesis (host.handleLine line).1
    rw [handleLines_cons]
    exact ⟨laterSettings.trans sameSettings, laterCatalog.trans sameCatalog⟩

/-- The lines of a run that write. -/
def writesAmong (host : Host) : List String → List String
  | [] => []
  | line :: later =>
    let rest := (host.handleLine line).1.writesAmong later
    if host.writes line then line :: rest else rest

/-- A run leaves the state that its writes alone leave. -/
theorem handleLines_writesAmong (host : Host) (lines : List String) :
    (host.handleLines (host.writesAmong lines)).1 = (host.handleLines lines).1 := by
  induction lines generalizing host with
  | nil => rfl
  | cons line later inductionHypothesis =>
    have rest := inductionHypothesis (host.handleLine line).1
    rw [writesAmong, handleLines_cons]
    by_cases write : host.writes line = true
    · rw [if_pos write, handleLines_cons]
      exact rest
    · rw [if_neg write]
      rw [handleLine_of_not_writes (Bool.eq_false_iff.mpr write)] at rest ⊢
      exact rest

/-- What belongs to the lines that stay when a run is thinned out. -/
def staying {Item : Type} (marked : List (String × Bool)) (items : List Item) : List Item :=
  ((marked.zip items).filter fun (mark, _) => mark.2).map Prod.snd

/-- The lines that go do not write, each at its place in the whole run. -/
def KeepsWrites (host : Host) (marked : List (String × Bool)) : Prop :=
  ∀ front line back, marked = front ++ (line, false) :: back →
    (host.handleLines (front.map Prod.fst)).1.writes line = false

theorem KeepsWrites.tail {mark : String × Bool} {marked : List (String × Bool)}
    (keeps : host.KeepsWrites (mark :: marked)) :
    (host.handleLine mark.1).1.KeepsWrites marked := by
  intro front line back split
  have whole := keeps (mark :: front) line back (by rw [split, List.cons_append])
  rw [List.map_cons, handleLines_cons] at whole
  exact whole

/-- With lines taken out that do not write, a run leaves the same state and gives all other lines the
same responses. -/
theorem handleLines_staying {marked : List (String × Bool)} (keeps : host.KeepsWrites marked) :
    host.handleLines (staying marked (marked.map Prod.fst)) =
      ((host.handleLines (marked.map Prod.fst)).1,
        staying marked (host.handleLines (marked.map Prod.fst)).2) := by
  induction marked generalizing host with
  | nil => rfl
  | cons mark marked inductionHypothesis =>
    obtain ⟨line, stays⟩ := mark
    have rest := inductionHypothesis keeps.tail
    rw [List.map_cons, handleLines_cons]
    cases stays with
    | true =>
      have here : ∀ {Item : Type} (item : Item) (items : List Item),
          staying ((line, true) :: marked) (item :: items) = item :: staying marked items :=
        fun _ _ => rfl
      rw [here, here, handleLines_cons, rest]
    | false =>
      have gone : ∀ {Item : Type} (item : Item) (items : List Item),
          staying ((line, false) :: marked) (item :: items) = staying marked items :=
        fun _ _ => rfl
      have noWrite : host.writes line = false := keeps [] line marked rfl
      rw [handleLine_of_not_writes noWrite] at rest
      rw [gone, gone, handleLine_of_not_writes noWrite]
      exact rest

/-- Requests are atomic, and reads are invisible.  A command that fails leaves the state as it was, and
so does every line whose response has no result; whatever changes the state is a write that succeeds, and
changes saved chains only.  So a response depends on its line, on what the host started with, and on the
writes before it: lines that do not write can be taken out of a run without a trace in the other
responses.  Each response has the id of its request and one of a result and an error. -/
theorem requests_atomic (host : Host) :
    (∀ command changed error, host.perform command = (changed, .error error) → changed = host) ∧
      (∀ line, (host.handleLine line).2.isOk = false → (host.handleLine line).1 = host) ∧
      (∀ line, (host.handleLine line).1 ≠ host → host.writes line = true) ∧
      (∀ lines, (host.handleLines lines).1.settings = host.settings ∧
        (host.handleLines lines).1.catalog = host.catalog) ∧
      (∀ lines line, ((host.handleLines lines).1.handleLine line).2 =
        ((host.handleLines (host.writesAmong lines)).1.handleLine line).2) ∧
      (∀ marked, host.KeepsWrites marked →
        host.handleLines (staying marked (marked.map Prod.fst)) =
          ((host.handleLines (marked.map Prod.fst)).1,
            staying marked (host.handleLines (marked.map Prod.fst)).2)) ∧
      (∀ line, (host.handleLine line).2.result.isSome = (host.handleLine line).2.isOk ∧
        (host.handleLine line).2.error.isSome = !(host.handleLine line).2.isOk) ∧
      ∀ line, ∃ body, (host.handleLine line).2.toJson =
        .object [("id", idOf line), ("ok", .bool (host.handleLine line).2.isOk),
          (if (host.handleLine line).2.isOk then "result" else "error", body)] := by
  refine ⟨?_, ?_, ?_, host.handleLines_keeps, ?_, ?_, host.isSome_handleLine,
    host.exists_toJson_handleLine⟩
  · intro command changed error failed
    exact eq_of_perform_eq_error failed
  · intro line failed
    exact handleLine_of_not_writes (writes_of_not_isOk failed)
  · intro line changed
    by_cases write : host.writes line = true
    · exact write
    · exact absurd (handleLine_of_not_writes (Bool.eq_false_iff.mpr write)) changed
  · intro lines line
    rw [handleLines_writesAmong]
  · intro marked keeps
    exact handleLines_staying keeps

end Host

end PromptBlocks
