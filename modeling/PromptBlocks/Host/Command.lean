import PromptBlocks.Host.State
import PromptBlocks.Prompt
import PromptBlocks.Record.Edit
import PromptBlocks.Script

/-!
Contract: the commands of a host.

Owns:
- the commands with their arguments, and the resolution of the sequence that one refers to;
- the carrying out of a command: its outcome and the state it leaves, also where it fails;
- the errors of requests with their kinds and texts.

Does not own: how commands and arguments are written.
-/

namespace PromptBlocks

/-- What is wrong with the arguments of a command. -/
inductive ArgumentFault
  /-- They do not read as the command's arguments. -/
  | record (fault : Json.Fault)
  | noSequence
  | emptyChain
  | blankId
  deriving DecidableEq, Repr

def ArgumentFault.message : ArgumentFault → String
  | .record fault => fault.message
  | .noSequence => "expected one of `tokens`, `chains` or `dsl`"
  | .emptyChain => "macro chain is empty"
  | .blankId => "macro id must not be empty"

inductive CommandError
  /-- The catalog could not be loaded, for this reason. -/
  | catalogUnavailable (reason : String)
  | unknownCommand (name : String)
  | invalidRequest (fault : Json.Fault)
  | invalidArguments (fault : ArgumentFault)
  deriving DecidableEq, Repr

namespace CommandError

def kind : CommandError → String
  | .catalogUnavailable _ => "catalogUnavailable"
  | .unknownCommand _ => "unknownCommand"
  | .invalidRequest _ => "invalidRequest"
  | .invalidArguments _ => "invalidArguments"

def message : CommandError → String
  | .catalogUnavailable reason => "Pattern catalog unavailable: " ++ reason
  | .unknownCommand name => "Unknown command: " ++ name
  | .invalidRequest fault => "Invalid request: " ++ fault.message
  | .invalidArguments fault => "Invalid arguments: " ++ fault.message

end CommandError

/-- The sequence that a command refers to, in one of three forms; the first that is given counts. -/
structure SequenceSource where
  tokens : Option Sequence
  /-- Chain heads, in any JSON. -/
  chains : Option Json
  script : Option String
  /-- Which heads contribute; the settings say it otherwise. -/
  policy : Option HeadPolicy

/-- A command that changes nothing, with its arguments. -/
inductive Query
  | linearize (source : SequenceSource)
  | validate (source : SequenceSource) (locale display : Option Locale)
  | analyzePatterns (source : SequenceSource) (locale : Option Locale)
  | suggestPatterns (source : SequenceSource) (locale : Option Locale) (limit : Option Nat)
  | getPatterns (locale : Option Locale)
  | planFix (source : SequenceSource) (locale : Option Locale) (request : PlanRequest)
  | renderPrompt (source : SequenceSource) (locale : Option Locale)
  | generatePrompt (source : SequenceSource) (locale : Option Locale)
  | writeScript (source : SequenceSource) (locale : Option Locale)
  | readScript (text : String)
  | greet (name : String)
  | listChains

inductive Command
  | ask (query : Query)
  /-- Save the first chain in a value under an id. -/
  | saveChain (id : String) (chain : Json)
  | removeChain (id : String)

structure SavedChainInfo where
  id : String
  chain : BlockChain

namespace SavedChainInfo

/-- The value of the information: the id, the block type that refers to it, and the block count. -/
def toJson (info : SavedChainInfo) : Json :=
  .object
    [("id", .string info.id), ("blockType", .string (Shelf.referenceTo info.id)),
      ("blockCount", Json.natural info.chain.length)]

end SavedChainInfo

/-- The plan of a request together with the sequence it makes. -/
structure PlannedEdit where
  plan : Plan
  result : Sequence

namespace PlannedEdit

def toJson (edit : PlannedEdit) : Json :=
  .object [("plan", Wire.write edit.plan), ("tokens", Wire.write edit.result)]

end PlannedEdit

namespace Host

/-- The sequence that a source gives: tokens, or expanded and flattened chains, or script text. -/
def resolve (host : Host) (source : SequenceSource) : Except CommandError Sequence :=
  match source.tokens, source.chains, source.script with
  | some tokens, _, _ => .ok tokens
  | none, some chains, _ =>
    let heads := host.shelf.expand (BlockChain.headsOf chains)
    .ok (Sequence.ofChains heads (source.policy.getD host.settings.headPolicy))
  | none, none, some script => .ok (Script.read script)
  | none, none, none => .error (.invalidArguments .noSequence)

def requireCatalog (host : Host) (locale : Option Locale) : Except CommandError Catalog :=
  (host.catalogFor (host.localeOf locale)).mapError .catalogUnavailable

def matchesJson (found : List Match) : Json :=
  Wire.write (found.map Match.toRecord)

/-- The greeting of a name; a blank name is nobody's. -/
def greeting (name : String) : String :=
  let trimmed := String.ofList (Text.trim name.toList)
  "Hello, " ++ (if trimmed.isEmpty then "there" else trimmed) ++ "! Welcome to Promps."

/-- The plan of a request and what it makes.  A fix needs no catalog. -/
def plan (host : Host) (sequence : Sequence) (locale : Option Locale) (request : PlanRequest) :
    Except CommandError PlannedEdit := do
  let plan ←
    match request with
    | .fix fix => .ok (Plan.forFix sequence fix)
    | _ => (host.requireCatalog locale).map fun catalog => Plan.forRequest sequence catalog request
  .ok { plan, result := plan.apply sequence }

def answer (host : Host) : Query → Except CommandError Json
  | .linearize source => do
    let sequence ← host.resolve source
    .ok (Wire.write sequence)
  | .validate source locale display => do
    let sequence ← host.resolve source
    let grammar := host.localeOf locale
    .ok (Wire.write (Grammar.check sequence grammar (display.getD grammar)))
  | .analyzePatterns source locale => do
    let catalog ← host.requireCatalog locale
    let sequence ← host.resolve source
    .ok (matchesJson (catalog.rank sequence))
  | .suggestPatterns source locale limit => do
    let catalog ← host.requireCatalog locale
    let sequence ← host.resolve source
    .ok (matchesJson (catalog.suggest sequence (limit.getD host.settings.maxSuggestions)))
  | .getPatterns locale => do
    let catalog ← host.requireCatalog locale
    .ok catalog.toJson
  | .planFix source locale request => do
    let sequence ← host.resolve source
    let edit ← host.plan sequence locale request
    .ok edit.toJson
  | .renderPrompt source locale => do
    let sequence ← host.resolve source
    .ok (.string (Prompt.render sequence (host.localeOf locale)))
  | .generatePrompt source locale => do
    let sequence ← host.resolve source
    .ok (.string (Prompt.annotated sequence (host.localeOf locale)))
  | .writeScript source locale => do
    let sequence ← host.resolve source
    .ok (.string (Script.write sequence (host.localeOf locale)))
  | .readScript text => .ok (Wire.write (Script.read text))
  | .greet name => .ok (.string (greeting name))
  | .listChains =>
    .ok (.array (host.shelf.entries.map fun (id, chain) => SavedChainInfo.toJson { id, chain }))

end Host

/-- What a command does to a host: it ends with a value or with an error, and an error undoes no change
that was made before it. -/
abbrev HostAction (Value : Type) :=
  ExceptT CommandError (StateM Host) Value

namespace HostAction

/-- Change the saved chains; what they refuse is a fault of the arguments. -/
def onShelf {Value : Type} (change : ExceptT Shelf.Refusal (StateM Shelf) Value) :
    HostAction Value := fun host =>
  let (outcome, shelf) := change.run.run host.shelf
  (outcome.mapError fun | .blankId => .invalidArguments .blankId, { host with shelf })

/-- Save the first chain in a value under an id. -/
def saveChain (id : String) (value : Json) : HostAction SavedChainInfo := do
  match (BlockChain.headsOf value).head? with
  | none => throw (.invalidArguments .emptyChain)
  | some chain =>
    onShelf (Shelf.register id chain)
    return { id, chain }

def removeChain (id : String) : HostAction Bool :=
  onShelf (Shelf.withdraw id)

end HostAction

/-- Carry out a command.  Every result has a value, so that writing it cannot fail. -/
def Command.run : Command → HostAction Json
  | .ask query => do
    let host ← get
    host.answer query
  | .saveChain id chain => do
    let info ← HostAction.saveChain id chain
    return info.toJson
  | .removeChain id => do
    let present ← HostAction.removeChain id
    return .bool present

namespace Host

/-- Carry out an action: the state that it leaves, also when it fails, and its outcome. -/
def after {Value : Type} (host : Host) (action : HostAction Value) :
    Host × Except CommandError Value :=
  let (outcome, changed) := action.run.run host
  (changed, outcome)

def perform (host : Host) (command : Command) : Host × Except CommandError Json :=
  host.after command.run

end Host

end PromptBlocks
