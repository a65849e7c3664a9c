import PromptBlocks.Host.Command

/-!
Contract: requests and responses.

Owns:
- requests and the names of the commands;
- the reading of the arguments of each command;
- responses, and the answer of a host to one line.

Does not own: what a command does.
-/

namespace PromptBlocks

open Json (Fault)

structure Request where
  /-- Any value, given back in the response. -/
  id : Json
  command : String
  /-- Any value; null stands for an empty object. -/
  args : Json

namespace Request

def codec : RecordCodec Request Request :=
  RecordCodec.build Request.mk
    |>.defaulted "id" Json.null Request.id
    |>.required "command" Request.command
    |>.defaulted "args" Json.null Request.args

end Request

namespace SequenceSource

def codec : RecordCodec SequenceSource SequenceSource :=
  RecordCodec.build SequenceSource.mk
    |>.optional "tokens" SequenceSource.tokens
    |>.optional "chains" SequenceSource.chains
    |>.optional "dsl" SequenceSource.script
    |>.optional "policy" SequenceSource.policy

end SequenceSource

inductive CommandName
  | linearize | validate | analyzePatterns | suggestPatterns | getPatterns | planFix
  | renderPrompt | generatePrompt | writeScript | readScript | greet
  | saveChain | removeChain | listChains
  deriving DecidableEq, Repr

instance : Enumerated CommandName where
  all := [.linearize, .validate, .analyzePatterns, .suggestPatterns, .getPatterns, .planFix,
    .renderPrompt, .generatePrompt, .writeScript, .readScript, .greet, .saveChain, .removeChain,
    .listChains]
  id
    | .linearize => "linearize"
    | .validate => "validate"
    | .analyzePatterns => "analyze_patterns"
    | .suggestPatterns => "suggest_patterns"
    | .getPatterns => "get_patterns"
    | .planFix => "plan_fix"
    | .renderPrompt => "render_prompt"
    | .generatePrompt => "generate_prompt"
    | .writeScript => "to_dsl"
    | .readScript => "parse_dsl"
    | .greet => "greet"
    | .saveChain => "register_macro"
    | .removeChain => "remove_macro"
    | .listChains => "list_macros"

namespace CommandName

def localeCodec : RecordCodec (Option Locale) (Option Locale) :=
  RecordCodec.build (fun locale => locale) |>.optional "locale" (fun locale => locale)

def textCodec (name : String) : RecordCodec String String :=
  RecordCodec.build (fun text => text) |>.required name (fun text => text)

def greetCodec : RecordCodec String String :=
  RecordCodec.build (fun name => name) |>.defaulted "name" "" (fun name => name)

/-- The arguments of a validation beside its source: grammar and display language. -/
def validateCodec :
    RecordCodec (Option Locale × Option Locale) (Option Locale × Option Locale) :=
  RecordCodec.build Prod.mk
    |>.optional "locale" Prod.fst
    |>.optional "displayLocale" Prod.snd

/-- The arguments of suggestions beside their source: language and limit. -/
def suggestCodec : RecordCodec (Option Locale × Option Nat) (Option Locale × Option Nat) :=
  RecordCodec.build Prod.mk
    |>.optional "locale" Prod.fst
    |>.optional "limit" Prod.snd

/-- The arguments of a plan beside its source: language and request. -/
def planCodec : RecordCodec (Option Locale × PlanRequest) (Option Locale × PlanRequest) :=
  RecordCodec.build Prod.mk
    |>.optional "locale" Prod.fst
    |>.required "request" Prod.snd

/-- The arguments that save a chain: its id, and any value that holds it. -/
def saveCodec : RecordCodec (String × Json) (String × Json) :=
  RecordCodec.build Prod.mk
    |>.required "id" Prod.fst
    |>.required "chain" Prod.snd

/-- Read arguments that share their object with a source. -/
def readWithSource {α : Type} (codec : RecordCodec α α) (args : Json) :
    Except Fault (α × SequenceSource) :=
  codec.readShared SequenceSource.codec args.toDocument

/-- The command with a name, its arguments read from a value. -/
def read (name : CommandName) (args : Json) : Except Fault Command :=
  match name with
  | .linearize => (SequenceSource.codec.read args.toDocument).map fun source =>
      .ask (.linearize source)
  | .validate => (readWithSource validateCodec args).map fun ((locale, display), source) =>
      .ask (.validate source locale display)
  | .analyzePatterns => (readWithSource localeCodec args).map fun (locale, source) =>
      .ask (.analyzePatterns source locale)
  | .suggestPatterns => (readWithSource suggestCodec args).map fun ((locale, limit), source) =>
      .ask (.suggestPatterns source locale limit)
  | .getPatterns => (localeCodec.read args.toDocument).map fun locale => .ask (.getPatterns locale)
  | .planFix => (readWithSource planCodec args).map fun ((locale, request), source) =>
      .ask (.planFix source locale request)
  | .renderPrompt => (readWithSource localeCodec args).map fun (locale, source) =>
      .ask (.renderPrompt source locale)
  | .generatePrompt => (readWithSource localeCodec args).map fun (locale, source) =>
      .ask (.generatePrompt source locale)
  | .writeScript => (readWithSource localeCodec args).map fun (locale, source) =>
      .ask (.writeScript source locale)
  | .readScript => ((textCodec "text").read args.toDocument).map fun text => .ask (.readScript text)
  | .greet => (greetCodec.read args.toDocument).map fun name => .ask (.greet name)
  | .saveChain => (saveCodec.read args.toDocument).map fun (id, chain) => .saveChain id chain
  | .removeChain => ((textCodec "id").read args.toDocument).map .removeChain
  | .listChains => .ok (.ask .listChains)

end CommandName

/-- An error as it is told. -/
structure ErrorBody where
  kind : String
  message : String
  deriving DecidableEq, Repr

namespace ErrorBody

def ofError (error : CommandError) : ErrorBody :=
  { kind := error.kind, message := error.message }

def toJson (body : ErrorBody) : Json :=
  .object [("kind", .string body.kind), ("message", .string body.message)]

end ErrorBody

/-- The answer to a request, under the id of the request. -/
structure Response where
  id : Json
  isOk : Bool
  result : Option Json
  error : Option ErrorBody

namespace Response

def success (id result : Json) : Response :=
  { id, isOk := true, result := some result, error := none }

def failure (id : Json) (error : CommandError) : Response :=
  { id, isOk := false, result := none, error := some (ErrorBody.ofError error) }

/-- The members of a response; a result and an error are left out where there is none. -/
def toJson (response : Response) : Json :=
  .object <|
    [("id", response.id), ("ok", .bool response.isOk)] ++
      (response.result.map fun result => ("result", result.ordered)).toList ++
      (response.error.map fun error => ("error", error.toJson)).toList

theorem toJson_success (id result : Json) :
    (success id result).toJson =
      .object [("id", id), ("ok", .bool true), ("result", result.ordered)] :=
  rfl

theorem toJson_failure (id : Json) (error : CommandError) :
    (failure id error).toJson =
      .object [("id", id), ("ok", .bool false), ("error", (ErrorBody.ofError error).toJson)] :=
  rfl

def line (response : Response) : String :=
  response.toJson.compact

end Response

namespace Host

def commandOf (request : Request) : Except CommandError Command :=
  match (Enumerated.ofId? request.command : Option CommandName) with
  | none => .error (.unknownCommand request.command)
  | some name =>
    let args :=
      match request.args with
      | .null => .object []
      | given => given
    (name.read args).mapError fun fault => .invalidArguments (.record fault)

end Host

/-- Carry out the command of a request.  One that does not read as a command changes nothing. -/
def Request.run (request : Request) : HostAction Json := do
  let command ← Host.commandOf request
  command.run

namespace Host

/-- Serve a request: the state that it leaves, and the response. -/
def serve (host : Host) (request : Request) : Host × Response :=
  let (changed, outcome) := host.after request.run
  match outcome with
  | .ok result => (changed, .success request.id result)
  | .error error => (changed, .failure request.id error)

/-- Serve the request on a line; a line that is no request has the null id. -/
def handleLine (host : Host) (line : String) : Host × Response :=
  match Json.readText Request.codec.read line with
  | .ok request => host.serve request
  | .error fault => (host, .failure .null (.invalidRequest fault))

end Host

end PromptBlocks
