import PromptBlocks.Host.Serving

/-!
Contract: the command line.

Owns:
- the options of the program and the reading of its arguments;
- the exit codes;
- the host that an invocation starts, and a whole run over an input.

Does not own: the texts of usage messages, and files.
-/

namespace PromptBlocks

structure Options where
  settingsPath : Option FilePath
  /-- The language that overrides the default of the settings. -/
  locale : Option Locale

inductive Invocation
  | run (options : Options)
  | help
  | refused

namespace Invocation

inductive OptionName
  | settings | locale
  deriving DecidableEq

def shortName? : Char → Option OptionName
  | 'c' => some .settings
  | 'l' => some .locale
  | _ => none

def longName? (name : List Char) : Option OptionName :=
  if name == "config".toList then some .settings
  else if name == "locale".toList then some .locale
  else none

inductive Argument
  /-- An option; the value may stand in the same argument. -/
  | option (name : OptionName) (value : Option (List Char))
  | help
  | terminator
  | unknown

/-- The value behind an equals sign, if there is one. -/
def afterEquals? : List Char → Option (List Char)
  | '=' :: value => some value
  | _ => none

/-- Classify a long argument by what follows its two hyphens. -/
def classifyLong (text : List Char) : Argument :=
  let name := text.takeWhile fun c => c != '='
  let value := afterEquals? (text.dropWhile fun c => c != '=')
  match longName? name with
  | some option => .option option value
  | none => if name == "help".toList && value.isNone then .help else .unknown

/-- Classify a short argument by its letter and what follows: a value, behind an equals sign or
not. -/
def classifyShort (letter : Char) (rest : List Char) : Argument :=
  match shortName? letter with
  | some option =>
    .option option (if rest.isEmpty then none else some ((afterEquals? rest).getD rest))
  | none => if letter == 'h' then .help else .unknown

def classify (argument : String) : Argument :=
  match argument.toList with
  | ['-', '-'] => .terminator
  | '-' :: '-' :: text => classifyLong text
  | '-' :: letter :: rest => classifyShort letter rest
  | _ => .unknown

/-- An argument of its own that may be the value of an option: it does not look like one. -/
def isValue (argument : String) : Bool :=
  match argument.toList with
  | '-' :: _ :: _ => false
  | _ => true

/-- Set an option that is not set yet.  A path is not empty, and a language is known. -/
def setOption (options : Options) (name : OptionName) (value : String) : Option Options :=
  match name with
  | .settings =>
    if options.settingsPath.isSome || value.isEmpty then none
    else some { options with settingsPath := some value }
  | .locale =>
    if options.locale.isSome then none
    else (Locale.ofTag? value).map fun locale => { options with locale := some locale }

/-- Read arguments in order; the first that is not understood, or asks for help, decides. -/
def readFrom (options : Options) : List String → Invocation
  | [] => .run options
  | argument :: later =>
    match classify argument with
    | .unknown => .refused
    | .help => .help
    | .terminator => if later.isEmpty then .run options else .refused
    | .option name (some value) =>
      match setOption options name (String.ofList value) with
      | some grown => readFrom grown later
      | none => .refused
    | .option name none =>
      match later with
      | [] => .refused
      | value :: rest =>
        if isValue value then
          match setOption options name value with
          | some grown => readFrom grown rest
          | none => .refused
        else .refused

def ofArguments (arguments : List String) : Invocation :=
  readFrom { settingsPath := none, locale := none } arguments

end Invocation

inductive ExitCode
  | success
  /-- The settings cannot be loaded, or the input is no text. -/
  | failure
  | usage
  deriving DecidableEq, Repr

def ExitCode.number : ExitCode → Nat
  | .success => 0
  | .failure => 1
  | .usage => 2

namespace Options

def settings (options : Options) (files : Files) : Except Settings.LoadFault Settings := do
  let loaded ←
    match options.settingsPath with
    | some path => Settings.loadOrStandard files path
    | none => .ok Settings.standard
  .ok { loaded with defaultLocale := options.locale.getD loaded.defaultLocale }

def start (options : Options) (files : Files) : Except Settings.LoadFault Host :=
  (options.settings files).map (Host.start files)

end Options

/-- Why a program ends before it serves. -/
inductive Stop
  | help
  | usage
  | settings (fault : Settings.LoadFault)

def Stop.exitCode : Stop → ExitCode
  | .help => .success
  | .usage => .usage
  | .settings _ => .failure

def Serving.Outcome.exitCode (outcome : Serving.Outcome) : ExitCode :=
  if outcome.isComplete then .success else .failure

namespace Invocation

/-- The host that a program serves with, unless it ends before. -/
def start (invocation : Invocation) (files : Files) : Except Stop Host :=
  match invocation with
  | .refused => .error .usage
  | .help => .error .help
  | .run options => (options.start files).mapError .settings

/-- A whole run of the program: its exit code and its responses. -/
def runOn (invocation : Invocation) (files : Files) (input : List UInt8) :
    ExitCode × List Response :=
  match invocation.start files with
  | .error stop => (stop.exitCode, [])
  | .ok host =>
    let outcome := host.serveInput input
    (outcome.exitCode, outcome.responses)

end Invocation

end PromptBlocks
