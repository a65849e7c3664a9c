import PromptBlocks.Host.Invocation

/-!
Contract: the program that serves requests on its standard streams.

Owns: the reading of files and standard input, and the printing of response lines.

Does not own: any decision about what is read or printed.
-/

namespace PromptBlocks

/-- The number by which the system says that a path is a directory. -/
def directoryCode : UInt32 :=
  21

def readContents (name : String) : IO (Except FileFault String) := do
  match ← (IO.FS.readBinFile name).toBaseIO with
  | .ok bytes =>
    match Text.ofBytes? bytes.toList with
    | some text => return .ok text
    | none => return .error (.other "stream did not contain valid UTF-8")
  | .error (.noFileOrDirectory _ _ _) => return .error .notFound
  | .error (.inappropriateType _ code _) =>
    return .error (if code == directoryCode then .isDirectory else .notDirectory)
  | .error fault => return .error (.other (toString fault))

/-- What was found at one path. -/
structure FileSighting where
  isThere : Bool
  contents : Except FileFault String

/-- Look at a path, which the system knows by its text. -/
def lookAt (path : FilePath) : IO FileSighting := do
  match path.text? with
  | none => return { isThere := false, contents := .error .notFound }
  | some name =>
    let isThere :=
      match ← (IO.FS.realPath name).toBaseIO with
      | .ok _ => true
      | .error _ => false
    return { isThere, contents := ← readContents name }

/-- The files that were looked at; no others are there. -/
def filesAmong (sightings : List (FilePath × FileSighting)) : Files where
  isThere path := (sightings.lookup path).any FileSighting.isThere
  read path := ((sightings.lookup path).map FileSighting.contents).getD (.error .notFound)

/-- Look at the settings that options name, and at the catalog that these name. -/
def lookAround (options : Options) : IO Files := do
  let mut sightings := []
  if let some path := options.settingsPath then
    sightings := [(path, ← lookAt path)]
  if let .ok settings := options.settings (filesAmong sightings) then
    if let some path := settings.catalogPath then
      sightings := (path, ← lookAt path) :: sightings
  return filesAmong sightings

/-- Read the bytes of one line with its line feed; no bytes at the end of the input. -/
partial def readLineBytes (input : IO.FS.Stream) (line : ByteArray) : IO ByteArray := do
  let next ← input.read 1
  if next.isEmpty then return line
  let grown := line ++ next
  if next.toList == [10] then return grown
  readLineBytes input grown

/-- Answer lines until the input ends or is no text. -/
partial def serveLines (host : Host) (input output : IO.FS.Stream) : IO ExitCode := do
  let bytes ← readLineBytes input ByteArray.empty
  let outcome := host.serveInput bytes.toList
  for response in outcome.responses do
    output.putStrLn response.line
    output.flush
  if bytes.isEmpty || !outcome.isComplete then return outcome.exitCode
  serveLines outcome.host input output

/-- What the program prints about its options. -/
def usage : String :=
  "Usage: promps [-c|--config <CONFIG>] [-l|--locale <LOCALE>]"

def report : Stop → IO Unit
  | .help => IO.println usage
  | .usage => do (← IO.getStderr).putStrLn usage
  | .settings fault => do
    (← IO.getStderr).putStrLn ("Failed to load configuration: " ++ fault.message)

end PromptBlocks

open PromptBlocks in
def main (arguments : List String) : IO UInt32 := do
  let invocation := Invocation.ofArguments arguments
  let files ←
    match invocation with
    | .run options => lookAround options
    | _ => pure (filesAmong [])
  match invocation.start files with
  | .error stop =>
    report stop
    return stop.exitCode.number.toUInt32
  | .ok host =>
    let code ← serveLines host (← IO.getStdin) (← IO.getStdout)
    return code.number.toUInt32
