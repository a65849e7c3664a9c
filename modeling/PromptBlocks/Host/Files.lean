import PromptBlocks.Text.Encoding

/-!
Contract: file paths, and files as a program meets them.

Owns:
- paths, which are bytes: their parts, the directory of one, and the path of one within a directory;
- the faults of files with their texts;
- what a program can see of files, and the steps by which it writes one.

Does not own: any file.
-/

namespace PromptBlocks

/-! ### Paths -/

/-- A file path.  Its parts are divided by slashes, and need not be text. -/
structure FilePath where
  bytes : List UInt8
  deriving DecidableEq, Repr

namespace FilePath

def slash : UInt8 :=
  0x2f

def dot : UInt8 :=
  0x2e

def ofText (text : String) : FilePath :=
  { bytes := Text.encoding text.toList }

instance : Coe String FilePath :=
  ⟨ofText⟩

/-- The text that spells a path, if one does. -/
def text? (path : FilePath) : Option String :=
  Text.ofBytes? path.bytes

/-- What a path is shown as in messages. -/
def display (path : FilePath) : String :=
  Text.shown path.bytes

def isAbsolute (path : FilePath) : Bool :=
  path.bytes.head? == some slash

def parts : List UInt8 → List (List UInt8)
  | [] => [[]]
  | byte :: rest =>
    if byte == slash then [] :: parts rest
    else
      match parts rest with
      | [] => [[byte]]
      | part :: later => (byte :: part) :: later

/-- A part that names nothing: it is empty, or the directory itself. -/
def isIdle (part : List UInt8) : Bool :=
  part.isEmpty || part == [dot]

/-- The parts without the idle ones at the end. -/
def dropIdle (names : List (List UInt8)) : List (List UInt8) :=
  (names.reverse.dropWhile isIdle).reverse

def ofParts (names : List (List UInt8)) : FilePath :=
  { bytes := List.intercalate [slash] names }

/-- The directory of an absolute path below the root. -/
def directoryBelowRoot? (names : List (List UInt8)) : Option FilePath :=
  match dropIdle names with
  | [] => none
  | below =>
    match dropIdle below.dropLast with
    | [] => some { bytes := [slash] }
    | kept => some (ofParts ([] :: kept))

/-- The directory of a relative path; a leading part for the directory itself counts. -/
def directoryOfRelative? (names : List (List UInt8)) : Option FilePath :=
  let start := names.takeWhile (· == [dot]) |>.take 1
  let rest := dropIdle (names.drop start.length)
  if rest.isEmpty then if start.isEmpty then none else some { bytes := [] }
  else some (ofParts (start ++ dropIdle rest.dropLast))

/-- The directory that a path lies in; the root and the empty path lie in none. -/
def directory? (path : FilePath) : Option FilePath :=
  match parts path.bytes with
  | [] => none
  | first :: later =>
    if path.isAbsolute then directoryBelowRoot? later else directoryOfRelative? (first :: later)

/-- The path of a relative path within a directory: a slash between them, unless the directory is
empty or ends with one.  An absolute path stays as it is. -/
def within (directory path : FilePath) : FilePath :=
  if path.isAbsolute then path
  else if directory.bytes.isEmpty || directory.bytes.getLast? == some slash then
    { bytes := directory.bytes ++ path.bytes }
  else { bytes := directory.bytes ++ slash :: path.bytes }

end FilePath

/-! ### Faults -/

inductive FileFault
  | notFound
  | isDirectory
  /-- A part of the path in front of the last names a file. -/
  | notDirectory
  /-- Anything else, in the system's words. -/
  | other (description : String)
  deriving DecidableEq, Repr

namespace FileFault

def message : FileFault → String
  | .notFound => "No such file or directory (os error 2)"
  | .isDirectory => "Is a directory (os error 21)"
  | .notDirectory => "Not a directory (os error 20)"
  | .other description => description

/-- The fault says that nothing is there. -/
def isAbsence : FileFault → Bool
  | .notFound => true
  | .notDirectory => true
  | _ => false

end FileFault

/-! ### Files -/

/-- What a program can see of files. -/
structure Files where
  /-- Something is found at the path, whether or not it can be read. -/
  isThere : FilePath → Bool
  /-- The text of the file at a path. -/
  read : FilePath → Except FileFault String

/-- The texts of files, by the texts of their paths. -/
abbrev FileReader :=
  String → Except FileFault String

/-- The files that a reader finds.  A path is there unless the reader says that nothing is. -/
def FileReader.files (reader : FileReader) : Files :=
  let read := fun path : FilePath => (path.text?.map reader).getD (.error .notFound)
  { read
    isThere := fun path =>
      match read path with
      | .ok _ => true
      | .error fault => !fault.isAbsence }

instance : Coe FileReader Files :=
  ⟨FileReader.files⟩

/-- A system of files in some state, with the steps that change it. -/
structure FileSystem (State : Type) where
  files : State → Files
  /-- Make the directory at a path, and those that it lies in, where they are not there. -/
  makeDirectory : FilePath → ExceptT FileFault (StateM State) Unit
  write : FilePath → String → ExceptT FileFault (StateM State) Unit

namespace FileSystem

variable {State : Type} (system : FileSystem State)

/-- Make the directory that a path lies in. -/
def makeRoom (path : FilePath) : ExceptT FileFault (StateM State) Unit :=
  match path.directory? with
  | some directory => system.makeDirectory directory
  | none => pure ()

/-- Write a file, and first make the directory that it lies in. -/
def put (path : FilePath) (text : String) : ExceptT FileFault (StateM State) Unit := do
  system.makeRoom path
  system.write path text

end FileSystem

end PromptBlocks
