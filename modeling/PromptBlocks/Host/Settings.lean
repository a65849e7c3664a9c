import PromptBlocks.Host.Files
import PromptBlocks.Json.Printer
import PromptBlocks.Json.Reader
import PromptBlocks.Record.Chain
import PromptBlocks.Record.Codec

/-!
Contract: the settings of a host.

Owns:
- settings, their defaults and their fields;
- the reading of a settings file, which makes the path of its catalog one from the root;
- the text of a settings file, and the saving of one.

Does not own: the catalog that the settings name.
-/

namespace PromptBlocks

/-- A path travels as the text that spells it.  One that no text spells is shown instead; settings with
such a path are never saved. -/
instance : Wire FilePath where
  write path := .string path.display
  read document := (Wire.read document : Except Json.Fault String).map FilePath.ofText

structure Settings where
  /-- The language of requests that name none. -/
  defaultLocale : Locale
  /-- Which chain heads contribute tokens when a request does not say. -/
  headPolicy : HeadPolicy
  /-- How many suggestions are made when a request does not say. -/
  maxSuggestions : Nat
  /-- The file of a catalog that replaces the built-in one. -/
  catalogPath : Option FilePath
  deriving DecidableEq, Repr

namespace Settings

def standard : Settings :=
  { defaultLocale := .ja, headPolicy := .allTopBlocks, maxSuggestions := 3, catalogPath := none }

/-- The fields of settings; an absent one is as in the standard settings. -/
def codec : RecordCodec Settings Settings :=
  RecordCodec.build Settings.mk
    |>.defaulted "defaultLocale" standard.defaultLocale Settings.defaultLocale
    |>.defaulted "linearizePolicy" standard.headPolicy Settings.headPolicy
    |>.defaulted "maxSuggestions" standard.maxSuggestions Settings.maxSuggestions
    |>.optional "patternCatalog" Settings.catalogPath

instance : Wire Settings := codec.wire

inductive LoadFault
  | file (fault : FileFault)
  | text (fault : Json.Fault)
  deriving DecidableEq, Repr

def LoadFault.message : LoadFault → String
  | .file fault => "IO error: " ++ fault.message
  | .text fault => "Failed to parse config: " ++ fault.message

/-! ### Loading -/

/-- The settings as they are meant in a file at a path: a relative catalog lies in the directory of
that file. -/
def locatedAt (settings : Settings) (path : FilePath) : Settings :=
  match settings.catalogPath, path.directory? with
  | some catalog, some directory =>
    { settings with catalogPath := some (directory.within catalog) }
  | _, _ => settings

/-- The settings in the text of a file at a path. -/
def ofText (path : FilePath) (text : String) : Except Json.Fault Settings :=
  (Json.readText Wire.read text).map fun settings => locatedAt settings path

def load (files : Files) (path : FilePath) : Except LoadFault Settings :=
  match files.read path with
  | .error fault => .error (.file fault)
  | .ok text => (ofText path text).mapError .text

/-- Load a settings file; where nothing is, the standard settings hold. -/
def loadOrStandard (files : Files) (path : FilePath) : Except LoadFault Settings :=
  if files.isThere path then load files path else .ok standard

/-! ### Saving -/

inductive SaveFault
  | file (fault : FileFault)
  /-- The path of the catalog is no text. -/
  | unspelled
  deriving DecidableEq, Repr

def SaveFault.message : SaveFault → String
  | .file fault => "IO error: " ++ fault.message
  | .unspelled => "Failed to serialize config: path contains invalid UTF-8 characters"

def text (settings : Settings) : String :=
  (Wire.write settings).pretty

/-- The path of the catalog, if there is one, is a text. -/
def isSpelled (settings : Settings) : Bool :=
  settings.catalogPath.all fun path => path.text?.isSome

/-- Save settings to a file.  Its directory is made first, also where the settings have no text. -/
def save {State : Type} (system : FileSystem State) (settings : Settings) (path : FilePath) :
    ExceptT SaveFault (StateM State) Unit := do
  (system.makeRoom path).adapt .file
  if !settings.isSpelled then throw .unspelled
  (system.write path settings.text).adapt .file

end Settings

end PromptBlocks
