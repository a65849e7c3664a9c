import PromptBlocks.Json.Reader
import PromptBlocks.Pattern.Match
import PromptBlocks.Record.Codec

/-!
Contract: templates, catalogs and matches as JSON.

Owns:
- the fields of slots, templates and matches;
- catalogs in JSON texts, and the faults of such texts.

Does not own: catalog files.
-/

namespace PromptBlocks

def Slot.codec : RecordCodec Slot Slot :=
  RecordCodec.build Slot.mk
    |>.required "blockType" Slot.block
    |>.required "label" Slot.label
    |>.required "isPlaceholder" Slot.isPlaceholder
    |>.optional "defaultValue" Slot.preset

instance : Wire Slot := Slot.codec.wire

def Template.codec : RecordCodec Template Template :=
  RecordCodec.build Template.mk
    |>.required "id" Template.id
    |>.required "name" Template.name
    |>.required "description" Template.description
    |>.required "structure" Template.outline
    |>.required "example" Template.sample
    |>.required "blocks" Template.slots

instance : Wire Template := Template.codec.wire

/-- A match as records carry it, its score as a double. -/
structure MatchRecord where
  templateId : String
  templateName : String
  score : Binary64
  missing : List String
  isComplete : Bool
  deriving DecidableEq, Repr

/-- The record of a match, its score rounded. -/
def Match.toRecord (found : Match) : MatchRecord :=
  { templateId := found.templateId
    templateName := found.templateName
    score := Binary64.ofRat found.score
    missing := found.missing
    isComplete := found.isComplete }

def MatchRecord.codec : RecordCodec MatchRecord MatchRecord :=
  RecordCodec.build MatchRecord.mk
    |>.required "patternId" MatchRecord.templateId
    |>.required "patternName" MatchRecord.templateName
    |>.required "matchScore" MatchRecord.score
    |>.required "missingElements" MatchRecord.missing
    |>.required "isComplete" MatchRecord.isComplete

instance : Wire MatchRecord := MatchRecord.codec.wire

inductive CatalogTextFault
  | text (fault : Json.Fault)
  | templates (fault : CatalogFault)
  deriving DecidableEq, Repr

def CatalogTextFault.message : CatalogTextFault → String
  | .text fault => "Serialization error: " ++ fault.message
  | .templates fault => fault.message

/-- The value of a catalog: the array of its templates. -/
def Catalog.toJson (catalog : Catalog) : Json :=
  Wire.write catalog.templates

def Catalog.ofRead (templates : Except Json.Fault (List Template)) :
    Except CatalogTextFault Catalog :=
  match templates with
  | .error fault => .error (.text fault)
  | .ok templates => (Catalog.ofTemplates templates).mapError .templates

def Catalog.ofText (text : String) : Except CatalogTextFault Catalog :=
  Catalog.ofRead (Json.readText Wire.read text)

end PromptBlocks
