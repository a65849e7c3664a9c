import PromptBlocks.Edit.Planner
import PromptBlocks.Record.Grammar

/-!
Contract: plans and requests for plans as JSON.

Owns:
- the fields of steps and plans;
- requests, which a tag among their members tells apart.

Does not own: how a request is answered.
-/

namespace PromptBlocks

open Json (Document Items Members Fault)

instance : Wire StepOperation := Wire.named StepOperation

def Step.codec : RecordCodec Step Step :=
  RecordCodec.build Step.mk
    |>.required "operation" Step.operation
    |>.required "blockType" Step.block
    |>.required "anchorPosition" Step.anchor
    |>.optional "text" Step.text

instance : Wire Step := Step.codec.wire

def Plan.codec : RecordCodec Plan Plan :=
  RecordCodec.build Plan.mk
    |>.required "steps" Plan.steps

instance : Wire Plan := Plan.codec.wire

namespace PlanRequest

inductive Tag
  | fix | applyPattern | completePattern
  deriving DecidableEq, Repr

instance : Enumerated Tag where
  all := [.fix, .applyPattern, .completePattern]
  id
    | .fix => "autoFix"
    | .applyPattern => "applyPattern"
    | .completePattern => "completePattern"

def tagName : String :=
  "kind"

def fixCodec : RecordCodec Fix Fix :=
  RecordCodec.build (fun fix => fix) |>.required "autofix" (fun fix => fix)

def patternCodec : RecordCodec String String :=
  RecordCodec.build (fun id => id) |>.required "patternId" (fun id => id)

/-- Read a request from what stands beside its tag. -/
def readBehind (tag : Tag) (document : Document) : Except Fault PlanRequest :=
  match tag with
  | .fix => (fixCodec.read document).map .fix
  | .applyPattern => (patternCodec.read document).map .applyPattern
  | .completePattern => (patternCodec.read document).map .completePattern

/-- Read a tag, which is a name. -/
def readTag : Document → Except Fault Tag
  | .string (some name) => Wire.ofName name
  | _ => .error .malformed

/-- Read members in order: the tag among them, and the others set aside. -/
def splitTag : Option Tag → Members → Except Fault (Option Tag × Members)
  | tag, .closed => .ok (tag, .closed)
  | _, .broken => .error .malformed
  | _, .member none _ _ => .error .malformed
  | tag, .member (some key) value later =>
    if key == tagName then
      match tag with
      | some _ => .error (.duplicateField tagName)
      | none => do
        let found ← readTag value
        splitTag (some found) later
    else do
      let kept ← value.setAside
      let (found, others) ← splitTag tag later
      .ok (found, .member (some key) kept others)

/-- Read a request: an object with a tag anywhere among its members, or an array with the tag
first. -/
def read : Document → Except Fault PlanRequest
  | .object origin members =>
    if origin.isRefused then .error .malformed
    else do
      let (tag, others) ← splitTag none members
      match tag with
      | none => .error (.missingField tagName)
      | some found => readBehind found (.object .setAside others)
  | .array origin items =>
    if origin.isRefused then .error .malformed
    else
      match items with
      | .closed => .error (.missingField tagName)
      | .broken => .error .malformed
      | .item first later => do
        let tag ← readTag first
        let others ← later.setAside
        readBehind tag (.array .setAside others)
  | _ => .error .malformed

/-- The members of a request, its tag first. -/
def members (request : PlanRequest) : List (String × Json) :=
  let tagged := fun (tag : Tag) others => (tagName, Json.string (Enumerated.id tag)) :: others
  match request with
  | .fix wanted => tagged .fix (fixCodec.members wanted)
  | .applyPattern id => tagged .applyPattern (patternCodec.members id)
  | .completePattern id => tagged .completePattern (patternCodec.members id)

instance : Wire PlanRequest where
  write request := .object request.members
  read := read

end PlanRequest

end PromptBlocks
