import PromptBlocks.Json.Value

/-!
Contract: what a JSON text spells, whole or broken off.

Owns:
- documents, which keep the order of members and repeated keys and say where reading stopped;
- the reading of a document as a value, and of a value as a document;
- the parts of a document that may be skipped, and those that are set aside for later.

Does not own: the reading of records.
-/

namespace PromptBlocks.Json

/-- Where the content of a container comes from. -/
inductive Origin
  /-- It is read from a text, where containers nested too deep are refused. -/
  | text (isTooDeep : Bool)
  | value
  /-- It was set aside while the record around it was read. -/
  | setAside
  deriving DecidableEq, Repr

def Origin.isRefused : Origin → Bool
  | .text isTooDeep => isTooDeep
  | .value => false
  | .setAside => false

mutual

inductive Document
  /-- Reading stopped before the end of this part. -/
  | broken
  | null
  | bool (value : Bool)
  /-- A numeral; its value is missing when it is too great for a double. -/
  | number (value : Option Number)
  /-- A string; its value is missing when an escape writes half of a surrogate pair. -/
  | string (value : Option String)
  | array (origin : Origin) (items : Items)
  | object (origin : Origin) (members : Members)

/-- The items of an array up to its end, or to where reading stopped. -/
inductive Items
  | closed
  | broken
  | item (first : Document) (later : Items)

/-- The members of an object up to its end, or to where reading stopped. -/
inductive Members
  | closed
  | broken
  | member (key : Option String) (value : Document) (later : Members)

end

instance : Inhabited Document := ⟨.broken⟩

/-- What is wrong with a document that should be a record.  Readers of JSON tell more than is kept here:
the line and column of a fault in a text, and the names that would have been accepted in place of an
unknown one. -/
inductive Fault
  | missingField (name : String)
  | duplicateField (name : String)
  /-- A text is none of the names of an enumeration. -/
  | unknownVariant (name : String)
  | unknownBlock (id : String)
  /-- Anything else: a text that is no JSON or nests too deep, a value of another type than its field, a
  whole number out of bounds, an array with too few or too many items.  Readers have their own words for
  each of these; which one it was is not kept. -/
  | malformed
  deriving DecidableEq, Repr

def Fault.message : Fault → String
  | .missingField name => "missing field `" ++ name ++ "`"
  | .duplicateField name => "duplicate field `" ++ name ++ "`"
  | .unknownVariant name => "unknown variant `" ++ name ++ "`"
  | .unknownBlock id => "Unknown block type: " ++ id
  | .malformed => "malformed"

mutual

/-- A document that may be skipped: it does not break off.  Numerals, surrogates and nesting are not
looked at. -/
def Document.isWhole : Document → Bool
  | .broken => false
  | .array _ items => items.isWhole
  | .object _ members => members.isWhole
  | _ => true

def Items.isWhole : Items → Bool
  | .closed => true
  | .broken => false
  | .item first later => first.isWhole && later.isWhole

def Members.isWhole : Members → Bool
  | .closed => true
  | .broken => false
  | .member _ value later => value.isWhole && later.isWhole

end

mutual

/-- The value of a document; of members with one key the last one counts. -/
def Document.value : Document → Except Fault Json
  | .broken => .error .malformed
  | .null => .ok .null
  | .bool value => .ok (.bool value)
  | .number (some value) => .ok (.number value)
  | .number none => .error .malformed
  | .string (some value) => .ok (.string value)
  | .string none => .error .malformed
  | .array origin items =>
    if origin.isRefused then .error .malformed else items.values.map .array
  | .object origin members =>
    if origin.isRefused then .error .malformed
    else members.values.map fun values => .object (orderMembers values)

def Items.values : Items → Except Fault (List Json)
  | .closed => .ok []
  | .broken => .error .malformed
  | .item first later => do
    let value ← first.value
    let others ← later.values
    pure (value :: others)

/-- The values of members, in order and with repeated keys. -/
def Members.values : Members → Except Fault (List (String × Json))
  | .closed => .ok []
  | .broken => .error .malformed
  | .member none _ _ => .error .malformed
  | .member (some key) value later => do
    let first ← value.value
    let others ← later.values
    pure ((key, first) :: others)

end

mutual

/-- The document with its content set aside; all of it must be readable as a value. -/
def Document.setAside : Document → Except Fault Document
  | .broken => .error .malformed
  | .number none => .error .malformed
  | .string none => .error .malformed
  | .array origin items =>
    if origin.isRefused then .error .malformed else items.setAside.map (.array .setAside)
  | .object origin members =>
    if origin.isRefused then .error .malformed else members.setAside.map (.object .setAside)
  | plain => .ok plain

def Items.setAside : Items → Except Fault Items
  | .closed => .ok .closed
  | .broken => .error .malformed
  | .item first later => do
    let kept ← first.setAside
    let others ← later.setAside
    pure (.item kept others)

/-- The members with their content set aside. -/
def Members.setAside : Members → Except Fault Members
  | .closed => .ok .closed
  | .broken => .error .malformed
  | .member none _ _ => .error .malformed
  | .member (some key) value later => do
    let kept ← value.setAside
    let others ← later.setAside
    pure (.member (some key) kept others)

end

mutual

def toDocument : Json → Document
  | .null => .null
  | .bool value => .bool value
  | .number value => .number (some value)
  | .string value => .string (some value)
  | .array items => .array .value (itemsToDocument items)
  | .object members => .object .value (membersToDocument members)

def itemsToDocument : List Json → Items
  | [] => .closed
  | item :: later => .item item.toDocument (itemsToDocument later)

def membersToDocument : List (String × Json) → Members
  | [] => .closed
  | (key, value) :: later => .member (some key) value.toDocument (membersToDocument later)

end

end PromptBlocks.Json
