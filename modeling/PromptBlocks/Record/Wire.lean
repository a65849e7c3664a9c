import PromptBlocks.Json.Document
import PromptBlocks.Vocabulary.Block

/-!
Contract: types whose values travel as JSON.

Owns:
- the class of such types, with the writing and the reading of their values;
- texts, flags, whole numbers, doubles, lists, free values and named values.

Does not own: records, whose fields are read one by one.
-/

namespace PromptBlocks

open Json (Document Items Members Origin Fault)

class Wire (α : Type) where
  write : α → Json
  read : Document → Except Fault α

namespace Wire

instance : Wire String where
  write := .string
  read
    | .string (some text) => .ok text
    | _ => .error .malformed

instance : Wire Bool where
  write := .bool
  read
    | .bool value => .ok value
    | _ => .error .malformed

instance : Wire Nat where
  write := Json.natural
  read
    | .number (some (.natural value)) => .ok value
    | _ => .error .malformed

def doubleOf? (number : Option Number) : Option Binary64 :=
  number.bind Number.toDouble?

instance : Wire Binary64 where
  write value := .number (.double value)
  read
    | .number number =>
      match doubleOf? number with
      | some value => .ok value
      | none => .error .malformed
    | _ => .error .malformed

/-- A free value: any JSON, with its members in order. -/
instance : Wire Json where
  write value := value
  read := Document.value

/-- Read items one by one up to the end of their array. -/
def readItems {α : Type} (read : Document → Except Fault α) : Items → Except Fault (List α)
  | .closed => .ok []
  | .broken => .error .malformed
  | .item first later => do
    let value ← read first
    let others ← readItems read later
    pure (value :: others)

instance {α : Type} [Wire α] : Wire (List α) where
  write values := .array (values.map write)
  read
    | .array origin items =>
      if origin.isRefused then .error .malformed else readItems read items
    | _ => .error .malformed

instance {α : Type} [Wire α] : Wire (Option α) where
  write
    | some value => write value
    | none => .null
  read
    | .null => .ok none
    | document => (read document).map some

def ofName {α : Type} [Enumerated α] (name : String) : Except Fault α :=
  match Enumerated.ofId? name with
  | some value => .ok value
  | none => .error (.unknownVariant name)

/-- Read a name that is written as an object with that one key.  In a text the key counts before
anything behind it; in held content the count of keys does.  The value is null or, in content that
was set aside, an empty object. -/
def readKeyed {α : Type} [Enumerated α] (origin : Origin) (members : Members) : Except Fault α :=
  match origin, members with
  | .text false, .member (some name) value later => do
    let named ← ofName name
    match value, later with
    | .null, .closed => pure named
    | _, _ => .error .malformed
  | .value, .member (some name) value .closed => do
    let named ← ofName name
    match value with
    | .null => pure named
    | _ => .error .malformed
  | .setAside, .member (some name) value .closed => do
    let named ← ofName name
    match value with
    | .null => pure named
    | .object _ .closed => pure named
    | _ => .error .malformed
  | _, _ => .error .malformed

def readNamed {α : Type} [Enumerated α] : Document → Except Fault α
  | .string (some name) => ofName name
  | .object origin members => readKeyed origin members
  | _ => .error .malformed

abbrev named (α : Type) [Enumerated α] : Wire α where
  write value := .string (Enumerated.id value)
  read := readNamed

instance : Wire Locale := named Locale

instance : Wire BlockKind := named BlockKind

/-- The block with an id; any other text is carried by the fault. -/
def ofBlockId (text : String) : Except Fault Block :=
  match Block.ofId? text with
  | some block => .ok block
  | none => .error (.unknownBlock text)

instance : Wire Block where
  write block := .string block.id
  read
    | .string (some text) => ofBlockId text
    | _ => .error .malformed

end Wire

end PromptBlocks
