import PromptBlocks.Json.Document
import PromptBlocks.Json.Lexeme

/-!
Contract: the reading of JSON texts.

Owns:
- the machine that turns lexemes into a document, with the open containers innermost first;
- documents of whole texts, and the values of texts.

Does not own: lexemes, and what a document means.
-/

namespace PromptBlocks.Json

/-- A container whose end is not read yet, with its content last first. -/
inductive OpenContainer
  | array (items : List Document)
  /-- The key is set while its value is awaited. -/
  | object (members : List (Option String × Document)) (key : Option (Option String))

inductive Expected
  | value
  | itemOrClose
  | keyOrClose
  | key
  | colon
  | commaOrClose

structure Reading where
  /-- The open containers, innermost first. -/
  enclosing : List OpenContainer
  expected : Expected

inductive Progress
  | more (reading : Reading)
  | done (document : Document)
  | stopped

namespace Reading

/-- Containers nested deeper than this are refused. -/
def depthLimit : Nat :=
  127

def start : Reading :=
  { enclosing := [], expected := .value }

def itemsOf (ending : Items) (items : List Document) : Items :=
  items.foldl (fun later first => .item first later) ending

/-- Members in order from members last first. -/
def membersOf (ending : Members) (members : List (Option String × Document)) : Members :=
  members.foldl (fun later (key, value) => .member key value later) ending

/-- The origin of a container inside a number of others. -/
def originAt (outer : Nat) : Origin :=
  .text (depthLimit ≤ outer)

/-- Put a complete part into the innermost open container. -/
def complete (part : Document) : List OpenContainer → Progress
  | [] => .done part
  | .array items :: outer =>
    .more { enclosing := .array (part :: items) :: outer, expected := .commaOrClose }
  | .object members key :: outer =>
    let grown := (key.getD none, part) :: members
    .more { enclosing := .object grown none :: outer, expected := .commaOrClose }

def close : List OpenContainer → Progress
  | [] => .stopped
  | .array items :: outer =>
    complete (.array (originAt outer.length) (itemsOf .closed items)) outer
  | .object members _ :: outer =>
    complete (.object (originAt outer.length) (membersOf .closed members)) outer

def beginValue (enclosing : List OpenContainer) : Lexeme → Progress
  | .openArray => .more { enclosing := .array [] :: enclosing, expected := .itemOrClose }
  | .openObject => .more { enclosing := .object [] none :: enclosing, expected := .keyOrClose }
  | .null => complete .null enclosing
  | .bool value => complete (.bool value) enclosing
  | .number value => complete (.number value) enclosing
  | .string value => complete (.string value) enclosing
  | _ => .stopped

def beginMember (enclosing : List OpenContainer) (key : Option String) : Progress :=
  match enclosing with
  | .object members _ :: outer =>
    .more { enclosing := .object members (some key) :: outer, expected := .colon }
  | _ => .stopped

def afterPart (enclosing : List OpenContainer) (lexeme : Lexeme) : Progress :=
  match enclosing, lexeme with
  | .array _ :: _, .comma => .more { enclosing, expected := .value }
  | .array _ :: _, .closeArray => close enclosing
  | .object _ _ :: _, .comma => .more { enclosing, expected := .key }
  | .object _ _ :: _, .closeObject => close enclosing
  | _, _ => .stopped

def step (reading : Reading) (lexeme : Lexeme) : Progress :=
  match reading.expected, lexeme with
  | .value, _ => beginValue reading.enclosing lexeme
  | .itemOrClose, .closeArray => close reading.enclosing
  | .itemOrClose, _ => beginValue reading.enclosing lexeme
  | .keyOrClose, .closeObject => close reading.enclosing
  | .keyOrClose, .string key => beginMember reading.enclosing key
  | .key, .string key => beginMember reading.enclosing key
  | .colon, .colon => .more { reading with expected := .value }
  | .commaOrClose, _ => afterPart reading.enclosing lexeme
  | _, _ => .stopped

/-- The document around a part that breaks off: each open container holds what it has read and then
breaks off too. -/
def breakOff (part : Document) : List OpenContainer → Document
  | [] => part
  | .array items :: outer =>
    breakOff (.array (originAt outer.length) (itemsOf (.item part .broken) items)) outer
  | .object members none :: outer =>
    breakOff (.object (originAt outer.length) (membersOf .broken members)) outer
  | .object members (some key) :: outer =>
    breakOff (.object (originAt outer.length) (membersOf (.member key part .broken) members)) outer

/-- The document of a text whose reading cannot go on. -/
def abandon (reading : Reading) : Document :=
  match reading.expected, reading.enclosing with
  | .value, enclosing => breakOff .broken enclosing
  | .colon, enclosing => breakOff .broken enclosing
  | _, [] => .broken
  | _, .array items :: outer =>
    breakOff (.array (originAt outer.length) (itemsOf .broken items)) outer
  | _, .object members _ :: outer =>
    breakOff (.object (originAt outer.length) (membersOf .broken members)) outer

/-- Read lexemes up to the end of the document; gives the document, and whether the text ends with
it. -/
def run (reading : Reading) : List Lexeme → Document × Bool
  | [] => (reading.abandon, false)
  | lexeme :: later =>
    match reading.step lexeme with
    | .more grown => run grown later
    | .done document => (document, later.isEmpty)
    | .stopped => (reading.abandon, false)

end Reading

/-- Read a text with a reader of documents: its faults come first, and then anything behind the
document is one. -/
def readText {α : Type} (read : Document → Except Fault α) (text : String) : Except Fault α := do
  let (document, isEnd) := Reading.start.run (Lexeme.listOf text)
  let result ← read document
  if isEnd then pure result else .error .malformed

def parse (text : String) : Except Fault Json :=
  readText Document.value text

end PromptBlocks.Json
