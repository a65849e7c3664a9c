import PromptBlocks.Record.Wire

/-!
Contract: records as JSON objects.

Owns:
- codecs built field by field, which write a record and read it from an object or an array;
- the order of faults: members as they stand, then absent fields as they are declared;
- groups of fields that share one object.

Does not own: the records themselves.
-/

namespace PromptBlocks

open Json (Document Items Members Origin Fault)

/-- A codec that writes fields of `σ` and reads an `α` from them.  While the members of an object are
read in the order in which they stand, a draft holds what was found. -/
structure RecordCodec (σ α : Type) where
  Draft : Type
  start : Draft
  /-- How to read the value of a key, if the key is a field's. -/
  accept : String → Draft → Option (Document → Except Fault Draft)
  /-- The record of a draft; absent fields are faults or take their default. -/
  finish : Draft → Except Fault α
  /-- Read the fields from the first items; gives what is left. -/
  readFirst : Items → Except Fault (α × Items)
  members : σ → List (String × Json)

namespace RecordCodec

variable {σ τ α β : Type}

def build (value : α) : RecordCodec σ α where
  Draft := Unit
  start := ()
  accept _ _ := none
  finish _ := .ok value
  readFirst items := .ok (value, items)
  members _ := []

/-- Read a field's item; an absent one takes the default where there is one. -/
def readItem (read : Document → Except Fault α) (default : Option α) :
    Items → Except Fault (α × Items)
  | .item first later => (read first).map fun value => (value, later)
  | .closed =>
    match default with
    | some value => .ok (value, .closed)
    | none => .error .malformed
  | .broken => .error .malformed

def field (codec : RecordCodec σ (α → β)) (name : String) (read : Document → Except Fault α)
    (default : Option α) (written : σ → Option Json) : RecordCodec σ β where
  Draft := codec.Draft × Option α
  start := (codec.start, none)
  accept key draft :=
    if key == name then
      some fun document =>
        match draft.2 with
        | some _ => .error (.duplicateField name)
        | none => (read document).map fun value => (draft.1, some value)
    else
      (codec.accept key draft.1).map fun readOther document =>
        (readOther document).map fun others => (others, draft.2)
  finish draft := do
    let make ← codec.finish draft.1
    match draft.2.or default with
    | some value => .ok (make value)
    | none => .error (.missingField name)
  readFirst items := do
    let (make, left) ← codec.readFirst items
    let (value, rest) ← readItem read default left
    .ok (make value, rest)
  members record :=
    codec.members record ++ ((written record).map fun value => (name, value)).toList

def required [Wire α] (codec : RecordCodec σ (α → β)) (name : String) (get : σ → α) :
    RecordCodec σ β :=
  codec.field name Wire.read none fun record => some (Wire.write (get record))

/-- Add a field that is always written and may be absent when read. -/
def defaulted [Wire α] (codec : RecordCodec σ (α → β)) (name : String) (default : α)
    (get : σ → α) : RecordCodec σ β :=
  codec.field name Wire.read (some default) fun record => some (Wire.write (get record))

/-- Add a field that is written only when it has a value; null is no value. -/
def optional [Wire α] (codec : RecordCodec σ (Option α → β)) (name : String)
    (get : σ → Option α) : RecordCodec σ β :=
  codec.field name Wire.read (some none) fun record => (get record).map Wire.write

def write (codec : RecordCodec σ α) (record : σ) : Json :=
  .object (codec.members record)

/-- Read members from a draft on; keys of no field are skipped. -/
def readMembers (codec : RecordCodec σ α) : codec.Draft → Members → Except Fault α
  | draft, .closed => codec.finish draft
  | _, .broken => .error .malformed
  | _, .member none _ _ => .error .malformed
  | draft, .member (some key) value later =>
    match codec.accept key draft with
    | some readValue => do
      let grown ← readValue value
      codec.readMembers grown later
    | none => if value.isWhole then codec.readMembers draft later else .error .malformed

/-- Read a record from all items of an array. -/
def readArray (codec : RecordCodec σ α) (items : Items) : Except Fault α := do
  let (record, left) ← codec.readFirst items
  match left with
  | .closed => .ok record
  | _ => .error .malformed

/-- Read a record from an object, or from the array of its fields in the declared order. -/
def read (codec : RecordCodec σ α) : Document → Except Fault α
  | .object origin members =>
    if origin.isRefused then .error .malformed else codec.readMembers codec.start members
  | .array origin items =>
    if origin.isRefused then .error .malformed else codec.readArray items
  | _ => .error .malformed

/-- Read two records that share one object: the members are set aside while the first record is read,
and the second is read from them afterwards. -/
def readShared (outer : RecordCodec σ α) (inner : RecordCodec τ β) :
    Document → Except Fault (α × β)
  | .object origin members =>
    if origin.isRefused then .error .malformed
    else do
      let first ← outer.readMembers outer.start members
      let kept ← members.setAside
      let second ← inner.readMembers inner.start kept
      .ok (first, second)
  | _ => .error .malformed

/-- Records travel as their codecs write and read them. -/
abbrev wire (codec : RecordCodec α α) : Wire α where
  write := codec.write
  read := codec.read

end RecordCodec

end PromptBlocks
