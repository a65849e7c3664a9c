import PromptBlocks.Number.Shortest

/-!
Contract: JSON values.

Owns:
- numbers as the format's values tell them apart, and values;
- members in increasing order of keys, the last of equal keys kept;
- look-up of members.

Does not own: the spelling of a text, which values forget.
-/

namespace PromptBlocks

/-- A number: whole numbers that fit 64 bits, and doubles for all others. -/
inductive Number
  | natural (value : Nat)
  /-- A whole number below zero, given by its magnitude, at most two to the 63rd. -/
  | negative (magnitude : Nat)
  | double (value : Binary64)
  deriving DecidableEq, Repr

namespace Number

/-- The first whole number that does not fit 64 bits. -/
def naturalBound : Nat :=
  Nat.pow 2 64

/-- The greatest magnitude of a negative whole number. -/
def negativeBound : Nat :=
  Nat.pow 2 63

def toDouble? : Number → Option Binary64
  | .natural value => Binary64.ofQuotient? false value 1
  | .negative magnitude => Binary64.ofQuotient? true magnitude 1
  | .double value => some value

def text : Number → String
  | .natural value => value.repr
  | .negative magnitude => "-" ++ magnitude.repr
  | .double value => value.text

end Number

/-- A JSON value; an object keeps its members in order. -/
inductive Json
  | null
  | bool (value : Bool)
  | number (value : Number)
  | string (value : String)
  | array (items : List Json)
  | object (members : List (String × Json))
  deriving Repr, BEq

namespace Json

instance : Inhabited Json := ⟨.null⟩

def natural (value : Nat) : Json :=
  .number (.natural value)

/-- A text, or null where there is none. -/
def stringOrNull : Option String → Json
  | some text => .string text
  | none => .null

def find? (key : String) (members : List (String × Json)) : Option Json :=
  members.lookup key

def member? (key : String) : Json → Option Json
  | .object members => find? key members
  | _ => none

def string? : Json → Option String
  | .string text => some text
  | _ => none

/-- Put a member among members in increasing order of keys, in place of one with the same key. -/
def insertMember (key : String) (value : Json) : List (String × Json) → List (String × Json)
  | [] => [(key, value)]
  | (other, held) :: later =>
    if key < other then (key, value) :: (other, held) :: later
    else if key = other then (key, value) :: later
    else (other, held) :: insertMember key value later

/-- The members in increasing order of keys; of equal keys the last one stays. -/
def orderMembers (members : List (String × Json)) : List (String × Json) :=
  members.foldl (fun ordered (key, value) => insertMember key value ordered) []

mutual

/-- The value with the members of every object in increasing order of keys. -/
def ordered : Json → Json
  | .array items => .array (orderedItems items)
  | .object members => .object (orderMembers (orderedMembers members))
  | plain => plain

def orderedItems : List Json → List Json
  | [] => []
  | item :: later => ordered item :: orderedItems later

def orderedMembers : List (String × Json) → List (String × Json)
  | [] => []
  | (key, value) :: later => (key, ordered value) :: orderedMembers later

end

end Json

end PromptBlocks
