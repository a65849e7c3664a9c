import PromptBlocks.Json.Value

/-!
Contract: the text of JSON values.

Owns:
- the escapes of strings;
- compact text on one line, and text indented by two blanks a level.

Does not own: the order of members, which is printed as it stands.
-/

namespace PromptBlocks.Json

/-- The escape of a character: the short ones, six characters for other controls, and every other
character as it is. -/
def escape (c : Char) : List Char :=
  match c with
  | '"' => ['\\', '"']
  | '\\' => ['\\', '\\']
  | '\x08' => ['\\', 'b']
  | '\x0c' => ['\\', 'f']
  | '\n' => ['\\', 'n']
  | '\r' => ['\\', 'r']
  | '\t' => ['\\', 't']
  | other =>
    if other.toNat < 0x20 then
      ['\\', 'u', '0', '0', Nat.digitChar (other.toNat / 16), Nat.digitChar (other.toNat % 16)]
    else [other]

def quote (text : String) : String :=
  String.ofList ('"' :: text.toList.flatMap escape ++ ['"'])

mutual

/-- The text of a value on one line, without blanks between its parts. -/
def compact : Json → String
  | .null => "null"
  | .bool true => "true"
  | .bool false => "false"
  | .number value => value.text
  | .string text => quote text
  | .array items => "[" ++ String.intercalate "," (compactItems items) ++ "]"
  | .object members => "\x7b" ++ String.intercalate "," (compactMembers members) ++ "\x7d"

def compactItems : List Json → List String
  | [] => []
  | item :: later => compact item :: compactItems later

def compactMembers : List (String × Json) → List String
  | [] => []
  | (key, value) :: later => (quote key ++ ":" ++ compact value) :: compactMembers later

end

/-- The blanks in front of a line at a level. -/
def indent (level : Nat) : String :=
  String.ofList (List.replicate (2 * level) ' ')

/-- Lines between brackets, one level further in; nothing between brackets takes no line. -/
def bracketed (opening closing : String) (level : Nat) (lines : List String) : String :=
  if lines.isEmpty then opening ++ closing
  else
    opening ++ "\n" ++ String.intercalate ",\n" (lines.map fun line => indent (level + 1) ++ line) ++
      "\n" ++ indent level ++ closing

mutual

/-- The text of a value with one line for every item and member. -/
def prettyAt (level : Nat) : Json → String
  | .array items => bracketed "[" "]" level (prettyItems (level + 1) items)
  | .object members => bracketed "\x7b" "\x7d" level (prettyMembers (level + 1) members)
  | plain => compact plain

def prettyItems (level : Nat) : List Json → List String
  | [] => []
  | item :: later => prettyAt level item :: prettyItems level later

def prettyMembers (level : Nat) : List (String × Json) → List String
  | [] => []
  | (key, value) :: later =>
    (quote key ++ ": " ++ prettyAt level value) :: prettyMembers level later

end

def pretty (value : Json) : String :=
  prettyAt 0 value

end PromptBlocks.Json
