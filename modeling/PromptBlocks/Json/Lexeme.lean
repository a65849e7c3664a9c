import PromptBlocks.Json.Numeral

/-!
Contract: the lexemes of JSON texts.

Owns:
- marks, literals, numerals and strings, each with its value where it has one;
- the scan of a text, which ends at the first character that no lexeme allows.

Does not own: which lexeme may follow which.
-/

namespace PromptBlocks.Json

inductive Lexeme
  | openArray | closeArray | openObject | closeObject | comma | colon
  | null
  | bool (value : Bool)
  /-- A numeral; its value is missing when it is too great for a double. -/
  | number (value : Option Number)
  /-- A string; its value is missing when an escape writes half of a surrogate pair. -/
  | string (value : Option String)
  | stray
  deriving Repr

/-- The inside of a string as far as it is scanned. -/
structure StringScan where
  /-- The characters so far, last first. -/
  scanned : List Char
  /-- No half of a surrogate pair stands alone. -/
  isSound : Bool
  /-- The first half of a surrogate pair that was just read. -/
  leading : Option Nat

namespace StringScan

def start : StringScan :=
  { scanned := [], isSound := true, leading := none }

/-- Put a character behind what is scanned; a waiting first half stands alone then. -/
def push (scan : StringScan) (c : Char) : StringScan :=
  { scanned := c :: scan.scanned, isSound := scan.isSound && scan.leading.isNone, leading := none }

/-- Put the unit of an escape behind what is scanned; two halves make one character. -/
def pushUnit (scan : StringScan) (unit : Nat) : StringScan :=
  let isLeading := 0xd800 ≤ unit && unit < 0xdc00
  let isTrailing := 0xdc00 ≤ unit && unit < 0xe000
  match scan.leading, isTrailing with
  | some first, true =>
    let code := 0x10000 + (first - 0xd800) * 0x400 + (unit - 0xdc00)
    { scan with scanned := Char.ofNat code :: scan.scanned, leading := none }
  | _, true => { scan with isSound := false, leading := none }
  | waiting, false =>
    if isLeading then
      { scan with isSound := scan.isSound && waiting.isNone, leading := some unit }
    else scan.push (Char.ofNat unit)

def close (scan : StringScan) : Lexeme :=
  .string <|
    if scan.isSound && scan.leading.isNone then some (String.ofList scan.scanned.reverse) else none

end StringScan

inductive ScanMode
  | between
  /-- A literal, last character first. -/
  | literal (scanned : List Char)
  /-- A numeral, last character first. -/
  | numeral (scanned : List Char)
  | string (scan : StringScan)
  | escape (scan : StringScan)
  /-- Inside an escape of four hexadecimal digits, of which some are left. -/
  | unit (scan : StringScan) (value : Nat) (left : Nat)

namespace Lexeme

def isSpace (c : Char) : Bool :=
  c == ' ' || c == '\n' || c == '\t' || c == '\r'

def isNumeralChar (c : Char) : Bool :=
  c.isDigit || c == '-' || c == '+' || c == '.' || c == 'e' || c == 'E'

def ofLiteral (text : List Char) : Lexeme :=
  if text == ['n', 'u', 'l', 'l'] then .null
  else if text == ['t', 'r', 'u', 'e'] then .bool true
  else if text == ['f', 'a', 'l', 's', 'e'] then .bool false
  else .stray

def ofNumeral (text : List Char) : Lexeme :=
  match Numeral.ofText? text with
  | some numeral => .number numeral.value?
  | none => .stray

def escaped? (c : Char) : Option Char :=
  match c with
  | '"' => some '"'
  | '\\' => some '\\'
  | '/' => some '/'
  | 'b' => some '\x08'
  | 'f' => some '\x0c'
  | 'n' => some '\n'
  | 'r' => some '\r'
  | 't' => some '\t'
  | _ => none

def hexDigit? (c : Char) : Option Nat :=
  if c.isDigit then some (c.toNat - '0'.toNat)
  else if 'a' ≤ c && c ≤ 'f' then some (c.toNat - 'a'.toNat + 10)
  else if 'A' ≤ c && c ≤ 'F' then some (c.toNat - 'A'.toNat + 10)
  else none

/-- What a character between lexemes begins: a whole lexeme, or a mode of the scan. -/
inductive Opening
  | space
  | whole (lexeme : Lexeme)
  | inside (mode : ScanMode)

def opening (c : Char) : Opening :=
  if isSpace c then .space
  else
    match c with
    | '[' => .whole .openArray
    | ']' => .whole .closeArray
    | '\x7b' => .whole .openObject
    | '\x7d' => .whole .closeObject
    | ',' => .whole .comma
    | ':' => .whole .colon
    | '"' => .inside (.string .start)
    | _ =>
      if c.isDigit || c == '-' then .inside (.numeral [c])
      else if c.isAlpha then .inside (.literal [c])
      else .whole .stray

/-- The lexemes from a character between lexemes on, where `scanRest` scans what follows it. -/
def Opening.resume (opening : Opening) (scanRest : ScanMode → List Lexeme) : List Lexeme :=
  match opening with
  | .space => scanRest .between
  | .whole .stray => [.stray]
  | .whole lexeme => lexeme :: scanRest .between
  | .inside mode => scanRest mode

/-- The lexemes of a text, scanned in a mode.  What follows a stray character may be anything, for
reading stops there. -/
def scan : ScanMode → List Char → List Lexeme
  | .between, [] => []
  | .literal scanned, [] => [ofLiteral scanned.reverse]
  | .numeral scanned, [] => [ofNumeral scanned.reverse]
  | .string _, [] => [.stray]
  | .escape _, [] => [.stray]
  | .unit _ _ _, [] => [.stray]
  | .between, c :: rest => (opening c).resume fun mode => scan mode rest
  | .literal scanned, c :: rest =>
    if c.isAlpha then scan (.literal (c :: scanned)) rest
    else
      ofLiteral scanned.reverse :: (opening c).resume fun mode => scan mode rest
  | .numeral scanned, c :: rest =>
    if isNumeralChar c then scan (.numeral (c :: scanned)) rest
    else
      ofNumeral scanned.reverse :: (opening c).resume fun mode => scan mode rest
  | .string inside, c :: rest =>
    if c == '"' then inside.close :: scan .between rest
    else if c == '\\' then scan (.escape inside) rest
    else if c.toNat < 0x20 then [.stray]
    else scan (.string (inside.push c)) rest
  | .escape inside, c :: rest =>
    if c == 'u' then scan (.unit inside 0 4) rest
    else
      match escaped? c with
      | some meant => scan (.string (inside.push meant)) rest
      | none => [.stray]
  | .unit inside value left, c :: rest =>
    match hexDigit? c with
    | none => [.stray]
    | some digit =>
      let grown := 16 * value + digit
      if left ≤ 1 then scan (.string (inside.pushUnit grown)) rest
      else scan (.unit inside grown (left - 1)) rest

def listOf (text : String) : List Lexeme :=
  scan .between text.toList

end Lexeme

end PromptBlocks.Json
