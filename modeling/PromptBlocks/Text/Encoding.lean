/-!
Contract: texts as bytes in UTF-8.

Owns:
- the bytes of a text, and the text of bytes, if they are those of one;
- what bytes are shown as, also where they are those of no text.

Does not own: the order of encoded texts, and where their bytes may be cut.
-/

namespace PromptBlocks.Text

/-- The bytes of a text. -/
def encoding (text : List Char) : List UInt8 :=
  text.flatMap String.utf8EncodeChar

/-- The text of bytes, if they are those of one. -/
def ofBytes? (bytes : List UInt8) : Option String :=
  String.fromUTF8? (ByteArray.mk bytes.toArray)

/-- The character that bytes start with; it has four bytes at most. -/
def firstChar? (bytes : List UInt8) : Option Char :=
  (bytes.take 4).toByteArray.utf8DecodeChar? 0

/-- Where bytes start with no character, how many more than the first are shown together with it: those
that go on as a character does, up to where it breaks off. -/
def brokenBehind (bytes : List UInt8) : Nat :=
  let goesOn := fun front missing =>
    (firstChar? (bytes.take front ++ List.replicate missing 0x80)).isSome
  if goesOn 3 1 then 2
  else if goesOn 2 1 || goesOn 2 2 then 1
  else 0

/-- What bytes are shown as behind some of them that are shown already.  A broken character is shown as
one replacement character. -/
def shownFrom : Nat → List UInt8 → List Char
  | _, [] => []
  | shown + 1, _ :: rest => shownFrom shown rest
  | 0, byte :: rest =>
    match firstChar? (byte :: rest) with
    | some c => c :: shownFrom (c.utf8Size - 1) rest
    | none => '\ufffd' :: shownFrom (brokenBehind (byte :: rest)) rest

def shown (bytes : List UInt8) : String :=
  String.ofList (shownFrom 0 bytes)

end PromptBlocks.Text
