/-!
Contract: the two languages of the grammar profiles and of rendered text, and the
shape shared by all closed lists of named values.

Owns:
- `Enumerated`: the values of a closed list in their declared order, each with an id;
- the locale codes and the reading of region-qualified language tags.

Does not own: the words of the vocabulary.
-/

namespace PromptBlocks

/-- A closed list of values, each with an id of its own. -/
class Enumerated (α : Type) where
  /-- Every value, in the declared order. -/
  all : List α
  /-- The text that names the value in records. -/
  id : α → String

def Enumerated.ofId? {α : Type} [Enumerated α] (text : String) : Option α :=
  (Enumerated.all : List α).find? fun value => Enumerated.id value == text

/-- The language of a grammar profile and of rendered text. -/
inductive Locale
  /-- Japanese: verb last, case particles. -/
  | ja
  /-- English: articles and prepositions. -/
  | en
  deriving DecidableEq, Repr

namespace Locale

instance : Inhabited Locale := ⟨.ja⟩

def code : Locale → String
  | .ja => "ja"
  | .en => "en"

instance : Enumerated Locale where
  all := [.ja, .en]
  id := code

/-- A language tag names the locale by the code before its first hyphen or underscore, in either
case of ASCII letters. -/
def ofTag? (tag : String) : Option Locale :=
  let language := tag.toList.takeWhile fun c => c != '-' && c != '_'
  Enumerated.ofId? (String.ofList (language.map Char.toLower))

end Locale

end PromptBlocks
