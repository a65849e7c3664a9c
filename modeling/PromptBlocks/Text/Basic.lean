/-!
Contract: blank characters, the words between them, and marks in front of texts.

Owns:
- the Unicode White_Space property as a closed table;
- trimming, and cutting a text into its words;
- what is left of a text behind a mark, and the texts that it is left of.

Does not own: the marks, and the blanks of a data format, which are four ASCII characters.
-/

namespace PromptBlocks.Text

/-! ### Blanks -/

/-- The code points with the Unicode White_Space property. -/
def isBlankCode (code : Nat) : Bool :=
  (0x09 ≤ code && code ≤ 0x0d) || code == 0x20 || code == 0x85 || code == 0xa0 ||
    code == 0x1680 || (0x2000 ≤ code && code ≤ 0x200a) || code == 0x2028 || code == 0x2029 ||
    code == 0x202f || code == 0x205f || code == 0x3000

/-- A character is blank when it has the Unicode White_Space property. -/
def isBlank (c : Char) : Bool :=
  isBlankCode c.toNat

/-- The text without the blanks at its two ends. -/
def trim (text : List Char) : List Char :=
  ((text.dropWhile isBlank).reverse.dropWhile isBlank).reverse

/-- A text that holds blanks only, or nothing. -/
def isAllBlank (text : String) : Bool :=
  text.toList.all isBlank

/-- The word that the text starts with (empty where a blank comes first), and the words after it. -/
def firstWord : List Char → List Char × List (List Char)
  | [] => ([], [])
  | c :: rest =>
    let (word, later) := firstWord rest
    if isBlank c then ([], if word.isEmpty then later else word :: later)
    else (c :: word, later)

/-- The maximal runs of characters that are not blank, in order. -/
def words (text : List Char) : List (List Char) :=
  let (word, later) := firstWord text
  if word.isEmpty then later else word :: later

/-! ### Marks -/

/-- What is left of a text behind a mark; a text that does not start with the mark leaves nothing. -/
def behind? (mark text : String) : Option String :=
  let whole := text.toList
  if mark.toList.isPrefixOf whole then some (String.ofList (whole.drop mark.toList.length))
  else none

theorem behind?_append (mark rest : String) : behind? mark (mark ++ rest) = some rest := by
  have isMarked : mark.toList.isPrefixOf (mark.toList ++ rest.toList) = true :=
    List.isPrefixOf_iff_prefix.mpr (List.prefix_append _ _)
  simp only [behind?, String.toList_append, isMarked, if_true, List.drop_left,
    String.ofList_toList]

theorem behind?_eq_some_iff {mark text rest : String} :
    behind? mark text = some rest ↔ text = mark ++ rest := by
  constructor
  · intro left
    simp only [behind?, Option.ite_none_right_eq_some, Option.some.injEq,
      List.isPrefixOf_iff_prefix] at left
    obtain ⟨⟨others, split⟩, rfl⟩ := left
    apply String.toList_inj.mp
    rw [String.toList_append, String.toList_ofList, ← split, List.drop_left]
  · intro marked
    rw [marked, behind?_append]

end PromptBlocks.Text
