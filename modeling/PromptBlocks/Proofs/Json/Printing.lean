import Mathlib.Data.List.Basic
import PromptBlocks.Json.Printer

/-!
Contract: a compact text stands on one line.

Owns:
- texts of one line, alone and joined;
- decimal texts, escaped texts and compact values, none of which holds a line feed.

Does not own: indented texts, which have lines.
-/

namespace PromptBlocks

/-- No character of the text starts a new line. -/
def OneLine (text : List Char) : Prop :=
  '\n' ∉ text

instance (text : List Char) : Decidable (OneLine text) :=
  inferInstanceAs (Decidable ( '\n' ∉ text))

namespace OneLine

variable {front back : List Char} {c : Char}

@[simp] theorem append_iff : OneLine (front ++ back) ↔ OneLine front ∧ OneLine back := by
  simp [OneLine]

@[simp] theorem cons_iff : OneLine (c :: back) ↔ c ≠ '\n' ∧ OneLine back := by
  simp [OneLine, eq_comm]

@[simp] theorem nil : OneLine [] :=
  List.not_mem_nil

theorem of_subset (oneLine : OneLine front) (among : back ⊆ front) : OneLine back :=
  fun member => oneLine (among member)

@[simp] theorem replicate (count : Nat) (c : Char) (notFeed : c ≠ '\n') :
    OneLine (List.replicate count c) := by
  simp [OneLine, notFeed.symm]

theorem toDigits (value : Nat) : OneLine (Nat.toDigits 10 value) := by
  intro member
  exact absurd (Nat.isDigit_of_mem_toDigits (by decide) (by decide) member) (by decide)

theorem intercalate {separator : List Char} (separates : OneLine separator)
    {pieces : List (List Char)} (each : ∀ piece ∈ pieces, OneLine piece) :
    OneLine (separator.intercalate pieces) := by
  induction pieces with
  | nil => simp
  | cons piece later inductionHypothesis =>
    obtain ⟨here, others⟩ := List.forall_mem_cons.mp each
    cases later with
    | nil => simpa using here
    | cons next later =>
      rw [List.intercalate_cons_cons]
      simp [here, separates, inductionHypothesis others]

end OneLine

/-! ### Numbers -/

/-- A point behind the first of several digits starts no new line. -/
theorem oneLine_mantissa : ∀ {digits : List Char}, OneLine digits →
    OneLine
      (match digits with
      | first :: second :: others => first :: '.' :: second :: others
      | short => short)
  | [], oneLine => oneLine
  | [_], oneLine => oneLine
  | _ :: _ :: _, oneLine => by simpa using oneLine

theorem Binary64.Decimal.oneLine_text (decimal : Binary64.Decimal) : OneLine decimal.text := by
  have digits := OneLine.toDigits decimal.digits
  have mantissa := oneLine_mantissa digits
  simp only [Binary64.Decimal.text]
  split_ifs
  · simp [digits]
  · simp [digits.of_subset (List.take_subset _ _), digits.of_subset (List.drop_subset _ _)]
  · simp [digits]
  all_goals
    exact OneLine.append_iff.mpr
      ⟨OneLine.append_iff.mpr ⟨mantissa, by decide⟩, OneLine.toDigits _⟩

theorem Binary64.oneLine_text (number : Binary64) : OneLine number.text.toList := by
  have magnitude := number.shortest.oneLine_text
  simp only [Binary64.text, String.toList_ofList]
  split_ifs <;> simp [magnitude]

theorem Number.oneLine_text (number : Number) : OneLine number.text.toList := by
  cases number with
  | natural value => simp [Number.text, OneLine.toDigits]
  | negative magnitude => simp [Number.text, OneLine.toDigits]
  | double value => exact value.oneLine_text

/-! ### Values -/

namespace Json

theorem oneLine_escape (c : Char) : OneLine (escape c) := by
  unfold escape
  split
  any_goals decide
  next notFeed _ _ =>
    have digit : ∀ value < 16, Nat.digitChar value ≠ '\n' := by decide
    split_ifs with isControl
    · simp [digit (c.toNat / 16) (by omega), digit (c.toNat % 16) (by omega)]
    · simpa using notFeed

theorem oneLine_quote (text : String) : OneLine (quote text).toList := by
  have body : OneLine (text.toList.flatMap escape) := by
    intro member
    obtain ⟨c, -, inEscape⟩ := List.mem_flatMap.mp member
    exact oneLine_escape c inEscape
  simp [quote, body]

mutual

/-- The compact text of a value stands on one line. -/
theorem oneLine_compact (value : Json) : OneLine value.compact.toList := by
  cases value with
  | null => simp [compact]
  | bool value => cases value <;> simp [compact]
  | number value => exact value.oneLine_text
  | string text => exact oneLine_quote text
  | array items =>
    have body : OneLine ([','].intercalate ((compactItems items).map String.toList)) :=
      OneLine.intercalate (by decide) (List.forall_mem_map.mpr (oneLine_compactItems items))
    simpa [compact] using body
  | object members =>
    have body : OneLine ([','].intercalate ((compactMembers members).map String.toList)) :=
      OneLine.intercalate (by decide) (List.forall_mem_map.mpr (oneLine_compactMembers members))
    simpa [compact] using body

theorem oneLine_compactItems (items : List Json) :
    ∀ piece ∈ compactItems items, OneLine piece.toList := by
  cases items with
  | nil => simp [compactItems]
  | cons item later =>
    simpa [compactItems] using ⟨oneLine_compact item, oneLine_compactItems later⟩

theorem oneLine_compactMembers (members : List (String × Json)) :
    ∀ piece ∈ compactMembers members, OneLine piece.toList := by
  cases members with
  | nil => simp [compactMembers]
  | cons member later =>
    simpa [compactMembers, oneLine_quote] using
      ⟨oneLine_compact member.2, oneLine_compactMembers later⟩

end

end Json

end PromptBlocks
