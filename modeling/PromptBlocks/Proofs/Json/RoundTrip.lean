import PromptBlocks.Json.Reader
import PromptBlocks.Proofs.Json.Documents
import PromptBlocks.Proofs.Json.Spelling

/-!
Contract: printed values are read back as the documents that they spell.

Owns:
- the document that the text of a value spells, where containers nested too deep are refused;
- the reading of the lexemes of a value, alone and among others;
- how deep a value nests, and the values that nest no deeper than texts may;
- texts on one line and texts with a line for each part, read by any reader of documents.

Does not own: what a reader makes of the document.
-/

namespace PromptBlocks.Json

open Reading (complete close originAt itemsOf membersOf depthLimit)

/-! ### Documents of texts -/

mutual

/-- The document that the text of a value spells inside a number of containers. -/
def documentAt (outer : Nat) : Json → Document
  | .null => .null
  | .bool value => .bool value
  | .number value => .number (some value)
  | .string value => .string (some value)
  | .array items => .array (originAt outer) (itemsAt (outer + 1) items)
  | .object members => .object (originAt outer) (membersAt (outer + 1) members)

def itemsAt (outer : Nat) : List Json → Items
  | [] => .closed
  | item :: later => .item (documentAt outer item) (itemsAt outer later)

def membersAt (outer : Nat) : List (String × Json) → Members
  | [] => .closed
  | (key, value) :: later => .member (some key) (documentAt outer value) (membersAt outer later)

end

mutual

/-- How many containers stand inside each other in a value. -/
def nesting : Json → Nat
  | .array items => itemsNesting items + 1
  | .object members => membersNesting members + 1
  | _ => 0

def itemsNesting : List Json → Nat
  | [] => 0
  | item :: later => max (nesting item) (itemsNesting later)

def membersNesting : List (String × Json) → Nat
  | [] => 0
  | (_, value) :: later => max (nesting value) (membersNesting later)

end

theorem originAt_of_lt {outer : Nat} (room : outer < depthLimit) : originAt outer = .text false :=
  congrArg Origin.text (decide_eq_false (Nat.not_le.mpr room))

mutual

/-- Containers that nest no deeper than texts may are all taken. -/
theorem documentAt_eq {outer : Nat} (value : Json) (room : outer + nesting value ≤ depthLimit) :
    documentAt outer value = documentIn (.text false) value := by
  cases value with
  | array items =>
    rw [nesting] at room
    rw [documentAt, documentIn, originAt_of_lt (by omega), itemsAt_eq items (by omega)]
  | object members =>
    rw [nesting] at room
    rw [documentAt, documentIn, originAt_of_lt (by omega), membersAt_eq members (by omega)]
  | _ => rfl

theorem itemsAt_eq {outer : Nat} (items : List Json)
    (room : outer + itemsNesting items ≤ depthLimit) :
    itemsAt outer items = itemsIn (.text false) items := by
  cases items with
  | nil => rfl
  | cons item later =>
    rw [itemsNesting] at room
    rw [itemsAt, itemsIn, documentAt_eq item (by omega), itemsAt_eq later (by omega)]

theorem membersAt_eq {outer : Nat} (members : List (String × Json))
    (room : outer + membersNesting members ≤ depthLimit) :
    membersAt outer members = membersIn (.text false) members := by
  cases members with
  | nil => rfl
  | cons member later =>
    obtain ⟨key, value⟩ := member
    rw [membersNesting] at room
    rw [membersAt, membersIn, documentAt_eq value (by omega), membersAt_eq later (by omega)]

end

/-! ### The reading of lexemes -/

/-- Where a reading gets with the lexemes behind some progress. -/
def Progress.follow (progress : Progress) (later : List Lexeme) : Document × Bool :=
  match progress with
  | .more reading => reading.run later
  | .done document => (document, later.isEmpty)
  | .stopped => (.broken, false)

section Reading

variable {reading : Reading} {lexeme : Lexeme} {part : Document} {enclosing : List OpenContainer}

theorem run_cons_of_complete (stepped : reading.step lexeme = complete part enclosing)
    (later : List Lexeme) :
    reading.run (lexeme :: later) = (complete part enclosing).follow later := by
  rw [Reading.run, stepped]
  cases enclosing with
  | nil => rfl
  | cons container outer => cases container <;> rfl

/-- A value may stand where a reading expects this. -/
def TakesValue (expected : Expected) : Prop :=
  expected = .value ∨ expected = .itemOrClose

/-- A key may stand where a reading expects this. -/
def TakesKey (expected : Expected) : Prop :=
  expected = .key ∨ expected = .keyOrClose

theorem step_of_takesValue {expected : Expected} (takes : TakesValue expected)
    (notClose : lexeme ≠ .closeArray) :
    Reading.step { enclosing, expected } lexeme = Reading.beginValue enclosing lexeme := by
  rcases takes with rfl | rfl
  · rfl
  · cases lexeme with
    | closeArray => exact absurd rfl notClose
    | _ => rfl

theorem run_of_beginValue {expected : Expected} (takes : TakesValue expected)
    (notClose : lexeme ≠ .closeArray)
    (begun : Reading.beginValue enclosing lexeme = complete part enclosing) (later : List Lexeme) :
    Reading.run { enclosing, expected } (lexeme :: later) =
      (complete part enclosing).follow later :=
  run_cons_of_complete ((step_of_takesValue takes notClose).trans begun) later

theorem run_openArray {expected : Expected} (takes : TakesValue expected) (later : List Lexeme) :
    Reading.run { enclosing, expected } (.openArray :: later) =
      Reading.run { enclosing := .array [] :: enclosing, expected := .itemOrClose } later := by
  rw [Reading.run, step_of_takesValue takes Lexeme.noConfusion]
  rfl

theorem run_openObject {expected : Expected} (takes : TakesValue expected) (later : List Lexeme) :
    Reading.run { enclosing, expected } (.openObject :: later) =
      Reading.run { enclosing := .object [] none :: enclosing, expected := .keyOrClose } later := by
  rw [Reading.run, step_of_takesValue takes Lexeme.noConfusion]
  rfl

theorem run_member {expected : Expected} (takes : TakesKey expected)
    (members : List (Option String × Document)) (key : String) (later : List Lexeme) :
    Reading.run { enclosing := .object members none :: enclosing, expected }
        (.string (some key) :: .colon :: later) =
      Reading.run
        { enclosing := .object members (some (some key)) :: enclosing, expected := .value }
        later := by
  rcases takes with rfl | rfl <;> rfl

end Reading

mutual

/-- The lexemes of a value make up its document, wherever a value may stand. -/
theorem run_lexemes (value : Json) (enclosing : List OpenContainer) {expected : Expected}
    (takes : TakesValue expected) (later : List Lexeme) :
    Reading.run { enclosing, expected } (value.lexemes ++ later) =
      (complete (documentAt enclosing.length value) enclosing).follow later := by
  cases value with
  | null => exact run_of_beginValue takes Lexeme.noConfusion rfl later
  | bool value => exact run_of_beginValue takes Lexeme.noConfusion rfl later
  | number number => exact run_of_beginValue takes Lexeme.noConfusion rfl later
  | string text => exact run_of_beginValue takes Lexeme.noConfusion rfl later
  | array items =>
    rw [lexemes, List.cons_append, List.append_assoc, run_openArray takes]
    cases items with
    | nil => exact run_cons_of_complete rfl later
    | cons item others => exact run_items (item :: others) (by simp) [] enclosing (.inr rfl) later
  | object members =>
    rw [lexemes, List.cons_append, List.append_assoc, run_openObject takes]
    cases members with
    | nil => exact run_cons_of_complete rfl later
    | cons member others =>
      exact run_members (member :: others) (by simp) [] enclosing (.inr rfl) later

/-- The lexemes of items, behind those that are read, make up an array with them all. -/
theorem run_items (items : List Json) (someItems : items ≠ []) (read : List Document)
    (enclosing : List OpenContainer) {expected : Expected} (takes : TakesValue expected)
    (later : List Lexeme) :
    Reading.run { enclosing := .array read :: enclosing, expected }
        ([.comma].intercalate (itemLexemes items) ++ ([.closeArray] ++ later)) =
      (complete (.array (originAt enclosing.length)
        (itemsOf (itemsAt (enclosing.length + 1) items) read)) enclosing).follow later := by
  match items with
  | [] => exact absurd rfl someItems
  | [item] =>
    rw [itemLexemes, itemLexemes, List.intercalate_singleton, run_lexemes item _ takes]
    exact run_cons_of_complete rfl later
  | item :: next :: others =>
    rw [itemLexemes, itemLexemes, List.intercalate_cons_cons, List.append_assoc,
      List.append_assoc, run_lexemes item _ takes]
    exact run_items (next :: others) (by simp)
      (documentAt (enclosing.length + 1) item :: read) enclosing (.inl rfl) later

/-- The lexemes of members, behind those that are read, make up an object with them all. -/
theorem run_members (members : List (String × Json)) (someMembers : members ≠ [])
    (read : List (Option String × Document)) (enclosing : List OpenContainer) {expected : Expected}
    (takes : TakesKey expected) (later : List Lexeme) :
    Reading.run { enclosing := .object read none :: enclosing, expected }
        ([.comma].intercalate (memberLexemes members) ++ ([.closeObject] ++ later)) =
      (complete (.object (originAt enclosing.length)
        (membersOf (membersAt (enclosing.length + 1) members) read)) enclosing).follow later := by
  match members with
  | [] => exact absurd rfl someMembers
  | [(key, value)] =>
    rw [memberLexemes, memberLexemes, List.intercalate_singleton, List.cons_append,
      List.cons_append, run_member takes, run_lexemes value _ (.inl rfl)]
    exact run_cons_of_complete rfl later
  | (key, value) :: next :: others =>
    rw [memberLexemes, memberLexemes, List.intercalate_cons_cons, List.append_assoc,
      List.append_assoc, List.cons_append, List.cons_append, run_member takes,
      run_lexemes value _ (.inl rfl)]
    exact run_members (next :: others) (by simp)
      ((some key, documentAt (enclosing.length + 1) value) :: read) enclosing (.inl rfl) later

end

/-- The lexemes of a value are read to their end. -/
theorem run_start (value : Json) : Reading.start.run value.lexemes = (documentAt 0 value, true) := by
  have whole := run_lexemes value [] (.inl rfl) []
  rw [List.append_nil] at whole
  exact whole

/-! ### Whole texts -/

section Texts

variable {α : Type} (read : Document → Except Fault α) {value : Json}

theorem readText_of_listOf {text : String} (spelled : Lexeme.listOf text = value.lexemes) :
    readText read text = read (documentAt 0 value) := by
  simp only [readText, spelled, run_start]
  show (read (documentAt 0 value)).bind (fun result => .ok result) = _
  cases read (documentAt 0 value) <;> rfl

theorem readText_compact (fits : value.fitsWords = true) :
    readText read value.compact = read (documentAt 0 value) :=
  readText_of_listOf read (listOf_compact fits)

theorem readText_pretty (fits : value.fitsWords = true) :
    readText read value.pretty = read (documentAt 0 value) :=
  readText_of_listOf read (listOf_pretty fits)

end Texts

end PromptBlocks.Json
