import Mathlib.Data.List.Forall2
import Mathlib.Data.List.TakeWhile
import PromptBlocks.Json.Lexeme
import PromptBlocks.Json.Printer

/-!
Contract: printed values are scanned as their lexemes.

Owns:
- the lexemes of a value, which say nothing of blanks;
- texts that spell lexemes, whatever follows and ends the last one;
- printed strings, literals and whole numbers of 64 bits;
- values on one line and values with a line for each part, which spell the same lexemes.

Does not own: what a reading makes of lexemes, and numbers that are not whole.
-/

namespace PromptBlocks.Json

open Lexeme (scan opening isSpace isNumeralChar ofNumeral ofLiteral hexDigit?)

/-! ### Lexemes of values -/

mutual

def lexemes : Json → List Lexeme
  | .null => [.null]
  | .bool value => [.bool value]
  | .number value => [.number (some value)]
  | .string text => [.string (some text)]
  | .array items => .openArray :: ([.comma].intercalate (itemLexemes items) ++ [.closeArray])
  | .object members =>
    .openObject :: ([.comma].intercalate (memberLexemes members) ++ [.closeObject])

def itemLexemes : List Json → List (List Lexeme)
  | [] => []
  | item :: later => lexemes item :: itemLexemes later

def memberLexemes : List (String × Json) → List (List Lexeme)
  | [] => []
  | (key, value) :: later =>
    (.string (some key) :: .colon :: lexemes value) :: memberLexemes later

end

mutual

/-- Every number in the value is a whole number of 64 bits. -/
def fitsWords : Json → Bool
  | .number (.natural value) => value < Number.naturalBound
  | .number _ => false
  | .array items => itemsFitWords items
  | .object members => membersFitWords members
  | _ => true

def itemsFitWords : List Json → Bool
  | [] => true
  | item :: later => fitsWords item && itemsFitWords later

def membersFitWords : List (String × Json) → Bool
  | [] => true
  | (_, value) :: later => fitsWords value && membersFitWords later

end

/-! ### Texts that spell lexemes -/

/-- A text that ends any lexeme in front of it: it is empty, or starts with a character that no numeral
and no literal goes on with. -/
def EndsLexeme : List Char → Prop
  | [] => True
  | c :: _ => isNumeralChar c = false ∧ c.isAlpha = false

/-- The text is scanned as the lexemes, whatever follows that ends the last of them. -/
def Spells (text : List Char) (lexemes : List Lexeme) : Prop :=
  ∀ rest, EndsLexeme rest → scan .between (text ++ rest) = lexemes ++ scan .between rest

theorem EndsLexeme.append {front back : List Char} (ends : EndsLexeme front)
    (behind : EndsLexeme back) : EndsLexeme (front ++ back) := by
  cases front with
  | nil => exact behind
  | cons c front => exact ends

section Spells

variable {text front back : List Char} {lexemes frontLexemes backLexemes : List Lexeme} {c : Char}

theorem spells_nil : Spells [] [] :=
  fun _ _ => rfl

theorem Spells.append (first : Spells front frontLexemes) (second : Spells back backLexemes)
    (ends : EndsLexeme back) : Spells (front ++ back) (frontLexemes ++ backLexemes) := by
  intro rest behind
  rw [List.append_assoc, first _ (ends.append behind), second _ behind, List.append_assoc]

theorem Spells.mark (spells : Spells text lexemes) {lexeme : Lexeme}
    (opens : opening c = .whole lexeme) (known : lexeme ≠ .stray) :
    Spells (c :: text) (lexeme :: lexemes) := by
  intro rest behind
  rw [List.cons_append, scan, opens]
  have goesOn : (Lexeme.Opening.whole lexeme).resume (fun mode => scan mode (text ++ rest)) =
      lexeme :: scan .between (text ++ rest) := by
    cases lexeme with
    | stray => exact absurd rfl known
    | _ => rfl
  rw [goesOn, spells _ behind, List.cons_append]

theorem Spells.space (spells : Spells text lexemes) (isSpace : isSpace c = true) :
    Spells (c :: text) lexemes := by
  intro rest behind
  have opens : opening c = .space := by
    unfold opening
    exact if_pos isSpace
  rw [List.cons_append, scan, opens]
  exact spells rest behind

theorem Spells.spaces (spells : Spells text lexemes) :
    ∀ {blanks : List Char}, (∀ c ∈ blanks, isSpace c = true) → Spells (blanks ++ text) lexemes
  | [], _ => spells
  | c :: blanks, allBlank => by
    obtain ⟨here, others⟩ := List.forall_mem_cons.mp allBlank
    exact (spells.spaces others).space here

theorem Spells.comma (spells : Spells text lexemes) : Spells (',' :: text) (.comma :: lexemes) :=
  spells.mark rfl Lexeme.noConfusion

theorem Spells.colon (spells : Spells text lexemes) : Spells (':' :: text) (.colon :: lexemes) :=
  spells.mark rfl Lexeme.noConfusion

/-- Pieces with commas between them, behind which there may be blanks. -/
theorem Spells.intercalate {blanks : List Char} (allBlank : ∀ c ∈ blanks, isSpace c = true)
    {texts : List (List Char)} {pieces : List (List Lexeme)} (each : List.Forall₂ Spells texts pieces) :
    Spells ((',' :: blanks).intercalate texts) ([.comma].intercalate pieces) := by
  induction each with
  | nil => exact spells_nil
  | cons first others inductionHypothesis =>
    cases others with
    | nil => simpa using first
    | cons second later =>
      rw [List.intercalate_cons_cons, List.intercalate_cons_cons, List.append_assoc,
        List.append_assoc]
      have behind := (inductionHypothesis.spaces allBlank).comma
      exact first.append behind ⟨rfl, rfl⟩

end Spells

/-! ### Strings -/

/-- A unit below the surrogates stands for the character with its code. -/
theorem pushUnit_of_isControl {unit : Nat} (isControl : unit < 0x20) (scanned : List Char) :
    StringScan.pushUnit ⟨scanned, true, none⟩ unit = ⟨Char.ofNat unit :: scanned, true, none⟩ := by
  have leads : ¬0xd800 ≤ unit := by omega
  have trails : ¬0xdc00 ≤ unit := by omega
  simp [StringScan.pushUnit, StringScan.push, leads, trails]

/-- What stands for a character in a printed string puts that character behind what is scanned. -/
theorem scan_escape (c : Char) (scanned rest : List Char) :
    scan (.string ⟨scanned, true, none⟩) (escape c ++ rest) =
      scan (.string ⟨c :: scanned, true, none⟩) rest := by
  unfold escape
  split
  iterate 7 rfl
  next notQuote notSlash notBack notForm notFeed notReturn notTab =>
    split_ifs with isControl
    · have digit : ∀ value < 16, hexDigit? (Nat.digitChar value) = some value := by decide
      have zero : hexDigit? '0' = some 0 := by decide
      have high := digit (c.toNat / 16) (by omega)
      have low := digit (c.toNat % 16) (by omega)
      have code : 16 * (c.toNat / 16) + c.toNat % 16 = c.toNat := Nat.div_add_mod _ _
      have pushed := pushUnit_of_isControl isControl scanned
      rw [Char.ofNat_toNat] at pushed
      simp [scan, zero, high, low, code, pushed]
    · have plain : c ≠ '"' ∧ c ≠ '\\' := ⟨notQuote, notSlash⟩
      simp [scan, StringScan.push, isControl, plain]

theorem scan_escapes (text : List Char) (scanned rest : List Char) :
    scan (.string ⟨scanned, true, none⟩) (text.flatMap escape ++ '"' :: rest) =
      .string (some (String.ofList (scanned.reverse ++ text))) :: scan .between rest := by
  induction text generalizing scanned with
  | nil => simp [scan, StringScan.close]
  | cons c text inductionHypothesis =>
    rw [List.flatMap_cons, List.append_assoc, scan_escape, inductionHypothesis]
    simp

theorem spells_quote (text : String) : Spells (quote text).toList [.string (some text)] := by
  intro rest _
  have opens : opening '"' = .inside (.string .start) := rfl
  have body := scan_escapes text.toList [] rest
  rw [List.reverse_nil, List.nil_append, String.ofList_toList] at body
  rw [quote, String.toList_ofList, List.append_assoc, List.cons_append, scan, opens]
  exact body

/-! ### Literals and numerals -/

theorem scan_literal {word : List Char} (letters : ∀ c ∈ word, c.isAlpha = true)
    (scanned : List Char) {rest : List Char} (ends : EndsLexeme rest) :
    scan (.literal scanned) (word ++ rest) =
      ofLiteral (scanned.reverse ++ word) :: scan .between rest := by
  induction word generalizing scanned with
  | nil =>
    cases rest with
    | nil => simp [scan]
    | cons c rest => simp [scan, ends.2]
  | cons c word inductionHypothesis =>
    obtain ⟨letter, others⟩ := List.forall_mem_cons.mp letters
    rw [List.cons_append, scan, if_pos letter, inductionHypothesis others]
    simp

theorem scan_numeral {digits : List Char} (goOn : ∀ c ∈ digits, isNumeralChar c = true)
    (scanned : List Char) {rest : List Char} (ends : EndsLexeme rest) :
    scan (.numeral scanned) (digits ++ rest) =
      ofNumeral (scanned.reverse ++ digits) :: scan .between rest := by
  induction digits generalizing scanned with
  | nil =>
    cases rest with
    | nil => simp [scan]
    | cons c rest => simp [scan, ends.1]
  | cons c digits inductionHypothesis =>
    obtain ⟨here, others⟩ := List.forall_mem_cons.mp goOn
    rw [List.cons_append, scan, if_pos here, inductionHypothesis others]
    simp

theorem spells_literal {first : Char} {word : List Char}
    (opens : opening first = .inside (.literal [first])) (letters : ∀ c ∈ word, c.isAlpha = true) :
    Spells (first :: word) [ofLiteral (first :: word)] := by
  intro rest ends
  rw [List.cons_append, scan, opens]
  exact scan_literal letters [first] ends

theorem opening_of_isDigit {c : Char} (digit : c.isDigit = true) :
    opening c = .inside (.numeral [c]) := by
  have notSpace : isSpace c = false := by
    rw [Bool.eq_false_iff]
    intro space
    simp only [isSpace, Bool.or_eq_true, beq_iff_eq] at space
    rcases space with ((rfl | rfl) | rfl) | rfl <;> cases digit
  unfold opening
  rw [notSpace, if_neg Bool.false_ne_true]
  split
  iterate 7 cases digit
  simp [digit]

/-- The digits of a number above zero do not start with a zero. -/
theorem head?_toDigits {value : Nat} (positive : 0 < value) :
    (Nat.toDigits 10 value).head? ≠ some '0' := by
  induction value using Nat.strongRecOn with
  | ind value inductionHypothesis =>
    rw [Nat.toDigits_eq_if (by decide)]
    split_ifs with small
    · have notZero : ∀ digit < 10, 0 < digit → [Nat.digitChar digit].head? ≠ some '0' := by decide
      exact notZero value small positive
    · have front := inductionHypothesis (value / 10) (by omega) (by omega)
      have someDigits : Nat.toDigits 10 (value / 10) ≠ [] := Nat.toDigits_ne_nil
      rw [List.head?_append_of_ne_nil _ someDigits]
      exact front

theorem isWholePart_toDigits (value : Nat) : Numeral.isWholePart (Nat.toDigits 10 value) = true := by
  cases value with
  | zero => rfl
  | succ value =>
    have first := head?_toDigits (Nat.succ_pos value)
    unfold Numeral.isWholePart
    split
    · exact absurd ‹_› Nat.toDigits_ne_nil
    · rfl
    · simp_all

theorem ofText?_of_digits {text : List Char} (digits : ∀ c ∈ text, c.isDigit = true)
    (isWhole : Numeral.isWholePart text = true) :
    Numeral.ofText? text =
      some { isNegative := false, whole := text, fraction := none, exponent := none } := by
  have front : text.takeWhile Char.isDigit = text := List.takeWhile_eq_self_iff.mpr digits
  have back : text.dropWhile Char.isDigit = [] := List.dropWhile_eq_nil_iff.mpr digits
  unfold Numeral.ofText?
  split
  next isNegative unsigned sign =>
    split at sign
    · have digit := digits '-' List.mem_cons_self
      cases digit
    · cases sign
      simp [front, back, isWhole, Numeral.exponentPart?]

theorem ofNumeral_toDigits {value : Nat} (fits : value < Number.naturalBound) :
    ofNumeral (Nat.toDigits 10 value) = .number (some (.natural value)) := by
  have digits : ∀ c ∈ Nat.toDigits 10 value, c.isDigit = true :=
    fun c member => Nat.isDigit_of_mem_toDigits (by decide) (by decide) member
  have read : Numeral.digitsFrom 0 (Nat.toDigits 10 value) = value :=
    Nat.ofDigitChars_toDigits (by decide) (by decide)
  rw [ofNumeral, ofText?_of_digits digits (isWholePart_toDigits value)]
  simp [Numeral.value?, read, fits]

theorem spells_natural {value : Nat} (fits : value < Number.naturalBound) :
    Spells value.repr.toList [.number (some (.natural value))] := by
  intro rest ends
  have digits : ∀ c ∈ Nat.toDigits 10 value, c.isDigit = true :=
    fun c member => Nat.isDigit_of_mem_toDigits (by decide) (by decide) member
  rw [← ofNumeral_toDigits fits, Nat.repr, String.toList_ofList]
  cases written : Nat.toDigits 10 value with
  | nil => exact absurd written Nat.toDigits_ne_nil
  | cons first others =>
    rw [written] at digits
    obtain ⟨digit, otherDigits⟩ := List.forall_mem_cons.mp digits
    rw [List.cons_append, scan, opening_of_isDigit digit]
    exact scan_numeral (fun c member => by simp [isNumeralChar, otherDigits c member]) [first] ends

theorem spells_number {number : Number} (fits : (Json.number number).fitsWords = true) :
    Spells number.text.toList [.number (some number)] := by
  cases number with
  | natural value => exact spells_natural (of_decide_eq_true fits)
  | negative magnitude => cases fits
  | double value => cases fits

theorem spells_bool (value : Bool) : Spells (compact (.bool value)).toList [.bool value] := by
  cases value with
  | false => exact spells_literal rfl (List.all_eq_true.mp rfl)
  | true => exact spells_literal rfl (List.all_eq_true.mp rfl)

theorem spells_null : Spells (compact .null).toList [.null] :=
  spells_literal rfl (List.all_eq_true.mp rfl)

section Brackets

variable {text : List Char} {lexemes : List Lexeme}

theorem Spells.inArray (spells : Spells text lexemes) :
    Spells ('[' :: (text ++ [']'])) (.openArray :: (lexemes ++ [.closeArray])) := by
  have closing : Spells [']'] [.closeArray] := spells_nil.mark rfl Lexeme.noConfusion
  exact (spells.append closing ⟨rfl, rfl⟩).mark rfl Lexeme.noConfusion

theorem Spells.inObject (spells : Spells text lexemes) :
    Spells ('\x7b' :: (text ++ ['\x7d'])) (.openObject :: (lexemes ++ [.closeObject])) := by
  have closing : Spells ['\x7d'] [.closeObject] := spells_nil.mark rfl Lexeme.noConfusion
  exact (spells.append closing ⟨rfl, rfl⟩).mark rfl Lexeme.noConfusion

end Brackets

/-! ### Values on one line -/

mutual

theorem spells_compact (value : Json) (fits : value.fitsWords = true) :
    Spells value.compact.toList value.lexemes := by
  cases value with
  | null => exact spells_null
  | bool value => exact spells_bool value
  | number number => exact spells_number fits
  | string text => exact spells_quote text
  | array items =>
    have inside : Spells ([','].intercalate ((compactItems items).map String.toList))
        ([.comma].intercalate (itemLexemes items)) :=
      Spells.intercalate (List.forall_mem_nil _) (spells_compactItems items fits)
    simpa [compact, lexemes] using inside.inArray
  | object members =>
    have inside : Spells ([','].intercalate ((compactMembers members).map String.toList))
        ([.comma].intercalate (memberLexemes members)) :=
      Spells.intercalate (List.forall_mem_nil _) (spells_compactMembers members fits)
    simpa [compact, lexemes] using inside.inObject

theorem spells_compactItems (items : List Json) (fits : itemsFitWords items = true) :
    List.Forall₂ Spells ((compactItems items).map String.toList) (itemLexemes items) := by
  cases items with
  | nil => exact .nil
  | cons item later =>
    obtain ⟨first, others⟩ := Bool.and_eq_true_iff.mp fits
    exact .cons (spells_compact item first) (spells_compactItems later others)

theorem spells_compactMembers (members : List (String × Json))
    (fits : membersFitWords members = true) :
    List.Forall₂ Spells ((compactMembers members).map String.toList) (memberLexemes members) := by
  cases members with
  | nil => exact .nil
  | cons member later =>
    obtain ⟨key, value⟩ := member
    obtain ⟨first, others⟩ := Bool.and_eq_true_iff.mp fits
    have spelled := (spells_quote key).append (spells_compact value first).colon ⟨rfl, rfl⟩
    refine .cons ?_ (spells_compactMembers later others)
    simpa using spelled

end

/-! ### Values with a line for each part -/

theorem isSpace_of_mem_indent (level : Nat) : ∀ c ∈ (indent level).toList, isSpace c = true := by
  intro c member
  rw [indent, String.toList_ofList] at member
  rw [List.eq_of_mem_replicate member]
  rfl

theorem spells_indented (level : Nat) {lines : List String} {pieces : List (List Lexeme)}
    (each : List.Forall₂ Spells (lines.map String.toList) pieces) :
    List.Forall₂ Spells ((lines.map fun line => indent level ++ line).map String.toList)
      pieces := by
  rw [List.map_map, List.forall₂_map_left_iff]
  rw [List.forall₂_map_left_iff] at each
  refine each.imp fun line piece spelled => ?_
  simpa using spelled.spaces (isSpace_of_mem_indent level)

/-- What stands between brackets, a line for each part, spells the parts with commas between them. -/
theorem exists_inside_bracketed (opening closing : String) (level : Nat) {lines : List String}
    {pieces : List (List Lexeme)} (each : List.Forall₂ Spells (lines.map String.toList) pieces) :
    ∃ inside, (bracketed opening closing level lines).toList =
        opening.toList ++ (inside ++ closing.toList) ∧
      Spells inside ([.comma].intercalate pieces) := by
  cases lines with
  | nil =>
    cases each
    exact ⟨[], by simp [bracketed], spells_nil⟩
  | cons line later =>
    have body : Spells ([',', '\n'].intercalate _) ([.comma].intercalate pieces) :=
      Spells.intercalate (List.forall_mem_singleton.mpr rfl) (spells_indented (level + 1) each)
    have ending : Spells ('\n' :: (indent level).toList) [] := by
      have blanks := spells_nil.spaces (isSpace_of_mem_indent level)
      rw [List.append_nil] at blanks
      exact blanks.space rfl
    have inside := (body.append ending ⟨rfl, rfl⟩).space (c := '\n') rfl
    rw [List.append_nil] at inside
    refine ⟨_, ?_, inside⟩
    have someLines : ¬(line :: later).isEmpty = true := Bool.false_ne_true
    rw [bracketed, if_neg someLines]
    simp only [String.toList_append, String.toList_intercalate, List.append_assoc,
      List.cons_append]
    rfl

mutual

theorem spells_prettyAt (level : Nat) (value : Json) (fits : value.fitsWords = true) :
    Spells (prettyAt level value).toList value.lexemes := by
  cases value with
  | array items =>
    obtain ⟨inside, text, spelled⟩ := exists_inside_bracketed "[" "]" level
      (spells_prettyItems (level + 1) items fits)
    rw [prettyAt, text]
    exact spelled.inArray
  | object members =>
    obtain ⟨inside, text, spelled⟩ := exists_inside_bracketed "\x7b" "\x7d" level
      (spells_prettyMembers (level + 1) members fits)
    rw [prettyAt, text]
    exact spelled.inObject
  | _ => exact spells_compact _ fits

theorem spells_prettyItems (level : Nat) (items : List Json) (fits : itemsFitWords items = true) :
    List.Forall₂ Spells ((prettyItems level items).map String.toList) (itemLexemes items) := by
  cases items with
  | nil => exact .nil
  | cons item later =>
    obtain ⟨first, others⟩ := Bool.and_eq_true_iff.mp fits
    exact .cons (spells_prettyAt level item first) (spells_prettyItems level later others)

theorem spells_prettyMembers (level : Nat) (members : List (String × Json))
    (fits : membersFitWords members = true) :
    List.Forall₂ Spells ((prettyMembers level members).map String.toList)
      (memberLexemes members) := by
  cases members with
  | nil => exact .nil
  | cons member later =>
    obtain ⟨key, value⟩ := member
    obtain ⟨first, others⟩ := Bool.and_eq_true_iff.mp fits
    have spaced := (spells_prettyAt level value first).space (c := ' ') rfl
    have spelled := (spells_quote key).append spaced.colon ⟨rfl, rfl⟩
    refine .cons ?_ (spells_prettyMembers level later others)
    simpa using spelled

end

/-! ### Whole texts -/

theorem listOf_eq_of_spells {text : String} {lexemes : List Lexeme}
    (spells : Spells text.toList lexemes) : Lexeme.listOf text = lexemes := by
  have whole := spells [] trivial
  rw [List.append_nil] at whole
  rw [Lexeme.listOf, whole, scan, List.append_nil]

theorem listOf_compact {value : Json} (fits : value.fitsWords = true) :
    Lexeme.listOf value.compact = value.lexemes :=
  listOf_eq_of_spells (spells_compact value fits)

theorem listOf_pretty {value : Json} (fits : value.fitsWords = true) :
    Lexeme.listOf value.pretty = value.lexemes :=
  listOf_eq_of_spells (spells_prettyAt 0 value fits)

end PromptBlocks.Json
