import Mathlib.Data.List.Basic
import PromptBlocks.Json.Reader
import PromptBlocks.Proofs.Outcomes

/-!
Contract: the whole numbers in what is read from a text fit 64 bits.

Owns:
- lexemes, documents and readings whose whole numbers fit 64 bits;
- each step of a reading keeps such readings, and a whole reading ends in such a document.

Does not own: values, whose numbers may be any.
-/

namespace PromptBlocks

/-- A whole number fits 64 bits; others are not looked at. -/
def Number.FitsWord : Number → Prop
  | .natural value => value < naturalBound
  | _ => True

namespace Json

open Lexeme (scan opening ofNumeral ofLiteral Opening)
open Reading (complete close beginValue beginMember afterPart breakOff itemsOf membersOf)

/-! ### Lexemes -/

def Lexeme.FitsWord : Lexeme → Prop
  | .number (some value) => value.FitsWord
  | _ => True

theorem fitsWord_value? {numeral : Numeral} {number : Number}
    (value : numeral.value? = some number) : number.FitsWord := by
  rw [Numeral.value?] at value
  split_ifs at value with natural negative
  · obtain rfl := Option.some.inj value
    simp only [Bool.and_eq_true, decide_eq_true_eq] at natural
    exact natural.2
  · obtain rfl := Option.some.inj value
    trivial
  · obtain ⟨double, -, rfl⟩ := Option.map_eq_some_iff.mp value
    trivial

theorem fitsWord_ofNumeral (text : List Char) : (ofNumeral text).FitsWord := by
  rw [ofNumeral]
  split
  next numeral _ =>
    cases value : numeral.value? with
    | none => trivial
    | some number => exact fitsWord_value? value
  next => trivial

theorem fitsWord_ofLiteral (text : List Char) : (ofLiteral text).FitsWord := by
  rw [ofLiteral]
  split_ifs <;> trivial

/-- No character alone is a number. -/
theorem fitsWord_of_opening {c : Char} {lexeme : Lexeme} (opens : opening c = .whole lexeme) :
    lexeme.FitsWord := by
  unfold opening at opens
  split at opens
  · cases opens
  · split at opens
    on_goal 8 => split_ifs at opens
    all_goals cases opens
    all_goals trivial

theorem forall_mem_resume {opened : Opening} {scanRest : ScanMode → List Lexeme}
    (whole : ∀ lexeme, opened = .whole lexeme → lexeme.FitsWord)
    (behind : ∀ mode, ∀ lexeme ∈ scanRest mode, lexeme.FitsWord) :
    ∀ lexeme ∈ opened.resume scanRest, lexeme.FitsWord := by
  cases opened with
  | space => exact behind .between
  | inside mode => exact behind mode
  | whole lexeme =>
    cases lexeme with
    | stray => exact List.forall_mem_singleton.mpr trivial
    | _ => exact List.forall_mem_cons.mpr ⟨whole _ rfl, behind .between⟩

/-- All numbers among the lexemes of a text fit, in whatever mode it is scanned. -/
theorem fitsWord_of_mem_scan (mode : ScanMode) (text : List Char) :
    ∀ lexeme ∈ scan mode text, lexeme.FitsWord := by
  induction text generalizing mode with
  | nil =>
    cases mode with
    | between => exact List.forall_mem_nil _
    | literal scanned => exact List.forall_mem_singleton.mpr (fitsWord_ofLiteral _)
    | numeral scanned => exact List.forall_mem_singleton.mpr (fitsWord_ofNumeral _)
    | _ => exact List.forall_mem_singleton.mpr trivial
  | cons c rest inductionHypothesis =>
    have resumed : ∀ lexeme ∈ (opening c).resume fun mode => scan mode rest, lexeme.FitsWord :=
      forall_mem_resume (fun _ => fitsWord_of_opening) inductionHypothesis
    have stray : ∀ lexeme ∈ [Lexeme.stray], lexeme.FitsWord :=
      List.forall_mem_singleton.mpr trivial
    cases mode with
    | between => exact resumed
    | literal scanned =>
      rw [scan]
      split_ifs
      · exact inductionHypothesis _
      · exact List.forall_mem_cons.mpr ⟨fitsWord_ofLiteral _, resumed⟩
    | numeral scanned =>
      rw [scan]
      split_ifs
      · exact inductionHypothesis _
      · exact List.forall_mem_cons.mpr ⟨fitsWord_ofNumeral _, resumed⟩
    | string inside =>
      rw [scan]
      split_ifs
      · exact List.forall_mem_cons.mpr ⟨trivial, inductionHypothesis _⟩
      · exact inductionHypothesis _
      · exact stray
      · exact inductionHypothesis _
    | escape inside =>
      rw [scan]
      split_ifs
      · exact inductionHypothesis _
      · split
        · exact inductionHypothesis _
        · exact stray
    | unit inside value left =>
      rw [scan]
      split
      · exact stray
      · split_ifs <;> exact inductionHypothesis _

/-! ### Documents -/

mutual

def Document.FitsWord : Document → Prop
  | .number (some value) => value.FitsWord
  | .array _ items => items.FitsWord
  | .object _ members => members.FitsWord
  | _ => True

def Items.FitsWord : Items → Prop
  | .item first later => first.FitsWord ∧ later.FitsWord
  | _ => True

def Members.FitsWord : Members → Prop
  | .member _ value later => value.FitsWord ∧ later.FitsWord
  | _ => True

end

def OpenContainer.FitsWord : OpenContainer → Prop
  | .array items => ∀ item ∈ items, item.FitsWord
  | .object members _ => ∀ member ∈ members, member.2.FitsWord

def Progress.FitsWord : Progress → Prop
  | .more reading => ∀ container ∈ reading.enclosing, container.FitsWord
  | .done document => document.FitsWord
  | .stopped => True

theorem fitsWord_itemsOf {ending : Items} {items : List Document} (ends : ending.FitsWord)
    (each : ∀ item ∈ items, item.FitsWord) : (itemsOf ending items).FitsWord := by
  induction items generalizing ending with
  | nil => exact ends
  | cons item later inductionHypothesis =>
    obtain ⟨first, others⟩ := List.forall_mem_cons.mp each
    have grown : (Items.item item ending).FitsWord := ⟨first, ends⟩
    exact inductionHypothesis grown others

theorem fitsWord_membersOf {ending : Members} {members : List (Option String × Document)}
    (ends : ending.FitsWord) (each : ∀ member ∈ members, member.2.FitsWord) :
    (membersOf ending members).FitsWord := by
  induction members generalizing ending with
  | nil => exact ends
  | cons member later inductionHypothesis =>
    obtain ⟨first, others⟩ := List.forall_mem_cons.mp each
    have grown : (Members.member member.1 member.2 ending).FitsWord := ⟨first, ends⟩
    exact inductionHypothesis grown others

section Steps

variable {enclosing : List OpenContainer} {part : Document} {lexeme : Lexeme}

theorem fitsWord_complete (fits : part.FitsWord) (held : ∀ container ∈ enclosing, container.FitsWord) :
    (complete part enclosing).FitsWord := by
  cases enclosing with
  | nil => exact fits
  | cons container outer =>
    obtain ⟨inner, others⟩ := List.forall_mem_cons.mp held
    cases container with
    | array items =>
      exact List.forall_mem_cons.mpr ⟨List.forall_mem_cons.mpr ⟨fits, inner⟩, others⟩
    | object members key =>
      exact List.forall_mem_cons.mpr ⟨List.forall_mem_cons.mpr ⟨fits, inner⟩, others⟩

theorem fitsWord_close (held : ∀ container ∈ enclosing, container.FitsWord) :
    (close enclosing).FitsWord := by
  cases enclosing with
  | nil => trivial
  | cons container outer =>
    obtain ⟨inner, others⟩ := List.forall_mem_cons.mp held
    cases container with
    | array items => exact fitsWord_complete (fitsWord_itemsOf trivial inner) others
    | object members key => exact fitsWord_complete (fitsWord_membersOf trivial inner) others

theorem fitsWord_beginValue (held : ∀ container ∈ enclosing, container.FitsWord)
    (fits : lexeme.FitsWord) : (beginValue enclosing lexeme).FitsWord := by
  cases lexeme with
  | openArray => exact List.forall_mem_cons.mpr ⟨List.forall_mem_nil _, held⟩
  | openObject => exact List.forall_mem_cons.mpr ⟨List.forall_mem_nil _, held⟩
  | null => exact fitsWord_complete trivial held
  | bool value => exact fitsWord_complete trivial held
  | number value =>
    cases value with
    | none => exact fitsWord_complete trivial held
    | some number => exact fitsWord_complete fits held
  | string text => exact fitsWord_complete trivial held
  | _ => trivial

theorem fitsWord_beginMember (held : ∀ container ∈ enclosing, container.FitsWord)
    (key : Option String) : (beginMember enclosing key).FitsWord := by
  match enclosing with
  | [] => trivial
  | .array _ :: _ => trivial
  | .object members _ :: outer =>
    obtain ⟨inner, others⟩ := List.forall_mem_cons.mp held
    exact List.forall_mem_cons.mpr ⟨inner, others⟩

theorem fitsWord_afterPart (held : ∀ container ∈ enclosing, container.FitsWord)
    (lexeme : Lexeme) : (afterPart enclosing lexeme).FitsWord := by
  unfold afterPart
  split
  · exact held
  · exact fitsWord_close held
  · exact held
  · exact fitsWord_close held
  · trivial

theorem fitsWord_step {reading : Reading}
    (held : ∀ container ∈ reading.enclosing, container.FitsWord) (fits : lexeme.FitsWord) :
    (reading.step lexeme).FitsWord := by
  unfold Reading.step
  split
  · exact fitsWord_beginValue held fits
  · exact fitsWord_close held
  · exact fitsWord_beginValue held fits
  · exact fitsWord_close held
  · exact fitsWord_beginMember held _
  · exact fitsWord_beginMember held _
  · exact held
  · exact fitsWord_afterPart held _
  · trivial

theorem fitsWord_breakOff (fits : part.FitsWord)
    (held : ∀ container ∈ enclosing, container.FitsWord) :
    (breakOff part enclosing).FitsWord := by
  induction enclosing generalizing part with
  | nil => exact fits
  | cons container outer inductionHypothesis =>
    obtain ⟨inner, others⟩ := List.forall_mem_cons.mp held
    match container with
    | .array items => exact inductionHypothesis (fitsWord_itemsOf ⟨fits, trivial⟩ inner) others
    | .object members none => exact inductionHypothesis (fitsWord_membersOf trivial inner) others
    | .object members (some key) =>
      exact inductionHypothesis (fitsWord_membersOf ⟨fits, trivial⟩ inner) others

theorem fitsWord_abandon {reading : Reading}
    (held : ∀ container ∈ reading.enclosing, container.FitsWord) : reading.abandon.FitsWord := by
  obtain ⟨enclosing, expected⟩ := reading
  cases expected with
  | value => exact fitsWord_breakOff trivial held
  | colon => exact fitsWord_breakOff trivial held
  | _ =>
    match enclosing with
    | [] => trivial
    | .array items :: outer =>
      obtain ⟨inner, others⟩ := List.forall_mem_cons.mp held
      exact fitsWord_breakOff (fitsWord_itemsOf trivial inner) others
    | .object members key :: outer =>
      obtain ⟨inner, others⟩ := List.forall_mem_cons.mp held
      exact fitsWord_breakOff (fitsWord_membersOf trivial inner) others

end Steps

/-- The document of lexemes whose numbers fit holds numbers that fit. -/
theorem fitsWord_run {lexemes : List Lexeme} {reading : Reading}
    (held : ∀ container ∈ reading.enclosing, container.FitsWord)
    (each : ∀ lexeme ∈ lexemes, lexeme.FitsWord) : (reading.run lexemes).1.FitsWord := by
  induction lexemes generalizing reading with
  | nil => exact fitsWord_abandon held
  | cons lexeme later inductionHypothesis =>
    obtain ⟨first, others⟩ := List.forall_mem_cons.mp each
    have stepped := fitsWord_step held first
    rw [Reading.run]
    cases progress : reading.step lexeme with
    | more grown =>
      rw [progress] at stepped
      exact inductionHypothesis stepped others
    | done document =>
      rw [progress] at stepped
      exact stepped
    | stopped => exact fitsWord_abandon held

/-- What a text is read as, is read from a document whose whole numbers fit 64 bits. -/
theorem exists_of_readText {α : Type} {read : Document → Except Fault α} {text : String} {value : α}
    (reads : readText read text = .ok value) :
    ∃ document : Document, document.FitsWord ∧ read document = .ok value := by
  have fits : (Reading.start.run (Lexeme.listOf text)).1.FitsWord :=
    fitsWord_run (List.forall_mem_nil _) (fitsWord_of_mem_scan .between text.toList)
  obtain ⟨result, readDocument, ends⟩ := exists_of_bind_eq_ok reads
  split_ifs at ends
  obtain rfl := Except.ok.inj ends
  exact ⟨_, fits, readDocument⟩

end Json

end PromptBlocks
