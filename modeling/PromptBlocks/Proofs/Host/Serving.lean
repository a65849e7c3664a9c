import Mathlib.Data.List.TakeWhile
import PromptBlocks.Proofs.Host.Atomicity
import PromptBlocks.Proofs.Host.Lines
import PromptBlocks.Proofs.Json.Printing

/-!
Contract: an input is answered line by line, once and in order.

Owns:
- the lines that are asked: not blank, and in front of the first that is no text;
- the responses to an input, each on the state that the ones before it left;
- what is written for an input: one line a response;
- a last line without its line feed, and an input that goes on behind another.

Does not own: the response to one line.
-/

namespace PromptBlocks

/-! ### Runs -/

namespace Host

theorem handleLines_append (host : Host) (front back : List String) :
    host.handleLines (front ++ back) =
      (((host.handleLines front).1.handleLines back).1,
        (host.handleLines front).2 ++ ((host.handleLines front).1.handleLines back).2) := by
  induction front generalizing host with
  | nil => rfl
  | cons line later inductionHypothesis =>
    simp [handleLines_cons, inductionHypothesis]

theorem length_handleLines (host : Host) (lines : List String) :
    (host.handleLines lines).2.length = lines.length := by
  induction lines generalizing host with
  | nil => rfl
  | cons line later inductionHypothesis => simp [handleLines_cons, inductionHypothesis]

/-- Each line of a run is answered on the state that the lines before it left. -/
theorem getElem?_handleLines (host : Host) (lines : List String) (place : Nat) :
    (host.handleLines lines).2[place]? =
      lines[place]?.map fun line => ((host.handleLines (lines.take place)).1.handleLine line).2 := by
  induction lines generalizing host place with
  | nil => rfl
  | cons line later inductionHypothesis =>
    cases place with
    | zero => rfl
    | succ place => simp [handleLines_cons, inductionHypothesis]

end Host

namespace Serving

/-- The texts of the lines in front of the first that is no text. -/
def legibleTexts (lines : List (List UInt8)) : List String :=
  (lines.takeWhile fun line => (Text.ofBytes? line).isSome).filterMap Text.ofBytes?

/-- The texts that ask something: those that are not blank. -/
def asked (lines : List (List UInt8)) : List String :=
  (legibleTexts lines).filter fun text => !Text.isAllBlank text

namespace Outcome

/-- The outcome when the input goes on. -/
def continued (outcome : Outcome) (input : List UInt8) : Outcome :=
  let rest := outcome.host.serveInput input
  { rest with responses := outcome.responses ++ rest.responses }

/-- What is written: each response with a line feed. -/
def written (outcome : Outcome) : List Char :=
  outcome.responses.flatMap fun response => response.line.toList ++ ['\n']

end Outcome

/-! ### Lines that are asked -/

section Asked

variable {line : List UInt8} {lines front : List (List UInt8)} {text : String}

theorem asked_cons_of_eq_none (illegible : Text.ofBytes? line = none) : asked (line :: lines) = [] := by
  simp [asked, legibleTexts, illegible]

theorem asked_cons_of_eq_some (legible : Text.ofBytes? line = some text) :
    asked (line :: lines) = if Text.isAllBlank text then asked lines else text :: asked lines := by
  cases blank : Text.isAllBlank text <;> simp [asked, legibleTexts, legible, blank]

theorem asked_append (legible : ∀ line ∈ front, (Text.ofBytes? line).isSome = true)
    (back : List (List UInt8)) : asked (front ++ back) = asked front ++ asked back := by
  have whole : front.takeWhile (fun line => (Text.ofBytes? line).isSome) = front :=
    List.takeWhile_eq_self_iff.mpr legible
  simp [asked, legibleTexts, List.takeWhile_append_of_pos legible, whole]

/-- An empty line asks nothing. -/
theorem asked_nil_cons (lines : List (List UInt8)) : asked ([] :: lines) = asked lines := by
  have legible : Text.ofBytes? [] = some "" := rfl
  exact asked_cons_of_eq_some legible

end Asked

/-- Lines are answered by a run over those that are asked. -/
theorem answerLines_eq (host : Host) (lines : List (List UInt8)) :
    answerLines host lines =
      { host := (host.handleLines (asked lines)).1
        responses := (host.handleLines (asked lines)).2
        isComplete := lines.all fun line => (Text.ofBytes? line).isSome } := by
  induction lines generalizing host with
  | nil => rfl
  | cons line later inductionHypothesis =>
    cases legible : Text.ofBytes? line with
    | none => simp [answerLines, legible, asked_cons_of_eq_none legible, Host.handleLines]
    | some text =>
      cases blank : Text.isAllBlank text <;>
        simp [answerLines, answerLine, legible, blank, asked_cons_of_eq_some legible,
          inductionHypothesis, Host.handleLines_cons]

/-! ### One input behind another -/

section Behind

variable {host : Host} {front : List (List UInt8)}

theorem isComplete_answerLines_iff (host : Host) (lines : List (List UInt8)) :
    (answerLines host lines).isComplete = true ↔ ∀ line ∈ lines, (Text.ofBytes? line).isSome = true := by
  rw [answerLines_eq, List.all_eq_true]

/-- Lines behind lines that are all texts are answered on the state that those left. -/
theorem answerLines_append (complete : (answerLines host front).isComplete = true)
    (back : List (List UInt8)) :
    answerLines host (front ++ back) =
      { answerLines (answerLines host front).host back with
        responses := (answerLines host front).responses ++
          (answerLines (answerLines host front).host back).responses } := by
  have legible := (isComplete_answerLines_iff host front).mp complete
  have all : (front.all fun line => (Text.ofBytes? line).isSome) = true := List.all_eq_true.mpr legible
  simp [answerLines_eq, asked_append legible, Host.handleLines_append, all]

theorem answerLines_nil_cons (host : Host) (lines : List (List UInt8)) :
    answerLines host ([] :: lines) = answerLines host lines := by
  have legible : (Text.ofBytes? []).isSome = true := rfl
  simp [answerLines_eq, asked_nil_cons, legible]

end Behind

/-! ### Inputs -/

section Inputs

variable {host : Host} {input : List UInt8}

theorem isComplete_serveInput_iff (host : Host) (input : List UInt8) :
    (host.serveInput input).isComplete = true ↔ (Text.ofBytes? input).isSome = true := by
  rw [Host.serveInput, isComplete_answerLines_iff, isSome_ofBytes?_iff_forall_linesOf]

/-- A line feed between two inputs starts the second, however the first ended. -/
theorem serveInput_append_lineFeed (complete : (host.serveInput input).isComplete = true)
    (noReturn : input.getLast? ≠ some carriageReturn) (later : List UInt8) :
    host.serveInput (input ++ lineFeed :: later) = (host.serveInput input).continued later := by
  obtain ⟨blank, isBlank, lines⟩ := exists_linesOf_append_lineFeed noReturn later
  have skipped (state : Host) :
      answerLines state (blank ++ linesOf later) = answerLines state (linesOf later) := by
    rcases isBlank with rfl | rfl
    · rfl
    · exact answerLines_nil_cons state _
  rw [Host.serveInput, lines, answerLines_append complete, skipped]
  rfl

/-- Behind a line feed the second of two inputs starts on what the first left, so that an input may be
served line by line. -/
theorem serveInput_append_of_isClosed (complete : (host.serveInput input).isComplete = true)
    (closed : IsClosed input) (later : List UInt8) :
    host.serveInput (input ++ later) = (host.serveInput input).continued later := by
  rw [Host.serveInput, linesOf_append_of_isClosed closed, answerLines_append complete]
  rfl

/-- A last line without its line feed is answered like any other. -/
theorem serveInput_of_line {line : List UInt8} {text : String} (noFeed : lineFeed ∉ line)
    (legible : Text.ofBytes? line = some text) (notBlank : Text.isAllBlank text = false) :
    host.serveInput line =
      { host := (host.handleLine text).1
        responses := [(host.handleLine text).2]
        isComplete := true } := by
  have nonempty : line ≠ [] := by
    rintro rfl
    obtain rfl : "" = text := Option.some.inj legible
    exact absurd notBlank (by decide)
  simp [Host.serveInput, linesOf_of_not_mem noFeed, nonempty, answerLines, answerLine, legible,
    notBlank]

end Inputs

/-! ### What is written -/

theorem oneLine_line (response : Response) : OneLine response.line.toList :=
  Json.oneLine_compact response.toJson

/-- What is written has the lines of the responses, each ended by a line feed. -/
theorem splitOn_written (outcome : Outcome) :
    outcome.written.splitOn '\n' =
      outcome.responses.map (fun response => response.line.toList) ++ [[]] := by
  rw [Outcome.written]
  induction outcome.responses with
  | nil => rfl
  | cons response later inductionHypothesis =>
    have noFeed : ∀ c ∈ response.line.toList, (c == '\n') = false := by
      intro c member
      exact beq_eq_false_iff_ne.mpr fun isFeed => oneLine_line response (isFeed ▸ member)
    have first := List.splitOnP_append_cons_of_forall_mem noFeed '\n' (by simp)
      (later.flatMap fun response => response.line.toList ++ ['\n'])
    rw [List.splitOn_eq_splitOnP] at inductionHypothesis ⊢
    simpa [inductionHypothesis] using first

end Serving

namespace Host

open Serving

/-- An input is answered line by line.  The lines are what its line feeds cut it into.  Every line that
is not blank, in front of the first that is no text, has one response, which stands on one line of what
is written, in the order of the input and on the state that the lines before left.  All is answered
exactly when all lines are texts, which is when the input is text.  A last line needs no line feed, and
an input behind another and a line feed is served as if the first had ended there. -/
theorem serveInput_answers_each_line_once (host : Host) (input : List UInt8) :
    (host.serveInput input).responses.length = (asked (cutLines input)).length ∧
      (∀ place, (host.serveInput input).responses[place]? =
        (asked (cutLines input))[place]?.map fun line =>
          ((host.handleLines ((asked (cutLines input)).take place)).1.handleLine line).2) ∧
      (host.serveInput input).host = (host.handleLines (asked (cutLines input))).1 ∧
      (host.serveInput input).written.splitOn '\n' =
        (host.serveInput input).responses.map (fun response => response.line.toList) ++ [[]] ∧
      ((host.serveInput input).isComplete = true ↔
        ∀ line ∈ cutLines input, (Text.ofBytes? line).isSome = true) ∧
      ((host.serveInput input).isComplete = true ↔ (Text.ofBytes? input).isSome = true) ∧
      (∀ last text, IsClosed input → (Text.ofBytes? input).isSome = true → lineFeed ∉ last →
        Text.ofBytes? last = some text → Text.isAllBlank text = false →
        host.serveInput (input ++ last) =
          { host := ((host.serveInput input).host.handleLine text).1
            responses := (host.serveInput input).responses ++
              [((host.serveInput input).host.handleLine text).2]
            isComplete := true }) ∧
      ∀ later, (Text.ofBytes? input).isSome = true → input.getLast? ≠ some carriageReturn →
        host.serveInput (input ++ lineFeed :: later) = (host.serveInput input).continued later := by
  have run : host.serveInput input = answerLines host (cutLines input) := by
    rw [Host.serveInput, linesOf_eq_cutLines]
  have complete := isComplete_serveInput_iff host input
  refine ⟨?_, ?_, ?_, splitOn_written _, ?_, complete, ?_, ?_⟩
  · rw [run, answerLines_eq, length_handleLines]
  · intro place
    rw [run, answerLines_eq, getElem?_handleLines]
  · rw [run, answerLines_eq]
  · rw [run, isComplete_answerLines_iff]
  · intro last text closed legible noFeed isText notBlank
    rw [serveInput_append_of_isClosed (complete.mpr legible) closed, Outcome.continued,
      serveInput_of_line noFeed isText notBlank]
  · intro later legible noReturn
    exact serveInput_append_lineFeed (complete.mpr legible) noReturn later

/-- A last line without its line feed is answered behind one that ends in a carriage return and a line
feed, and so is what follows it when a line feed comes after it. -/
theorem serveInput_answers_each_line_once_of_open_end :
    let host : Host := ⟨Settings.standard, .builtin, Shelf.empty⟩
    let input := Text.encoding "\x7b\"id\":1,\"command\":\"list_macros\"\x7d\r\n".toList
    let last := Text.encoding "\x7b\"command\":\"list_macros\"\x7d".toList
    (host.serveInput (input ++ last)).responses.map Response.line =
        ["\x7b\"id\":1,\"ok\":true,\"result\":[]\x7d",
          "\x7b\"id\":null,\"ok\":true,\"result\":[]\x7d"] ∧
      host.serveInput (last ++ lineFeed :: input) = (host.serveInput last).continued input := by
  intro host input last
  obtain ⟨-, -, -, -, -, -, answered, -⟩ := serveInput_answers_each_line_once host input
  obtain ⟨-, -, -, -, -, -, -, goesOn⟩ := serveInput_answers_each_line_once host last
  have whole := answered last "\x7b\"command\":\"list_macros\"\x7d" (.inr (by decide)) (by decide)
    (by decide) (by decide) (by decide)
  refine ⟨?_, goesOn input (by decide) (by decide)⟩
  rw [whole]
  decide +kernel

end Host

end PromptBlocks
