import PromptBlocks.Host.Serving
import PromptBlocks.Proofs.Text.Encoding

/-!
Contract: the lines of an input as the pieces between its line feeds.

Owns:
- the pieces of an input, and the lines that they make;
- a proof by lines: a piece and its line feed, or the end of the input;
- inputs one behind the other, cut at a line feed or with one put between them;
- an input is text exactly when all its lines are.

Does not own: what a line is answered with.
-/

namespace PromptBlocks.Serving

/-- The byte that ends a line. -/
def lineFeed : UInt8 :=
  10

/-- The byte that belongs to the end of a line when it stands directly before the line feed. -/
def carriageReturn : UInt8 :=
  13

/-- A piece less the carriage return at its end. -/
def dropReturn (piece : List UInt8) : List UInt8 :=
  if piece.getLast? = some carriageReturn then piece.dropLast else piece

/-- The pieces that the line feeds of an input cut it into, each less a carriage return at its end;
the last piece is a line as it stands, unless it is empty. -/
def cutLines (input : List UInt8) : List (List UInt8) :=
  let pieces := input.splitOn lineFeed
  pieces.dropLast.map dropReturn ++ pieces.getLast?.toList.filter fun last => !last.isEmpty

/-- The input ends where a line ends, or does not start. -/
def IsClosed (input : List UInt8) : Prop :=
  input = [] ∨ input.getLast? = some lineFeed

/-! ### Line by line -/

section Pieces

variable {piece rest input : List UInt8} {byte : UInt8}

theorem dropReturn_cons_of_ne_nil (nonempty : piece ≠ []) :
    dropReturn (byte :: piece) = byte :: dropReturn piece := by
  obtain ⟨first, others, rfl⟩ := List.exists_cons_of_ne_nil nonempty
  simp only [dropReturn, List.getLast?_cons_cons, List.dropLast_cons_cons]
  split <;> rfl

theorem dropReturn_eq_self (noReturn : piece.getLast? ≠ some carriageReturn) :
    dropReturn piece = piece :=
  if_neg noReturn

theorem linesOf_lineFeed (rest : List UInt8) : linesOf (lineFeed :: rest) = [] :: linesOf rest :=
  rfl

theorem linesOf_carriageReturn (rest : List UInt8) :
    linesOf (carriageReturn :: lineFeed :: rest) = [] :: linesOf rest :=
  rfl

/-- A byte that ends no line belongs to the first of the lines that follow. -/
theorem linesOf_cons (notFeed : byte ≠ lineFeed)
    (noReturn : byte = carriageReturn → rest.head? ≠ some lineFeed) :
    linesOf (byte :: rest) =
      match linesOf rest with
      | [] => [[byte]]
      | line :: later => (byte :: line) :: later := by
  apply linesOf.eq_4
  · rintro others isReturn rfl
    exact noReturn isReturn rfl
  · exact notFeed

theorem linesOf_of_not_mem (noFeed : lineFeed ∉ input) :
    linesOf input = if input = [] then [] else [input] := by
  induction input with
  | nil => rfl
  | cons byte rest inductionHypothesis =>
    obtain ⟨notFeed, noFeedLater⟩ := not_or.mp (mt List.mem_cons.mpr noFeed)
    have noFeedNext : rest.head? ≠ some lineFeed := fun isNext =>
      noFeedLater (List.mem_of_head? isNext)
    rw [linesOf_cons (Ne.symm notFeed) fun _ => noFeedNext, inductionHypothesis noFeedLater]
    cases rest <;> rfl

/-- A piece in front of a line feed is the first line, less a carriage return at its end. -/
theorem linesOf_append_lineFeed (noFeed : lineFeed ∉ piece) (rest : List UInt8) :
    linesOf (piece ++ lineFeed :: rest) = dropReturn piece :: linesOf rest := by
  induction piece with
  | nil => exact linesOf_lineFeed rest
  | cons byte piece inductionHypothesis =>
    obtain ⟨notFeed, noFeedLater⟩ := not_or.mp (mt List.mem_cons.mpr noFeed)
    cases piece with
    | nil =>
      by_cases isReturn : byte = carriageReturn
      · subst isReturn
        exact linesOf_carriageReturn rest
      · have kept : dropReturn [byte] = [byte] := dropReturn_eq_self (by simpa using isReturn)
        rw [List.cons_append, linesOf_cons (Ne.symm notFeed) (absurd · isReturn), List.nil_append,
          linesOf_lineFeed, kept]
    | cons next others =>
      have noFeedNext : (next :: others ++ lineFeed :: rest).head? ≠ some lineFeed := fun isNext =>
        noFeedLater (by simp [Option.some.inj isNext])
      rw [List.cons_append, linesOf_cons (Ne.symm notFeed) fun _ => noFeedNext,
        inductionHypothesis noFeedLater, dropReturn_cons_of_ne_nil (List.cons_ne_nil next others)]

/-- What holds of inputs without a line feed, and of a piece with its line feed in front of an input
that it holds of, holds of every input. -/
theorem line_induction {motive : List UInt8 → Prop}
    (last : ∀ input, lineFeed ∉ input → motive input)
    (line : ∀ piece rest, lineFeed ∉ piece → motive rest → motive (piece ++ lineFeed :: rest))
    (input : List UInt8) : motive input := by
  by_cases member : lineFeed ∈ input
  · obtain ⟨piece, rest, split, noFeed⟩ := List.eq_append_cons_of_mem member
    have shorter : rest.length < input.length := by simp [split]; omega
    rw [split]
    exact line piece rest noFeed (line_induction last line rest)
  · exact last input member
termination_by input.length

theorem cutLines_of_not_mem (noFeed : lineFeed ∉ input) :
    cutLines input = if input = [] then [] else [input] := by
  have whole : input.splitOn lineFeed = [input] := by
    rw [List.splitOn_eq_splitOnP, List.splitOnP_eq_singleton]
    intro byte member
    exact beq_eq_false_iff_ne.mpr fun isFeed => noFeed (isFeed ▸ member)
  cases input <;> simp [cutLines, whole]

theorem cutLines_append_lineFeed (noFeed : lineFeed ∉ piece) (rest : List UInt8) :
    cutLines (piece ++ lineFeed :: rest) = dropReturn piece :: cutLines rest := by
  have pieces : (piece ++ lineFeed :: rest).splitOn lineFeed = piece :: rest.splitOn lineFeed := by
    rw [List.splitOn_eq_splitOnP, List.splitOnP_append_cons_of_forall_mem _ _ (by simp)]
    · rfl
    · intro byte member
      exact beq_eq_false_iff_ne.mpr fun isFeed => noFeed (isFeed ▸ member)
  obtain ⟨first, others, split⟩ := List.exists_cons_of_ne_nil (List.splitOn_ne_nil lineFeed rest)
  simp [cutLines, pieces, split]

theorem linesOf_eq_cutLines (input : List UInt8) : linesOf input = cutLines input := by
  induction input using line_induction with
  | last input noFeed => rw [linesOf_of_not_mem noFeed, cutLines_of_not_mem noFeed]
  | line piece rest noFeed inductionHypothesis =>
    rw [linesOf_append_lineFeed noFeed, cutLines_append_lineFeed noFeed, inductionHypothesis]

end Pieces

/-! ### Inputs one behind the other -/

section Behind

variable {piece rest input front : List UInt8}

theorem IsClosed.eq_nil (closed : IsClosed input) (noFeed : lineFeed ∉ input) : input = [] := by
  rcases closed with empty | ended
  · exact empty
  · exact absurd (List.mem_of_getLast? ended) noFeed

theorem IsClosed.of_append_lineFeed (closed : IsClosed (piece ++ lineFeed :: rest)) :
    IsClosed rest := by
  cases rest with
  | nil => exact .inl rfl
  | cons first others =>
    rcases closed with empty | ended
    · simp at empty
    · exact .inr (by simpa using ended)

/-- Behind a line feed a new line starts. -/
theorem linesOf_append_of_isClosed (closed : IsClosed front) (back : List UInt8) :
    linesOf (front ++ back) = linesOf front ++ linesOf back := by
  induction front using line_induction with
  | last input noFeed =>
    rw [closed.eq_nil noFeed]
    rfl
  | line piece rest noFeed inductionHypothesis =>
    rw [List.append_assoc, List.cons_append, linesOf_append_lineFeed noFeed,
      linesOf_append_lineFeed noFeed, inductionHypothesis closed.of_append_lineFeed,
      List.cons_append]

/-- A line feed between two inputs ends the line that the first one leaves open, or makes an empty
one. -/
theorem exists_linesOf_append_lineFeed (noReturn : front.getLast? ≠ some carriageReturn)
    (back : List UInt8) :
    ∃ blank, (blank = [] ∨ blank = [[]]) ∧
      linesOf (front ++ lineFeed :: back) = linesOf front ++ (blank ++ linesOf back) := by
  induction front using line_induction with
  | last input noFeed =>
    rw [linesOf_append_lineFeed noFeed, linesOf_of_not_mem noFeed, dropReturn_eq_self noReturn]
    by_cases empty : input = []
    · exact ⟨[[]], .inr rfl, by simp [empty]⟩
    · exact ⟨[], .inl rfl, by simp [empty]⟩
  | line piece rest noFeed inductionHypothesis =>
    have noReturnLater : rest.getLast? ≠ some carriageReturn := by
      cases rest with
      | nil => simp
      | cons first others => simpa using noReturn
    obtain ⟨blank, isBlank, lines⟩ := inductionHypothesis noReturnLater
    refine ⟨blank, isBlank, ?_⟩
    rw [List.append_assoc, List.cons_append, linesOf_append_lineFeed noFeed,
      linesOf_append_lineFeed noFeed, lines, List.cons_append]

end Behind

/-! ### Text -/

section Text

open Text (IsEncoding isEncoding_append_cons isSome_ofBytes?_iff ofBytes?)

variable {input piece : List UInt8}

theorem isEncoding_dropReturn : IsEncoding (dropReturn piece) ↔ IsEncoding piece := by
  by_cases ended : piece.getLast? = some carriageReturn
  · obtain ⟨front, rfl⟩ := List.getLast?_eq_some_iff.mp ended
    have isEmptyText : IsEncoding [] := ⟨[], rfl⟩
    simp [dropReturn, isEncoding_append_cons (show carriageReturn < 128 by decide), isEmptyText]
  · rw [dropReturn_eq_self ended]

/-- An input is text exactly when all its lines are. -/
theorem isSome_ofBytes?_iff_forall_linesOf :
    (ofBytes? input).isSome = true ↔ ∀ line ∈ linesOf input, (ofBytes? line).isSome = true := by
  simp only [isSome_ofBytes?_iff]
  induction input using line_induction with
  | last input noFeed =>
    rw [linesOf_of_not_mem noFeed]
    by_cases empty : input = []
    · simpa [empty] using ⟨[], rfl⟩
    · simp [empty]
  | line piece rest noFeed inductionHypothesis =>
    rw [linesOf_append_lineFeed noFeed, List.forall_mem_cons, isEncoding_append_cons (by decide),
      isEncoding_dropReturn, inductionHypothesis]

end Text

end PromptBlocks.Serving
