import PromptBlocks.Host.Request

/-!
Contract: the serving of an input, one response for each line.

Owns:
- the lines of a byte input;
- the responses to an input up to its end, or to the first line that is no text.

Does not own: where the bytes come from.
-/

namespace PromptBlocks

namespace Serving

/-- The lines of an input: what stands before each line feed, less a carriage return directly before
it, and what stands behind the last one unless that is nothing. -/
def linesOf : List UInt8 → List (List UInt8)
  | [] => []
  | 13 :: 10 :: rest => [] :: linesOf rest
  | 10 :: rest => [] :: linesOf rest
  | byte :: rest =>
    match linesOf rest with
    | [] => [[byte]]
    | line :: later => (byte :: line) :: later

/-- The response to a line; a blank line has none. -/
def answerLine (host : Host) (line : String) : Host × Option Response :=
  if Text.isAllBlank line then (host, none)
  else
    let (changed, response) := host.handleLine line
    (changed, some response)

structure Outcome where
  host : Host
  responses : List Response
  isComplete : Bool

/-- Answer lines in order, up to the first that is no text. -/
def answerLines (host : Host) : List (List UInt8) → Outcome
  | [] => { host, responses := [], isComplete := true }
  | bytes :: later =>
    match Text.ofBytes? bytes with
    | none => { host, responses := [], isComplete := false }
    | some line =>
      let (changed, response) := answerLine host line
      let rest := answerLines changed later
      { rest with responses := response.toList ++ rest.responses }

end Serving

def Host.serveInput (host : Host) (input : List UInt8) : Serving.Outcome :=
  Serving.answerLines host (Serving.linesOf input)

end PromptBlocks
