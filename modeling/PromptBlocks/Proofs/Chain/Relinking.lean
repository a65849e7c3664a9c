import PromptBlocks.Chain.Basic
import PromptBlocks.Prompt
import PromptBlocks.Proofs.Chain.Flattening
import PromptBlocks.Proofs.Grammar.Sight
import PromptBlocks.Proofs.Script.RoundTrip
import PromptBlocks.Proofs.Vocabulary.Ids

/-!
Contract: sequences taken apart into chains and flattened again.

Owns:
- the relinked sequence: the runs in order, numbered, and their tokens as blocks make them;
- the sequences that relinking leaves as they are;
- checks, scripts and prompts, which cannot tell a sequence from the relinked one.

Does not own: chains that an editor sends.
-/

namespace PromptBlocks

open Sequence

namespace Token

/-- The token that the block of a token makes anew: fixed words drop a text. -/
def rebuilt (token : Token) : Token :=
  ofBlock token.block token.text

/-- A text that a fixed word drops is not written anyway. -/
theorem surface_rebuilt (token : Token) (locale : Locale) :
    token.rebuilt.surface locale = token.surface locale := by
  obtain ⟨block, text, chain⟩ := token
  cases block <;> rfl

theorem token?_toChainBlock (token : Token) (chain : Nat) :
    ChainBlock.token? chain token.toChainBlock = some (token.rebuilt.inChain chain) := by
  rw [ChainBlock.token?, toChainBlock, Block.ofId?_id]
  rfl

end Token

namespace Sequence

/-- The sequence whose chains are flattened again, every head of them. -/
def relinked (sequence : Sequence) : Sequence :=
  ofChains sequence.toChains .allTopBlocks

def rebuiltRuns (sequence : Sequence) : List (List Token) :=
  sequence.runs.map (·.map Token.rebuilt)

variable {sequence : Sequence}

theorem rebuiltRuns_ne_nil (sequence : Sequence) : ∀ run ∈ sequence.rebuiltRuns, run ≠ [] := by
  intro run member
  obtain ⟨source, inside, rfl⟩ := List.mem_map.mp member
  exact fun empty => ne_nil_of_mem_runs inside (List.map_eq_nil_iff.mp empty)

/-- The chains of a sequence hold the blocks of its runs. -/
theorem map_blocks_toChains (sequence : Sequence) :
    sequence.toChains.map BlockChain.blocks = sequence.runs.map (·.map Token.toChainBlock) := by
  rw [toChains, List.map_filterMap]
  refine (List.filterMap_congr fun run member => ?_).trans (congrFun List.filterMap_eq_map _)
  cases run with
  | nil => exact absurd rfl (ne_nil_of_mem_runs member)
  | cons token rest => rfl

theorem relinked_eq_ofRuns (sequence : Sequence) : sequence.relinked = ofRuns sequence.rebuiltRuns := by
  rw [relinked, ofChains_allTopBlocks, map_blocks_toChains, List.zipIdx_map, List.flatMap_map, ofRuns,
    numbered, rebuiltRuns, List.zipIdx_map, List.map_map, List.flatMap_def]
  refine congrArg (fun runs => Sequence.mk (List.flatten runs)) (List.map_congr_left ?_)
  rintro ⟨run, chain⟩ -
  show (run.map Token.toChainBlock).filterMap (ChainBlock.token? chain) =
    (run.map Token.rebuilt).map (·.inChain chain)
  rw [List.filterMap_map, List.map_map, ← List.filterMap_eq_map]
  exact List.filterMap_congr fun token _ => token.token?_toChainBlock chain

theorem tokens_relinked (sequence : Sequence) :
    sequence.relinked.tokens =
      sequence.runs.zipIdx.flatMap fun (run, chain) =>
        run.map fun token => token.rebuilt.inChain chain := by
  rw [relinked_eq_ofRuns, ofRuns, numbered, rebuiltRuns, List.zipIdx_map, List.map_map,
    List.flatMap_def]
  refine congrArg List.flatten (List.map_congr_left ?_)
  rintro ⟨run, chain⟩ -
  exact List.map_map

theorem runs_relinked (sequence : Sequence) :
    sequence.relinked.runs = numbered 0 sequence.rebuiltRuns := by
  rw [relinked_eq_ofRuns, runs_ofRuns sequence.rebuiltRuns_ne_nil]

/-! ### Sequences that stay as they are -/

/-- Only free words carry a text. -/
def HasNoStrayText (sequence : Sequence) : Prop :=
  ∀ token ∈ sequence.tokens, token.block.isFreeText = false → token.text = none

theorem rebuilt_of_noStray {token : Token}
    (noStray : token.block.isFreeText = false → token.text = none) :
    token.rebuilt = token.inChain 0 := by
  obtain ⟨block, text, chain⟩ := token
  cases free : block.isFreeText with
  | true => simp [Token.rebuilt, Token.ofBlock, Token.inChain, free]
  | false =>
    obtain rfl : text = none := noStray free
    simp [Token.rebuilt, Token.ofBlock, Token.inChain]

theorem relinked_eq_self (runsNumbered : sequence.RunsNumbered)
    (noStray : sequence.HasNoStrayText) : sequence.relinked = sequence := by
  have unchanged : sequence.rebuiltRuns = sequence.runs.map (·.map (·.inChain 0)) := by
    refine List.map_congr_left fun run member => List.map_congr_left fun token inRun => ?_
    exact rebuilt_of_noStray (noStray token (mem_tokens_of_mem_runs member inRun))
  rw [relinked_eq_ofRuns, unchanged, ofRuns_inChain, ofRuns_runs runsNumbered]

theorem runsNumbered_relinked (sequence : Sequence) : sequence.relinked.RunsNumbered := by
  rw [relinked_eq_ofRuns]
  exact runsNumbered_ofRuns sequence.rebuiltRuns_ne_nil

theorem hasNoStrayText_relinked (sequence : Sequence) : sequence.relinked.HasNoStrayText := by
  intro token member notFree
  rw [tokens_relinked] at member
  obtain ⟨⟨run, chain⟩, -, inRun⟩ := List.mem_flatMap.mp member
  obtain ⟨original, -, rfl⟩ := List.mem_map.mp inRun
  have fixed : original.block.isFreeText = false := notFree
  simp [Token.rebuilt, Token.ofBlock, Token.inChain, fixed]

/-! ### Readers that cannot tell -/

theorem alike_numbered {runs : List (List Token)} (cut : IsCut runs) (first : Nat) :
    Alike runs.flatten (numbered first (runs.map (·.map Token.rebuilt))).flatten := by
  induction cut generalizing first with
  | nil => exact .nil
  | @cons chain run later nonempty ofChain apart rest inductionHypothesis =>
    have sameBlocks : run.map Token.block =
        ((run.map Token.rebuilt).map (·.inChain first)).map Token.block := by
      rw [List.map_map, List.map_map]
      rfl
    have numberedOf : ∀ token ∈ (run.map Token.rebuilt).map (·.inChain first), token.chain = first := by
      intro token member
      obtain ⟨_, -, rfl⟩ := List.mem_map.mp member
      rfl
    have laterFilled : ∀ run ∈ later.map (·.map Token.rebuilt), run ≠ [] := by
      intro run member
      obtain ⟨source, inside, rfl⟩ := List.mem_map.mp member
      exact fun empty => rest.ne_nil source inside (List.map_eq_nil_iff.mp empty)
    have numberedApart : ∀ token ∈
        (numbered (first + 1) (later.map (·.map Token.rebuilt))).flatten.head?,
        token.chain = first + 1 := chain_of_head?_numbered laterFilled
    rw [List.map_cons, numbered_cons, List.flatten_cons, List.flatten_cons]
    refine .append (.of_map_block sameBlocks ofChain numberedOf) (inductionHypothesis (first + 1)) ?_
    -- Neither run goes on behind its end: another chain follows, or nothing does.
    intro leftLast isLeftLast rightLast isRightLast
    refine (inductionHypothesis (first + 1)).sameJoin_of_apart ?_ ?_
    · rw [ofChain leftLast (List.mem_of_getLast? isLeftLast)]
      exact apart
    · intro next isNext
      rw [numberedOf rightLast (List.mem_of_getLast? isRightLast), numberedApart next isNext]
      exact Nat.succ_ne_self first

theorem alike_relinked (sequence : Sequence) : Alike sequence.tokens sequence.relinked.tokens := by
  have alike := alike_numbered (isCut_runsOf sequence.tokens) 0
  rw [flatten_runsOf] at alike
  rw [relinked_eq_ofRuns]
  exact alike

/-- What is read off runs without a look at texts that are not written, or at chains, is read off the
relinked runs. -/
theorem map_runs_relinked {Reading : Type} {read : List Token → Reading}
    (blind : ∀ chain run, read (run.map fun token => token.rebuilt.inChain chain) = read run)
    (sequence : Sequence) : sequence.relinked.runs.map read = sequence.runs.map read := by
  rw [runs_relinked, numbered, rebuiltRuns, List.zipIdx_map, List.map_map, List.map_map]
  conv_rhs => rw [← List.zipIdx_map_fst 0 sequence.runs, List.map_map]
  refine List.map_congr_left ?_
  rintro ⟨run, chain⟩ -
  show read ((run.map Token.rebuilt).map (·.inChain chain)) = read run
  rw [List.map_map]
  exact blind chain run

theorem write_relinked (sequence : Sequence) (locale : Locale) :
    Script.write sequence.relinked locale = Script.write sequence locale := by
  have blind : ∀ chain run, Script.line locale (run.map fun token => token.rebuilt.inChain chain) =
      Script.line locale run := by
    intro chain run
    rw [Script.line, Script.line, List.filterMap_map]
    refine congrArg (List.intercalate [' ']) (List.filterMap_congr fun token _ => ?_)
    have sameSurface : (token.rebuilt.inChain chain).surface locale = token.surface locale :=
      token.surface_rebuilt locale
    show Script.wordOf? locale (token.rebuilt.inChain chain) = Script.wordOf? locale token
    unfold Script.wordOf?
    rw [sameSurface]
    rfl
  rw [Script.write, Script.write, map_runs_relinked blind]

theorem sentence_rebuilt (locale : Locale) (chain : Nat) (run : List Token) :
    Prompt.sentence locale (run.map fun token => token.rebuilt.inChain chain) =
      Prompt.sentence locale run := by
  have sameSurfaces : (run.map fun token => token.rebuilt.inChain chain).map
        (fun token => Text.trim (token.surface locale).toList) =
      run.map fun token => Text.trim (token.surface locale).toList := by
    rw [List.map_map]
    refine List.map_congr_left fun token _ => ?_
    exact congrArg (fun surface => Text.trim surface.toList) (token.surface_rebuilt locale)
  rw [Prompt.sentence, Prompt.sentence, sameSurfaces]

theorem render_relinked (sequence : Sequence) (locale : Locale) :
    Prompt.render sequence.relinked locale = Prompt.render sequence locale := by
  rw [Prompt.render, Prompt.render, map_runs_relinked (sentence_rebuilt locale)]

theorem annotated_relinked (sequence : Sequence) (locale : Locale) :
    Prompt.annotated sequence.relinked locale = Prompt.annotated sequence locale := by
  have blind : ∀ chain run,
      Prompt.annotatedLine locale (run.map fun token => token.rebuilt.inChain chain) =
        Prompt.annotatedLine locale run := by
    intro chain run
    rw [Prompt.annotatedLine, Prompt.annotatedLine, sentence_rebuilt, List.any_map]
    rfl
  rw [Prompt.annotated, Prompt.annotated, List.flatMap_def, List.flatMap_def, map_runs_relinked blind]

/-- Relinking keeps what a sequence means.  Token by token it keeps the blocks, the texts of free words and
the positions; the texts of fixed words go, and each run has its place among the runs for a chain.  So a
sequence that is in this form already stays as it is, and to relink again changes nothing.  Checks, scripts
and prompts are the same before and after, in every language. -/
theorem relinking_keeps_meaning (sequence : Sequence) :
    sequence.runs.flatten = sequence.tokens ∧
      (sequence.relinked.tokens =
        sequence.runs.zipIdx.flatMap fun (run, chain) =>
          run.map fun token =>
            { block := token.block
              text := if token.block.isFreeText then token.text else none
              chain }) ∧
      sequence.relinked.tokens.map Token.block = sequence.tokens.map Token.block ∧
      sequence.relinked.length = sequence.length ∧
      sequence.relinked.placed.map PlacedToken.position = List.range sequence.length ∧
      (sequence.RunsNumbered → sequence.HasNoStrayText → sequence.relinked = sequence) ∧
      sequence.relinked.relinked = sequence.relinked ∧
      (∀ grammar display,
        Grammar.check sequence.relinked grammar display = Grammar.check sequence grammar display) ∧
      ∀ locale,
        Script.write sequence.relinked locale = Script.write sequence locale ∧
          Prompt.render sequence.relinked locale = Prompt.render sequence locale ∧
          Prompt.annotated sequence.relinked locale = Prompt.annotated sequence locale := by
  have alike := sequence.alike_relinked
  have sameLength : sequence.relinked.length = sequence.length := by
    have lengths := congrArg List.length alike.map_block
    rw [List.length_map, List.length_map] at lengths
    exact lengths.symm
  refine ⟨flatten_runsOf _, sequence.tokens_relinked, alike.map_block.symm, sameLength, ?_,
    relinked_eq_self, ?_, ?_, ?_⟩
  · rw [map_position_placed, sameLength]
  · exact relinked_eq_self sequence.runsNumbered_relinked sequence.hasNoStrayText_relinked
  · intro grammar display
    exact (Grammar.check_congr alike grammar display).symm
  · intro locale
    exact ⟨sequence.write_relinked locale, sequence.render_relinked locale,
      sequence.annotated_relinked locale⟩

/-- A chain that is met again behind another one is a run of its own; a stray text goes. -/
example :
    relinked ⟨[⟨.noun, some "a", 5⟩, ⟨.particle .ga, some "b", 2⟩, ⟨.noun, some "c", 5⟩]⟩ =
      ⟨[⟨.noun, some "a", 0⟩, ⟨.particle .ga, none, 1⟩, ⟨.noun, some "c", 2⟩]⟩ := by
  decide

end Sequence

end PromptBlocks
