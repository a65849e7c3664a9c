import Mathlib.Data.List.Basic
import PromptBlocks.Proofs.Chain.Flattening

/-!
Contract: the chains that a builder makes of single steps.

Owns:
- building steps, and the segments of blocks between new chains;
- blocks that hold their successors, linked from the back and walked from the front;
- the builder after any steps, the chains it builds and the sequence it flattens them to.

Does not own: chains that are read from a document.
-/

namespace PromptBlocks

/-! ### Linked blocks -/

/-- A block that holds its successor, and with it the rest of its chain. -/
inductive LinkedBlock
  | mk (raw : ChainBlock) (next : Option LinkedBlock)

namespace LinkedBlock

/-- Link blocks from the last one to the first; no blocks make no chain. -/
def ofBlocks? (blocks : List ChainBlock) : Option LinkedBlock :=
  blocks.reverse.foldl (fun next raw => some (.mk raw next)) none

/-- The blocks from a block on, from successor to successor. -/
def walk : LinkedBlock → List ChainBlock
  | .mk raw none => [raw]
  | .mk raw (some next) => raw :: next.walk

/-- The chain that a block heads. -/
def chain : LinkedBlock → BlockChain
  | .mk raw next => { head := raw, successors := (next.map walk).getD [] }

theorem walk_mk (raw : ChainBlock) (next : Option LinkedBlock) :
    (mk raw next).walk = raw :: (next.map walk).getD [] := by
  cases next <;> rfl

theorem blocks_chain (linked : LinkedBlock) : linked.chain.blocks = linked.walk := by
  obtain ⟨raw, next⟩ := linked
  exact (walk_mk raw next).symm

theorem ofBlocks?_cons (raw : ChainBlock) (later : List ChainBlock) :
    ofBlocks? (raw :: later) = some (.mk raw (ofBlocks? later)) := by
  rw [ofBlocks?, List.reverse_cons, List.foldl_append]
  rfl

/-- Walking meets the blocks that were linked, in their order. -/
theorem walk_ofBlocks? (blocks : List ChainBlock) :
    ((ofBlocks? blocks).map walk).getD [] = blocks := by
  induction blocks with
  | nil => rfl
  | cons raw later inductionHypothesis =>
    rw [ofBlocks?_cons, Option.map_some, Option.getD_some, walk_mk, inductionHypothesis]

theorem map_chain_ofBlocks? (blocks : List ChainBlock) :
    (ofBlocks? blocks).map chain = BlockChain.ofBlocks? blocks := by
  cases blocks with
  | nil => rfl
  | cons raw later => rw [ofBlocks?_cons, Option.map_some, chain, walk_ofBlocks?, BlockChain.ofBlocks?]

end LinkedBlock

/-! ### Steps and segments -/

/-- One step of building: a block of any type, known or not, or the start of a new chain. -/
inductive BuilderStep
  | block (raw : ChainBlock)
  | newChain
  deriving DecidableEq, Repr

namespace BuilderStep

def apply (step : BuilderStep) (builder : ChainBuilder) : ChainBuilder :=
  match step with
  | .block raw => builder.block raw
  | .newChain => builder.newChain

/-- The segments of blocks between new chains, empty ones too. -/
def segmentsOf : List BuilderStep → List (List ChainBlock)
  | [] => [[]]
  | .block raw :: rest => (segmentsOf rest).modifyHead (raw :: ·)
  | .newChain :: rest => [] :: segmentsOf rest

/-- The steps that write segments, with a new chain between two of them. -/
def stepsOf (segments : List (List ChainBlock)) : List BuilderStep :=
  List.intercalate [.newChain] (segments.map (·.map .block))

theorem segmentsOf_ne_nil (steps : List BuilderStep) : segmentsOf steps ≠ [] := by
  induction steps with
  | nil => exact List.cons_ne_nil _ _
  | cons step rest inductionHypothesis =>
    cases step with
    | newChain => exact List.cons_ne_nil _ _
    | block raw =>
      rw [segmentsOf, Ne, List.modifyHead_eq_nil_iff]
      exact inductionHypothesis

theorem segmentsOf_blocks_append (blocks : List ChainBlock) (rest : List BuilderStep) :
    segmentsOf (blocks.map .block ++ rest) = (segmentsOf rest).modifyHead (blocks ++ ·) := by
  induction blocks with
  | nil => exact (congrFun List.modifyHead_id (segmentsOf rest)).symm
  | cons raw later inductionHypothesis =>
    rw [List.map_cons, List.cons_append, segmentsOf, inductionHypothesis, List.modifyHead_modifyHead]
    rfl

theorem stepsOf_modifyHead (raw : ChainBlock) {segments : List (List ChainBlock)}
    (nonempty : segments ≠ []) :
    stepsOf (segments.modifyHead (raw :: ·)) = .block raw :: stepsOf segments := by
  cases segments with
  | nil => exact absurd rfl nonempty
  | cons segment later =>
    rw [List.modifyHead_cons, stepsOf, stepsOf, List.map_cons, List.map_cons, List.map_cons,
      List.intercalate_cons_cons_left]

theorem stepsOf_segmentsOf (steps : List BuilderStep) : stepsOf (segmentsOf steps) = steps := by
  induction steps with
  | nil => rfl
  | cons step rest inductionHypothesis =>
    have nonempty := segmentsOf_ne_nil rest
    cases step with
    | block raw => rw [segmentsOf, stepsOf_modifyHead raw nonempty, inductionHypothesis]
    | newChain =>
      obtain ⟨segment, later, cut⟩ := List.exists_cons_of_ne_nil nonempty
      rw [cut] at inductionHypothesis
      rw [segmentsOf, cut, stepsOf, List.map_cons, List.map_cons, List.intercalate_cons_cons,
        ← List.map_cons, ← stepsOf, inductionHypothesis]
      rfl

theorem segmentsOf_stepsOf {segments : List (List ChainBlock)} (nonempty : segments ≠ []) :
    segmentsOf (stepsOf segments) = segments := by
  induction segments with
  | nil => exact absurd rfl nonempty
  | cons segment later inductionHypothesis =>
    cases later with
    | nil =>
      have alone := segmentsOf_blocks_append segment []
      rw [List.append_nil] at alone
      rw [stepsOf, List.map_singleton, List.intercalate_singleton, alone, segmentsOf,
        List.modifyHead_cons, List.append_nil]
    | cons next others =>
      rw [stepsOf, List.map_cons, List.map_cons, List.intercalate_cons_cons, List.append_assoc,
        List.singleton_append, segmentsOf_blocks_append, segmentsOf, ← List.map_cons, ← stepsOf,
        inductionHypothesis (List.cons_ne_nil _ _), List.modifyHead_cons, List.append_nil]

/-- Segments are those of given steps exactly when they are written by them. -/
theorem stepsOf_eq_iff {segments : List (List ChainBlock)} {steps : List BuilderStep} :
    segments ≠ [] ∧ stepsOf segments = steps ↔ segments = segmentsOf steps := by
  constructor
  · rintro ⟨nonempty, rfl⟩
    exact (segmentsOf_stepsOf nonempty).symm
  · rintro rfl
    exact ⟨segmentsOf_ne_nil steps, stepsOf_segmentsOf steps⟩

end BuilderStep

/-! ### The builder -/

namespace ChainBuilder

open BuilderStep

def run (builder : ChainBuilder) (steps : List BuilderStep) : ChainBuilder :=
  steps.foldl (fun building step => step.apply building) builder

/-- The chains as linked blocks. -/
def buildLinked (builder : ChainBuilder) : List LinkedBlock :=
  builder.segments.filterMap LinkedBlock.ofBlocks?

theorem appendToLast_concat (raw : ChainBlock) (closed : List (List ChainBlock))
    (last : List ChainBlock) :
    appendToLast raw (closed ++ [last]) = closed ++ [last ++ [raw]] := by
  induction closed with
  | nil => rfl
  | cons segment later inductionHypothesis =>
    obtain ⟨next, others, split⟩ :=
      List.exists_cons_of_ne_nil (List.append_ne_nil_of_right_ne_nil later (List.cons_ne_nil last []))
    rw [List.cons_append, split, appendToLast.eq_3 raw segment _ (List.cons_ne_nil _ _), ← split,
      inductionHypothesis, List.cons_append]

/-- Steps go on from the open segment: their first segment is put behind it. -/
theorem segments_run (steps : List BuilderStep) (closed : List (List ChainBlock))
    (last : List ChainBlock) :
    (run ⟨closed ++ [last]⟩ steps).segments =
      closed ++ (segmentsOf steps).modifyHead (last ++ ·) := by
  -- A block makes the open segment longer and a new chain closes it, so both vary with the steps.
  induction steps generalizing closed last with
  | nil =>
    rw [segmentsOf, List.modifyHead_cons, List.append_nil]
    rfl
  | cons step rest inductionHypothesis =>
    cases step with
    | block raw =>
      have stepped : run ⟨closed ++ [last]⟩ (.block raw :: rest) =
          run ⟨closed ++ [last ++ [raw]]⟩ rest := by
        rw [← appendToLast_concat]
        rfl
      rw [stepped, inductionHypothesis, segmentsOf, List.modifyHead_modifyHead]
      refine congrArg (fun change => closed ++ (segmentsOf rest).modifyHead change) ?_
      funext segment
      exact List.append_assoc last [raw] segment
    | newChain =>
      have stepped : run ⟨closed ++ [last]⟩ (.newChain :: rest) =
          run ⟨(closed ++ [last]) ++ [[]]⟩ rest :=
        rfl
      rw [stepped, inductionHypothesis, segmentsOf, List.modifyHead_cons, List.append_nil,
        List.append_assoc, List.singleton_append]
      exact congrArg (fun segments => closed ++ last :: segments)
        (congrFun List.modifyHead_id (segmentsOf rest))

theorem segments_run_fresh (steps : List BuilderStep) : (fresh.run steps).segments = segmentsOf steps := by
  have ran := segments_run steps [] []
  rw [List.nil_append] at ran
  exact ran.trans (congrFun List.modifyHead_id (segmentsOf steps))

/-- The blocks of the chains that are built: the segments that hold a block. -/
def filled (segments : List (List ChainBlock)) : List (List ChainBlock) :=
  segments.filter fun segment => !segment.isEmpty

/-- A builder that has no segment at the start differs by an empty segment at most. -/
theorem filled_segments_run_unopened (steps : List BuilderStep) :
    filled (unopened.run steps).segments = filled (segmentsOf steps) := by
  cases steps with
  | nil => rfl
  | cons step rest =>
    cases step with
    | block raw =>
      -- The first block opens a segment, just as in a builder that has an empty one.
      have opened : unopened.run (.block raw :: rest) = fresh.run (.block raw :: rest) := rfl
      rw [opened, segments_run_fresh]
    | newChain =>
      have opened : unopened.run (.newChain :: rest) = fresh.run rest := rfl
      rw [opened, segments_run_fresh, segmentsOf]
      rfl

/-- Each chain that is built holds the blocks of its segment. -/
theorem map_blocks_build (builder : ChainBuilder) :
    builder.build.map BlockChain.blocks = filled builder.segments := by
  have blocksOf : ∀ segment : List ChainBlock,
      (BlockChain.ofBlocks? segment).map BlockChain.blocks =
        Option.guard (fun segment => !segment.isEmpty) segment := by
    intro segment
    cases segment <;> rfl
  rw [build, List.map_filterMap, funext blocksOf, List.filterMap_eq_filter, filled]

theorem map_chain_buildLinked (builder : ChainBuilder) :
    builder.buildLinked.map LinkedBlock.chain = builder.build := by
  rw [buildLinked, List.map_filterMap, funext LinkedBlock.map_chain_ofBlocks?, build]

theorem map_walk_buildLinked (builder : ChainBuilder) :
    builder.buildLinked.map LinkedBlock.walk = filled builder.segments := by
  rw [← map_blocks_build, ← map_chain_buildLinked, List.map_map]
  exact List.map_congr_left fun linked _ => linked.blocks_chain.symm

/-- Flattening numbers the chains as they are built. -/
theorem tokens_linearize (builder : ChainBuilder) :
    builder.linearize.tokens =
      (filled builder.segments).zipIdx.flatMap fun (segment, chain) =>
        segment.filterMap (ChainBlock.token? chain) := by
  have flattened := congrArg Sequence.tokens (Sequence.ofChains_allTopBlocks builder.build)
  rw [map_blocks_build] at flattened
  exact flattened

/-- A builder makes a chain of each segment that holds a block, and of nothing else.  Its segments are the
stretches of blocks between the new chains of its steps, wherever these stand, and whether it starts with
an open segment or with none.  Linked from the back and walked from the front, each chain gives back the
blocks of its segment.  Flattened, a chain has its place among those segments for a number, also when no
block in front of it is known. -/
theorem build_chains_segments (start : ChainBuilder) (isStart : start = fresh ∨ start = unopened)
    (steps : List BuilderStep) :
    let segments := segmentsOf steps
    let built := start.run steps
    (∀ others, others ≠ [] ∧ stepsOf others = steps ↔ others = segments) ∧
      built.build.map BlockChain.blocks = filled segments ∧
      built.buildLinked.map LinkedBlock.chain = built.build ∧
      built.buildLinked.map LinkedBlock.walk = filled segments ∧
      built.linearize.tokens =
        (filled segments).zipIdx.flatMap fun (segment, chain) =>
          segment.filterMap (ChainBlock.token? chain) := by
  intro segments built
  have sameFilled : filled built.segments = filled segments := by
    rcases isStart with rfl | rfl
    · exact congrArg filled (segments_run_fresh steps)
    · exact filled_segments_run_unopened steps
  refine ⟨fun others => stepsOf_eq_iff, ?_, built.map_chain_buildLinked, ?_, ?_⟩
  · rw [map_blocks_build, sameFilled]
  · rw [map_walk_buildLinked, sameFilled]
  · rw [tokens_linearize, sameFilled]

/-- New chains in front, twice in a row and at the end leave no chain behind; a chain of unknown blocks is
one all the same, and takes a number. -/
theorem build_chains_segments_of_gaps :
    let noun : ChainBlock := ⟨"promps_noun", some "A"⟩
    let unknown : ChainBlock := ⟨"promps_mystery", none⟩
    let particle : ChainBlock := ⟨"promps_particle_wo", none⟩
    let steps : List BuilderStep :=
      [.newChain, .block noun, .newChain, .newChain, .block unknown, .newChain, .block particle,
        .block unknown, .newChain]
    let built := unopened.run steps
    segmentsOf steps = [[], [noun], [], [unknown], [particle, unknown], []] ∧
      built.build.map BlockChain.blocks = [[noun], [unknown], [particle, unknown]] ∧
      built.linearize.tokens = [⟨.noun, some "A", 0⟩, ⟨.particle .wo, none, 2⟩] := by
  intro noun unknown particle steps built
  obtain ⟨-, chains, -, -, tokens⟩ := build_chains_segments unopened (.inr rfl) steps
  exact ⟨rfl, chains.trans (by decide), tokens.trans (by decide)⟩

end ChainBuilder

end PromptBlocks
