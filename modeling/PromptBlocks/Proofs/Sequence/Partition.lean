import Mathlib.Data.List.Basic
import PromptBlocks.Proofs.Sequence.Neighbours
import PromptBlocks.Proofs.Sequence.Runs

/-!
Contract: the runs of a sequence as its one partition by chains.

Owns:
- partitions of tokens into slices of one chain that cannot be joined, and their uniqueness;
- a scan for runs from the front, which closes a run at the index behind its end;
- which positions fall into one run.

Does not own: what is read off runs.
-/

namespace PromptBlocks

namespace Sequence

/-- Slices that make up the tokens: each holds tokens, all of one chain, and slices beside each other are
of different chains. -/
structure IsPartition (tokens : List Token) (slices : List (List Token)) : Prop where
  whole : slices.flatten = tokens
  filled : ∀ slice ∈ slices, slice ≠ []
  ofOneChain : ∀ slice ∈ slices, ∃ chain, ∀ token ∈ slice, token.chain = chain
  apart : slices.IsChain fun front back =>
    ∀ token ∈ front, ∀ next ∈ back, token.chain ≠ next.chain

variable {tokens : List Token} {slices runs : List (List Token)}

/-- The runs of the tokens of a cut are the cut itself. -/
theorem IsCut.runsOf_flatten (cut : IsCut runs) : runsOf runs.flatten = runs := by
  induction cut with
  | nil => rfl
  | cons nonempty ofChain apart _ inductionHypothesis =>
    rw [List.flatten_cons, runsOf_append nonempty ofChain apart, inductionHypothesis]

theorem IsCut.ofOneChain (cut : IsCut runs) :
    ∀ run ∈ runs, ∃ chain, ∀ token ∈ run, token.chain = chain := by
  induction cut with
  | nil => exact List.forall_mem_nil _
  | cons _ ofChain _ _ inductionHypothesis =>
    exact List.forall_mem_cons.mpr ⟨⟨_, ofChain⟩, inductionHypothesis⟩

theorem IsCut.isChain (cut : IsCut runs) :
    runs.IsChain fun front back => ∀ token ∈ front, ∀ next ∈ back, token.chain ≠ next.chain := by
  induction cut with
  | nil => exact .nil
  | @cons chain run later _ ofChain apart rest inductionHypothesis =>
    cases rest with
    | nil => exact .singleton run
    | @cons nextChain next others nextFilled ofNextChain =>
      obtain ⟨head, tail, rfl⟩ := List.exists_cons_of_ne_nil nextFilled
      have headApart : head.chain ≠ chain := apart head rfl
      refine .cons_cons (fun token inRun other inNext => ?_) inductionHypothesis
      rw [ofChain token inRun, ofNextChain other inNext,
        ← ofNextChain head List.mem_cons_self]
      exact headApart.symm

theorem IsPartition.isCut (partition : IsPartition tokens slices) : IsCut slices := by
  obtain ⟨-, filled, ofOneChain, apart⟩ := partition
  induction slices with
  | nil => exact .nil
  | cons slice later inductionHypothesis =>
    obtain ⟨sliceFilled, laterFilled⟩ := List.forall_mem_cons.mp filled
    obtain ⟨⟨chain, ofChain⟩, laterOf⟩ := List.forall_mem_cons.mp ofOneChain
    refine .cons sliceFilled ofChain ?_ (inductionHypothesis laterFilled laterOf apart.of_cons)
    intro next isNext
    cases later with
    | nil => cases isNext
    | cons back others =>
      obtain ⟨head, tail, rfl⟩ := List.exists_cons_of_ne_nil (laterFilled back List.mem_cons_self)
      obtain rfl := Option.some.inj isNext
      obtain ⟨token, inSlice⟩ := List.exists_mem_of_ne_nil slice sliceFilled
      have beside := (List.isChain_cons_cons.mp apart).1 token inSlice head List.mem_cons_self
      rw [ofChain token inSlice] at beside
      exact beside.symm

/-- The runs are a partition, and there is no other. -/
theorem isPartition_iff : IsPartition tokens slices ↔ slices = runsOf tokens := by
  constructor
  · intro partition
    rw [← partition.whole, partition.isCut.runsOf_flatten]
  · rintro rfl
    have cut := isCut_runsOf tokens
    exact
      { whole := flatten_runsOf tokens
        filled := cut.ne_nil
        ofOneChain := cut.ofOneChain
        apart := cut.isChain }

end Sequence

/-! ### The scan -/

/-- A scan for runs: where the open run starts, and the runs that are closed. -/
structure RunScan where
  start : Nat
  closed : List (List Token)

namespace RunScan

open Sequence

/-- Look at an index behind the start.  Where the tokens end or another chain begins, the open run is
closed in front of the index, and the next one starts there. -/
def step (tokens : List Token) (scan : RunScan) (index : Nat) : RunScan :=
  if index = tokens.length ∨
      tokens[index]?.map Token.chain ≠ tokens[scan.start]?.map Token.chain then
    { start := index, closed := scan.closed ++ [(tokens.take index).drop scan.start] }
  else scan

/-- The scan of tokens, from the index behind the first token to the one behind the last. -/
def ofTokens (tokens : List Token) : RunScan :=
  (List.range' 1 tokens.length).foldl (step tokens) { start := 0, closed := [] }

/-- What holds before an index is looked at: the run that starts at `start` has reached the index, and
with the runs of the tokens from there on, the closed runs are all runs.  Behind the last index nothing is
left open. -/
structure Reaches (tokens : List Token) (index : Nat) (scan : RunScan) : Prop where
  started : scan.start < index
  ofOneChain : ∀ position, scan.start ≤ position → position < index →
    tokens[position]?.map Token.chain = tokens[scan.start]?.map Token.chain
  closed : scan.closed ++ runsOf (tokens.drop scan.start) = runsOf tokens
  finished : tokens.length < index → scan.start = tokens.length

variable {tokens : List Token} {scan : RunScan} {index : Nat}

/-- A run closed in front of an index is the first run of the tokens from its start on. -/
theorem Reaches.runsOf_drop_start (reaches : Reaches tokens index scan) (inside : index ≤ tokens.length)
    (ends : index = tokens.length ∨
      tokens[index]?.map Token.chain ≠ tokens[scan.start]?.map Token.chain) :
    runsOf (tokens.drop scan.start) =
      (tokens.take index).drop scan.start :: runsOf (tokens.drop index) := by
  have startInside : scan.start < tokens.length := Nat.lt_of_lt_of_le reaches.started inside
  have first : tokens[scan.start]? = some tokens[scan.start] := List.getElem?_eq_getElem startInside
  have split : (tokens.take index).drop scan.start ++ tokens.drop index = tokens.drop scan.start := by
    have upTo : scan.start + (index - scan.start) = index :=
      Nat.add_sub_of_le (Nat.le_of_lt reaches.started)
    have behind : tokens.drop index = (tokens.drop scan.start).drop (index - scan.start) := by
      rw [List.drop_drop, upTo]
    rw [List.drop_take, behind, List.take_append_drop]
  have filled : (tokens.take index).drop scan.start ≠ [] := by
    have started := reaches.started
    rw [Ne, List.drop_eq_nil_iff, List.length_take]
    omega
  have ofChain : ∀ token ∈ (tokens.take index).drop scan.start,
      token.chain = tokens[scan.start].chain := by
    intro token member
    obtain ⟨offset, found⟩ := List.mem_iff_getElem?.mp member
    rw [List.getElem?_drop, List.getElem?_take] at found
    split at found
    · next before =>
      have same := reaches.ofOneChain (scan.start + offset) (Nat.le_add_right _ _) before
      rw [found, first] at same
      exact Option.some.inj same
    · cases found
  have apart : ∀ next ∈ (tokens.drop index).head?, next.chain ≠ tokens[scan.start].chain := by
    intro next isNext
    rw [List.head?_drop, Option.mem_def] at isNext
    rcases ends with rfl | differs
    · rw [List.getElem?_eq_none (Nat.le_refl _)] at isNext
      cases isNext
    · rw [isNext, first] at differs
      exact fun same => differs (congrArg some same)
  rw [← split, runsOf_append filled ofChain apart]

theorem Reaches.step (reaches : Reaches tokens index scan) (inside : index ≤ tokens.length) :
    Reaches tokens (index + 1) (scan.step tokens index) := by
  rw [RunScan.step]
  split
  · next ends =>
    refine ⟨Nat.lt_succ_self index, ?_, ?_, fun behind => ?_⟩
    · intro position from_ before
      obtain rfl : position = index := Nat.le_antisymm (Nat.le_of_lt_succ before) from_
      rfl
    · rw [List.append_assoc, List.singleton_append, ← reaches.runsOf_drop_start inside ends,
        reaches.closed]
    · show index = tokens.length
      omega
  · next goesOn =>
    obtain ⟨notEnd, same⟩ := not_or.mp goesOn
    refine ⟨Nat.lt_succ_of_lt reaches.started, ?_, reaches.closed, fun behind => ?_⟩
    · intro position from_ before
      rcases Nat.lt_or_eq_of_le (Nat.le_of_lt_succ before) with earlier | rfl
      · exact reaches.ofOneChain position from_ earlier
      · exact not_not.mp same
    · omega

theorem Reaches.run (reaches : Reaches tokens index scan) (count : Nat)
    (inside : index + count ≤ tokens.length + 1) :
    Reaches tokens (index + count) ((List.range' index count).foldl (RunScan.step tokens) scan) := by
  induction count generalizing index scan with
  | zero => exact reaches
  | succ count inductionHypothesis =>
    have stepped := reaches.step (by omega)
    have ran := inductionHypothesis stepped (by omega)
    rw [List.range'_succ, List.foldl_cons]
    rwa [Nat.add_assoc, Nat.add_comm 1 count] at ran

/-- The scan closes all runs. -/
theorem closed_ofTokens (tokens : List Token) : (ofTokens tokens).closed = runsOf tokens := by
  have begun : Reaches tokens 1 { start := 0, closed := [] } :=
    { started := Nat.zero_lt_one
      ofOneChain := fun position _ before => by rw [Nat.lt_one_iff.mp before]
      closed := rfl
      finished := fun empty => (Nat.lt_one_iff.mp empty).symm }
  have ended : Reaches tokens (1 + tokens.length) (ofTokens tokens) :=
    begun.run tokens.length (Nat.le_of_eq (Nat.add_comm _ _))
  have closed := ended.closed
  rw [ended.finished (by omega), List.drop_length, runsOf, List.append_nil] at closed
  exact closed

end RunScan

namespace Sequence

/-! ### Positions of one run -/

/-- Two positions fall into one run, counted from the position at which that run starts. -/
def SharesRun (sequence : Sequence) (first last : Nat) : Prop :=
  ∃ entry ∈ sequence.startedRuns, entry.1 ≤ first ∧ last < entry.1 + entry.2.length

theorem start_le_of_mem_startsFrom {start : Nat} {runs : List (List Token)} {entry : Nat × List Token}
    (member : entry ∈ startsFrom start runs) : start ≤ entry.1 := by
  induction runs generalizing start with
  | nil => cases member
  | cons run later inductionHypothesis =>
    rcases List.mem_cons.mp member with rfl | behind
    · exact Nat.le_refl start
    · exact Nat.le_trans (Nat.le_add_right start run.length) (inductionHypothesis behind)

section Cut

variable {chain first last : Nat} {run : List Token} {later : List (List Token)}

/-- From a position of the first run on, tokens are of one chain up to the end of that run. -/
theorem oneRun_of_front (ofChain : ∀ token ∈ run, token.chain = chain)
    (apart : ∀ next ∈ later.flatten.head?, next.chain ≠ chain) (inside : first < run.length)
    (ordered : first ≤ last) :
    OneRun ⟨run ++ later.flatten⟩ first last ↔ last < run.length := by
  have chainAt : ∀ position, position < run.length →
      chainAt? ⟨run ++ later.flatten⟩ position = some chain := by
    intro position before
    rw [chainAt?, List.getElem?_append_left before, List.getElem?_eq_getElem before, Option.map_some,
      ofChain _ (List.getElem_mem before)]
  constructor
  · rintro ⟨shared, sameChain⟩
    by_contra beyond
    have own := sameChain first (Nat.le_refl first) ordered
    have behind := sameChain run.length (Nat.le_of_lt inside) (Nat.le_of_not_lt beyond)
    rw [chainAt first inside] at own
    rw [chainAt?, List.getElem?_append_right (Nat.le_refl _), Nat.sub_self,
      ← List.head?_eq_getElem?] at behind
    obtain ⟨next, isNext, nextChain⟩ := Option.map_eq_some_iff.mp behind
    exact apart next isNext (nextChain.trans (Option.some.inj own).symm)
  · intro within
    exact ⟨chain, fun position _ upTo => chainAt position (Nat.lt_of_le_of_lt upTo within)⟩

/-- Behind the first run, positions count from its end. -/
theorem oneRun_behind_front :
    OneRun ⟨run ++ later.flatten⟩ (run.length + first) (run.length + last) ↔
      OneRun ⟨later.flatten⟩ first last := by
  have moved : ∀ position, chainAt? ⟨run ++ later.flatten⟩ (run.length + position) =
      chainAt? ⟨later.flatten⟩ position := by
    intro position
    rw [chainAt?, chainAt?, List.getElem?_append_right (Nat.le_add_right _ _),
      Nat.add_sub_cancel_left]
  constructor
  · rintro ⟨chain, sameChain⟩
    refine ⟨chain, fun position from_ upTo => ?_⟩
    rw [← moved]
    exact sameChain (run.length + position) (by omega) (by omega)
  · rintro ⟨chain, sameChain⟩
    refine ⟨chain, fun position from_ upTo => ?_⟩
    obtain ⟨offset, rfl⟩ := Nat.exists_eq_add_of_le (show run.length ≤ position by omega)
    rw [moved]
    exact sameChain offset (by omega) (by omega)

end Cut

/-- Positions of a cut fall into one run exactly when no token from the one to the other is of another
chain. -/
theorem IsCut.exists_mem_startsFrom_iff {runs : List (List Token)} (cut : IsCut runs)
    (start : Nat) {first last : Nat} (ordered : first ≤ last) :
    (∃ entry ∈ startsFrom start runs,
        entry.1 ≤ start + first ∧ start + last < entry.1 + entry.2.length) ↔
      OneRun ⟨runs.flatten⟩ first last := by
  induction cut generalizing start first last with
  | nil =>
    constructor
    · rintro ⟨entry, member, -⟩
      cases member
    · rintro ⟨chain, sameChain⟩
      cases sameChain first (Nat.le_refl first) ordered
  | @cons chain run later _ ofChain apart _ inductionHypothesis =>
    rw [startsFrom, List.exists_mem_cons_iff, List.flatten_cons]
    -- From inside the first run only that run counts, and from behind it only the others do.
    rcases Nat.lt_or_ge first run.length with inside | outside
    · rw [oneRun_of_front ofChain apart inside ordered]
      constructor
      · rintro (⟨-, within⟩ | ⟨entry, member, before, -⟩)
        · exact Nat.lt_of_add_lt_add_left within
        · have behind := start_le_of_mem_startsFrom member
          omega
      · intro within
        exact .inl ⟨Nat.le_add_right start first, Nat.add_lt_add_left within start⟩
    · obtain ⟨offset, rfl⟩ := Nat.exists_eq_add_of_le outside
      obtain ⟨end_, rfl⟩ := Nat.exists_eq_add_of_le (Nat.le_trans outside ordered)
      rw [oneRun_behind_front, ← inductionHypothesis (start + run.length) (by omega),
        Nat.add_assoc, Nat.add_assoc]
      refine or_iff_right ?_
      rintro ⟨-, within⟩
      have beyond : start + run.length ≤ start + (run.length + end_) := by omega
      exact absurd within (Nat.not_lt.mpr beyond)

theorem sharesRun_iff (sequence : Sequence) {first last : Nat} (ordered : first ≤ last) :
    sequence.SharesRun first last ↔ sequence.OneRun first last := by
  have cut := (isCut_runsOf sequence.tokens).exists_mem_startsFrom_iff 0 ordered
  rw [flatten_runsOf, Nat.zero_add, Nat.zero_add] at cut
  exact cut

/-- The runs are the one partition of a sequence into slices of one chain that cannot be joined, and the
scan from the front finds them.  Nothing else is a partition, and no tokens have no runs.  Positions fall
into one run exactly when every token from the one to the other is of one chain, so stretches of one chain
stay apart when a token of another chain stands between them. -/
theorem runs_partition (sequence : Sequence) :
    (RunScan.ofTokens sequence.tokens).closed = sequence.runs ∧
      (∀ slices, IsPartition sequence.tokens slices ↔ slices = sequence.runs) ∧
      empty.runs = [] ∧
      ∀ first width,
        sequence.SharesRun first (first + width) ↔ sequence.OneRun first (first + width) := by
  refine ⟨RunScan.closed_ofTokens sequence.tokens, fun slices => isPartition_iff, rfl,
    fun first width => ?_⟩
  exact sequence.sharesRun_iff (Nat.le_add_right first width)

/-- A chain that is met again behind another one has two runs. -/
example :
    runs ⟨[⟨.noun, some "A", 0⟩, ⟨.noun, some "B", 0⟩, ⟨.noun, some "C", 2⟩, ⟨.noun, some "D", 0⟩]⟩ =
      [[⟨.noun, some "A", 0⟩, ⟨.noun, some "B", 0⟩], [⟨.noun, some "C", 2⟩],
        [⟨.noun, some "D", 0⟩]] := by
  decide

end Sequence

end PromptBlocks
