import PromptBlocks.Sequence.Basic

/-!
Contract: runs of a sequence, and the sequence of given runs.

Owns:
- the runs of a stretch of one chain in front of another chain;
- cuts, which are what runs are, and where the runs of a cut start;
- the sequence that numbers given runs as its chains, and the runs of that sequence;
- one sequence behind another, its chains numbered on;
- sequences whose runs are numbered already.

Does not own: what a run is written as.
-/

namespace PromptBlocks.Sequence

variable {token : Token} {run rest tokens : List Token} {chain : Nat}

theorem runsOf_cons_ne_nil (token : Token) (rest : List Token) :
    ∃ run later, runsOf (token :: rest) = (token :: run) :: later := by
  rw [runsOf]
  unfold extendRuns
  split
  · split
    · exact ⟨_, _, rfl⟩
    · exact ⟨_, _, rfl⟩
  · exact ⟨_, _, rfl⟩

/-- A token in front of another chain is a run of its own. -/
theorem runsOf_cons_of_ne (apart : ∀ next ∈ rest.head?, next.chain ≠ token.chain) :
    runsOf (token :: rest) = [token] :: runsOf rest := by
  cases rest with
  | nil => rfl
  | cons next others =>
    obtain ⟨run, later, runs⟩ := runsOf_cons_ne_nil next others
    have different : token.sameChain next = false :=
      beq_false_of_ne (apart next rfl).symm
    rw [runsOf, runs, extendRuns, different]
    rfl

/-- A token in front of its own chain joins the run. -/
theorem runsOf_cons_of_eq {next : Token} {others later : List Token} {runs : List (List Token)}
    (same : next.chain = token.chain) (cut : runsOf (next :: others) = (next :: later) :: runs) :
    runsOf (token :: next :: others) = (token :: next :: later) :: runs := by
  have joined : token.sameChain next = true := beq_iff_eq.mpr same.symm
  rw [runsOf, cut, extendRuns, joined]
  rfl

/-- A stretch of one chain in front of another chain is a run. -/
theorem runsOf_append (nonempty : run ≠ []) (ofChain : ∀ token ∈ run, token.chain = chain)
    (apart : ∀ next ∈ rest.head?, next.chain ≠ chain) :
    runsOf (run ++ rest) = run :: runsOf rest := by
  induction run with
  | nil => exact absurd rfl nonempty
  | cons token later inductionHypothesis =>
    obtain ⟨tokenChain, laterChain⟩ := List.forall_mem_cons.mp ofChain
    cases later with
    | nil => exact runsOf_cons_of_ne (tokenChain.symm ▸ apart)
    | cons next others =>
      have nextChain := laterChain next List.mem_cons_self
      exact runsOf_cons_of_eq (nextChain.trans tokenChain.symm)
        (inductionHypothesis (List.cons_ne_nil _ _) laterChain)

/-! ### Cuts -/

/-- A cut into runs: each holds tokens, all of one chain, and a token of another chain follows. -/
inductive IsCut : List (List Token) → Prop
  | nil : IsCut []
  | cons {chain : Nat} {run : List Token} {later : List (List Token)}
      (nonempty : run ≠ [])
      (ofChain : ∀ token ∈ run, token.chain = chain)
      (apart : ∀ next ∈ later.flatten.head?, next.chain ≠ chain)
      (rest : IsCut later) :
      IsCut (run :: later)

theorem flatten_extendRuns (token : Token) (runs : List (List Token)) :
    (extendRuns token runs).flatten = token :: runs.flatten := by
  unfold extendRuns
  split
  · split <;> simp
  · simp

theorem flatten_runsOf (tokens : List Token) : (runsOf tokens).flatten = tokens := by
  induction tokens with
  | nil => rfl
  | cons token rest inductionHypothesis =>
    rw [runsOf, flatten_extendRuns, inductionHypothesis]

theorem IsCut.extendRuns {runs : List (List Token)} (cut : IsCut runs) (token : Token) :
    IsCut (extendRuns token runs) := by
  have alone : ∀ other ∈ [token], other.chain = token.chain := by simp
  cases cut with
  | nil => exact .cons (List.cons_ne_nil _ _) alone (by simp) .nil
  | @cons chain run later nonempty ofChain apart rest =>
    cases run with
    | nil => exact absurd rfl nonempty
    | cons next others =>
      have nextChain := ofChain next List.mem_cons_self
      by_cases joined : token.sameChain next
      · have sameChain : token.chain = chain := (beq_iff_eq.mp joined).trans nextChain
        rw [Sequence.extendRuns, if_pos joined]
        refine .cons (List.cons_ne_nil _ _) ?_ apart rest
        intro other member
        rcases List.mem_cons.mp member with rfl | inRun
        · exact sameChain
        · exact ofChain other inRun
      · rw [Sequence.extendRuns, if_neg joined]
        refine .cons (List.cons_ne_nil _ _) alone ?_ (.cons nonempty ofChain apart rest)
        intro first isFirst
        obtain rfl : next = first := by simpa using isFirst
        exact fun equal => joined (beq_iff_eq.mpr equal.symm)

theorem isCut_runsOf (tokens : List Token) : IsCut (runsOf tokens) := by
  induction tokens with
  | nil => exact .nil
  | cons token rest inductionHypothesis => exact inductionHypothesis.extendRuns token

theorem IsCut.ne_nil {runs : List (List Token)} (cut : IsCut runs) : ∀ run ∈ runs, run ≠ [] := by
  induction cut with
  | nil => exact List.forall_mem_nil _
  | cons nonempty _ _ _ inductionHypothesis =>
    exact List.forall_mem_cons.mpr ⟨nonempty, inductionHypothesis⟩

section Members

variable {sequence : Sequence}

theorem ne_nil_of_mem_runs (member : run ∈ sequence.runs) : run ≠ [] :=
  (isCut_runsOf sequence.tokens).ne_nil run member

theorem mem_tokens_of_mem_runs (member : run ∈ sequence.runs) (inRun : token ∈ run) :
    token ∈ sequence.tokens := by
  rw [← flatten_runsOf sequence.tokens]
  exact List.mem_flatten.mpr ⟨run, member, inRun⟩

end Members

/-- Runs with the positions at which they start, the first at `start`. -/
def startsFrom (start : Nat) : List (List Token) → List (Nat × List Token)
  | [] => []
  | run :: later => (start, run) :: startsFrom (start + run.length) later

/-- The runs of a sequence with their starting positions. -/
def startedRuns (sequence : Sequence) : List (Nat × List Token) :=
  startsFrom 0 sequence.runs

/-! ### Sequences of given runs -/

/-- The tokens of runs that are chains numbered from `first`. -/
def numbered (first : Nat) (runs : List (List Token)) : List (List Token) :=
  (runs.zipIdx first).map fun (run, chain) => run.map (·.inChain chain)

/-- The sequence of runs, each a chain of its own, numbered from zero. -/
def ofRuns (runs : List (List Token)) : Sequence :=
  ⟨(numbered 0 runs).flatten⟩

theorem numbered_cons (first : Nat) (run : List Token) (later : List (List Token)) :
    numbered first (run :: later) = run.map (·.inChain first) :: numbered (first + 1) later :=
  rfl

/-- What is read off runs without a look at their chains is read off the numbered runs. -/
theorem map_numbered {Reading : Type} {read : List Token → Reading}
    (blind : ∀ chain run, read (run.map (·.inChain chain)) = read run) (first : Nat)
    (runs : List (List Token)) : (numbered first runs).map read = runs.map read := by
  induction runs generalizing first with
  | nil => rfl
  | cons run later inductionHypothesis =>
    rw [numbered_cons, List.map_cons, List.map_cons, blind, inductionHypothesis]

theorem chain_of_head?_numbered {first : Nat} {runs : List (List Token)}
    (nonempty : ∀ run ∈ runs, run ≠ []) :
    ∀ token ∈ (numbered first runs).flatten.head?, token.chain = first := by
  intro token member
  cases runs with
  | nil => cases member
  | cons run later =>
    cases run with
    | nil => exact absurd rfl (nonempty [] List.mem_cons_self)
    | cons head others =>
      obtain rfl := Option.some.inj member
      rfl

theorem runsOf_numbered {first : Nat} {runs : List (List Token)}
    (nonempty : ∀ run ∈ runs, run ≠ []) :
    runsOf (numbered first runs).flatten = numbered first runs := by
  induction runs generalizing first with
  | nil => rfl
  | cons run later inductionHypothesis =>
    obtain ⟨runFilled, laterFilled⟩ := List.forall_mem_cons.mp nonempty
    have filled : run.map (·.inChain first) ≠ [] := fun empty => runFilled (List.map_eq_nil_iff.mp empty)
    have ofChain : ∀ token ∈ run.map (·.inChain first), token.chain = first := by
      intro token member
      obtain ⟨_, -, rfl⟩ := List.mem_map.mp member
      rfl
    -- Runs that hold tokens do not merge, because neighbours have different numbers.
    have apart : ∀ next ∈ (numbered (first + 1) later).flatten.head?, next.chain ≠ first := by
      intro next member
      rw [chain_of_head?_numbered laterFilled next member]
      exact Nat.succ_ne_self first
    rw [numbered_cons, List.flatten_cons, runsOf_append filled ofChain apart,
      inductionHypothesis laterFilled]

theorem runs_ofRuns {runs : List (List Token)} (nonempty : ∀ run ∈ runs, run ≠ []) :
    (ofRuns runs).runs = numbered 0 runs :=
  runsOf_numbered nonempty

/-! ### Sequences one behind the other -/

/-- One sequence behind another, its chains numbered on from the runs in front. -/
def followedBy (front back : Sequence) : Sequence :=
  ⟨front.tokens ++ back.tokens.map fun token => token.inChain (token.chain + front.runs.length)⟩

theorem flatten_numbered_add (first offset : Nat) (runs : List (List Token)) :
    (numbered (first + offset) runs).flatten =
      (numbered first runs).flatten.map fun token => token.inChain (token.chain + offset) := by
  induction runs generalizing first with
  | nil => rfl
  | cons run later inductionHypothesis =>
    have next : first + offset + 1 = first + 1 + offset := by omega
    rw [numbered_cons, numbered_cons, List.flatten_cons, List.flatten_cons, List.map_append, next,
      inductionHypothesis, List.map_map]
    rfl

theorem ofRuns_append {front : List (List Token)} (nonempty : ∀ run ∈ front, run ≠ [])
    (back : List (List Token)) :
    ofRuns (front ++ back) = (ofRuns front).followedBy (ofRuns back) := by
  have count : (ofRuns front).runs.length = front.length := by
    rw [runs_ofRuns nonempty, numbered, List.length_map, List.length_zipIdx]
  rw [followedBy, count, ofRuns, ofRuns, ofRuns, ← flatten_numbered_add 0 front.length back]
  show Sequence.mk _ = Sequence.mk _
  rw [numbered, List.zipIdx_append, List.map_append, List.flatten_append]
  rfl

/-! ### Runs that are numbered already -/

theorem inChain_chain (token : Token) : token.inChain token.chain = token :=
  rfl

/-- Numbering runs forgets the chains that their tokens had. -/
theorem numbered_inChain (first chain : Nat) (runs : List (List Token)) :
    numbered first (runs.map (·.map (·.inChain chain))) = numbered first runs := by
  induction runs generalizing first with
  | nil => rfl
  | cons run later inductionHypothesis =>
    rw [List.map_cons, numbered_cons, numbered_cons, inductionHypothesis, List.map_map]
    rfl

theorem ofRuns_inChain (chain : Nat) (runs : List (List Token)) :
    ofRuns (runs.map (·.map (·.inChain chain))) = ofRuns runs :=
  congrArg (fun runs => Sequence.mk runs.flatten) (numbered_inChain 0 chain runs)

/-- Each run has its place among the runs for a chain. -/
def RunsNumbered (sequence : Sequence) : Prop :=
  ∀ entry ∈ sequence.runs.zipIdx, ∀ token ∈ entry.1, token.chain = entry.2

instance (sequence : Sequence) : Decidable sequence.RunsNumbered :=
  inferInstanceAs (Decidable (∀ entry ∈ sequence.runs.zipIdx, ∀ token ∈ entry.1, token.chain = entry.2))

/-- The chains of numbered runs, token by token: each number as often as its run is long. -/
theorem RunsNumbered.map_chain {sequence : Sequence} (runsNumbered : sequence.RunsNumbered) :
    sequence.tokens.map Token.chain =
      (sequence.runs.map List.length).zipIdx.flatMap fun (size, chain) => List.replicate size chain := by
  have ofRun : ∀ entry ∈ sequence.runs.zipIdx,
      entry.1.map Token.chain = List.replicate entry.1.length entry.2 :=
    fun entry member => List.map_eq_replicate_iff.mpr (runsNumbered entry member)
  have runByRun : sequence.tokens = sequence.runs.zipIdx.flatMap Prod.fst := by
    rw [List.flatMap_def, List.zipIdx_map_fst, runs, flatten_runsOf]
  rw [runByRun, List.zipIdx_map, List.flatMap_map, List.map_flatMap]
  exact congrArg List.flatten (List.map_congr_left ofRun)

theorem runsNumbered_ofRuns {runs : List (List Token)} (nonempty : ∀ run ∈ runs, run ≠ []) :
    (ofRuns runs).RunsNumbered := by
  intro entry member token inRun
  rw [runs_ofRuns nonempty, List.mem_zipIdx_iff_getElem?, numbered, List.getElem?_map,
    List.getElem?_zipIdx, Option.map_map] at member
  obtain ⟨source, -, written⟩ := Option.map_eq_some_iff.mp member
  rw [← written] at inRun
  obtain ⟨original, -, rfl⟩ := List.mem_map.mp inRun
  exact Nat.zero_add entry.2

theorem ofRuns_runs {sequence : Sequence} (runsNumbered : sequence.RunsNumbered) :
    ofRuns sequence.runs = sequence := by
  have sameRun : ∀ entry ∈ sequence.runs.zipIdx, entry.1.map (·.inChain entry.2) = entry.1 := by
    intro entry member
    have sameToken : ∀ token ∈ entry.1, token.inChain entry.2 = token := by
      intro token inRun
      rw [← runsNumbered entry member token inRun]
      exact inChain_chain token
    exact (List.map_congr_left sameToken).trans (List.map_id _)
  have kept : numbered 0 sequence.runs = sequence.runs :=
    (List.map_congr_left sameRun).trans (List.zipIdx_map_fst 0 sequence.runs)
  rw [ofRuns, kept, runs, flatten_runsOf]

end PromptBlocks.Sequence
