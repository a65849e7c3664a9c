import PromptBlocks.Proofs.Edit.Application
import PromptBlocks.Proofs.Edit.Preservation

/-!
Contract: every step of a plan has an anchor in the sequence that it meets.

Owns:
- insertions at an anchor among the tokens that are there, and runs of such insertions;
- plans that insert throughout, or start over first and insert from then on;
- the plans of fixes, templates and completions are of that kind;
- the one step of a fix, and where its token lands.

Does not own: what the tokens put in are good for.
-/

namespace PromptBlocks

/-! ### Anchors -/

/-- The step inserts beside one of `count` tokens, or into nothing at all. -/
def Step.InsertsAmong (step : Step) (count : Nat) : Prop :=
  step.isRestart = false ∧ (step.anchor < count ∨ (count = 0 ∧ step.anchor = 0))

namespace Plan

/-- Every step in turn inserts among the tokens that the steps before it leave. -/
def InsertsThroughout : List Step → Sequence → Prop
  | [], _ => True
  | step :: later, sequence =>
    step.InsertsAmong sequence.length ∧ InsertsThroughout later (step.apply sequence)

/-- The plan inserts throughout, or starts over in its first step and inserts from then on. -/
def WellAnchored (plan : Plan) (sequence : Sequence) : Prop :=
  InsertsThroughout plan.steps sequence ∨
    ∃ first later, plan.steps = first :: later ∧ first.isRestart = true ∧
      InsertsThroughout later (first.apply sequence)

theorem insertsThroughout_append {first second : List Step} {sequence : Sequence}
    (inFront : InsertsThroughout first sequence)
    (behind : InsertsThroughout second (Plan.apply ⟨first⟩ sequence)) :
    InsertsThroughout (first ++ second) sequence := by
  induction first generalizing sequence with
  | nil => exact behind
  | cons step later inductionHypothesis => exact ⟨inFront.1, inductionHypothesis inFront.2 behind⟩

/-- A step for each slot in turn meets one token more than the step before it, so it is enough that
each one is anchored among as many. -/
theorem insertsThroughout_zipIdx (stepOf : Slot × Nat → Step) {slots : List Slot}
    {first extra : Nat} {sequence : Sequence} (count : sequence.length = first + extra)
    (each : ∀ entry ∈ slots.zipIdx first, (stepOf entry).InsertsAmong (entry.2 + extra)) :
    InsertsThroughout ((slots.zipIdx first).map stepOf) sequence := by
  induction slots generalizing first sequence with
  | nil => trivial
  | cons slot slots inductionHypothesis =>
    rw [List.zipIdx_cons] at each ⊢
    obtain ⟨here, others⟩ := List.forall_mem_cons.mp each
    have grown := (Step.extends_apply here.1 sequence).length_eq
    exact ⟨count ▸ here, inductionHypothesis (by omega) others⟩

theorem insertsAmong_appendStep (block : Block) (count : Nat) (text : Option String) :
    (appendStep block count text).InsertsAmong count := by
  cases count with
  | zero => exact ⟨rfl, .inr ⟨rfl, rfl⟩⟩
  | succ last => exact ⟨rfl, .inl last.lt_succ_self⟩

theorem insertsThroughout_appendSteps (slots : List Slot) (sequence : Sequence) :
    InsertsThroughout ((slots.zipIdx sequence.length).map fun (slot, count) =>
      appendStep slot.block count slot.preset) sequence :=
  insertsThroughout_zipIdx _ (Nat.add_zero _).symm fun (slot, count) _ =>
    insertsAmong_appendStep slot.block count slot.preset

/-- In front of a window, a step has at least one token behind those that went in before it. -/
theorem insertsThroughout_frontSteps {slots : List Slot} {sequence : Sequence}
    (tokens : 0 < sequence.length) :
    InsertsThroughout
      (slots.zipIdx.map fun (slot, index) => windowStep slots.length slot index) sequence := by
  refine insertsThroughout_zipIdx _ (Nat.zero_add _).symm fun (slot, index) member => ?_
  have before : index < slots.length := by
    simpa using (List.mem_zipIdx member).2.1
  simp only [windowStep, if_pos before]
  exact ⟨rfl, .inl (Nat.lt_add_of_pos_right tokens)⟩

/-- A run of insertions adds a token with each step. -/
theorem length_apply_of_insertsThroughout {steps : List Step} {sequence : Sequence}
    (inserts : InsertsThroughout steps sequence) :
    (Plan.apply ⟨steps⟩ sequence).length = sequence.length + steps.length := by
  induction steps generalizing sequence with
  | nil => rfl
  | cons step later inductionHypothesis =>
    have grown := (Step.extends_apply inserts.1.1 sequence).length_eq
    rw [apply_cons, inductionHypothesis inserts.2, grown, List.length_cons]
    omega

/-! ### The plans of requests -/

theorem wellAnchored_empty (sequence : Sequence) : Plan.empty.WellAnchored sequence :=
  .inl trivial

section Fix

variable {sequence : Sequence} {fix : Fix} {block : Block} {anchor : Token}

theorem forFix_of_unknown (unknown : ∀ block : Block, block.id ≠ fix.blockType) :
    forFix sequence fix = Plan.empty := by
  have unread : fix.block? = none := Block.ofId?_eq_none_iff.mpr unknown
  rw [forFix, unread]

/-- Where the target is not there, a fix is one step that appends its block.  Into an empty sequence, a
token put before or behind the start is appended too. -/
theorem exists_step_of_stale (known : fix.blockType = block.id)
    (stale : sequence.length ≤ fix.target) :
    ∃ step, forFix sequence fix = ⟨[step]⟩ ∧ step.block = block ∧
      step.InsertsAmong sequence.length ∧
      step.apply sequence = sequence.push (Token.ofBlock block (some "")) := by
  simp only [forFix, Fix.block?_of_known known]
  split
  · next fresh =>
    rw [Bool.or_eq_true, decide_eq_true_eq, Bool.and_eq_true, beq_iff_eq] at fresh
    obtain ⟨empty, start⟩ := fresh.resolve_left (Nat.not_lt.mpr stale)
    obtain rfl : sequence = Sequence.empty := congrArg Sequence.mk (List.isEmpty_iff.mp empty)
    rw [start]
    refine ⟨_, rfl, rfl, ⟨?_, .inr ⟨rfl, rfl⟩⟩, ?_⟩ <;> cases fix.action <;> rfl
  · refine ⟨_, rfl, ?_, insertsAmong_appendStep block sequence.length none, ?_⟩
    · cases sequence.length <;> rfl
    · exact apply_appendStep { block, label := "", isPlaceholder := true, preset := none } sequence

theorem wellAnchored_forFix (sequence : Sequence) (fix : Fix) :
    (forFix sequence fix).WellAnchored sequence := by
  by_cases unknown : ∀ block : Block, block.id ≠ fix.blockType
  · rw [forFix_of_unknown unknown]
    exact wellAnchored_empty sequence
  · obtain ⟨block, known⟩ := not_forall_not.mp unknown
    by_cases inside : fix.target < sequence.length
    · rw [forFix_of_inside known.symm inside]
      refine .inl ⟨⟨?_, .inl inside⟩, trivial⟩
      cases fix.action <;> rfl
    · obtain ⟨step, plan, -, inserts, -⟩ :=
        exists_step_of_stale known.symm (Nat.le_of_not_lt inside)
      rw [plan]
      exact .inl ⟨inserts, trivial⟩

/-- Beside a target that is there, the token of a fix joins the target's chain. -/
theorem tokens_apply_forFix (known : fix.blockType = block.id)
    (target : sequence.tokens[fix.target]? = some anchor) :
    ((forFix sequence fix).apply sequence).tokens =
      sequence.tokens.take fix.landing ++
        (Token.ofBlock block (some "")).inChain anchor.chain ::
          sequence.tokens.drop fix.landing := by
  obtain ⟨inside, -⟩ := List.getElem?_eq_some_iff.mp target
  rw [forFix_of_inside known inside]
  unfold Fix.landing
  cases fix.action with
  | insertBefore => exact Sequence.tokens_insert_of_getElem? target (Token.ofBlock block (some ""))
  | insertAfter => exact Sequence.tokens_insertAfter_of_getElem? target (Token.ofBlock block (some ""))

end Fix

theorem wellAnchored_forTemplate (template : Template) (sequence : Sequence) :
    (forTemplate template).WellAnchored sequence := by
  cases split : template.slots with
  | nil =>
    rw [forTemplate, split]
    exact wellAnchored_empty sequence
  | cons first rest =>
    rw [Template.forTemplate_of_cons split]
    exact .inr ⟨_, _, rfl, rfl, insertsThroughout_appendSteps rest ⟨[first.token]⟩⟩

theorem wellAnchored_forCompletion (sequence : Sequence) (template : Template) :
    (forCompletion sequence template).WellAnchored sequence := by
  cases window : template.window? sequence with
  | none =>
    rw [Template.forCompletion_of_noWindow window]
    exact .inl (insertsThroughout_appendSteps _ sequence)
  | some start =>
    obtain ⟨front, covered, back, split, rfl, spelled, -⟩ :=
      Template.exists_spelled_of_window? window
    have inFront : InsertsThroughout
        (front.zipIdx.map fun (slot, index) => windowStep front.length slot index) sequence :=
      insertsThroughout_frontSteps (Template.length_pos_of_window? window)
    -- The slots behind the window meet the sequence with those in front of it already put in.
    have width := length_apply_of_insertsThroughout inFront
    rw [List.length_map, List.length_zipIdx, Nat.add_comm] at width
    rw [Template.forCompletion_of_window? window split spelled.length_eq, ← width]
    exact .inl (insertsThroughout_append inFront (insertsThroughout_appendSteps back _))

theorem wellAnchored_forRequest (sequence : Sequence) (catalog : Catalog) (request : PlanRequest) :
    (forRequest sequence catalog request).WellAnchored sequence := by
  cases request with
  | fix fix => exact wellAnchored_forFix sequence fix
  | applyPattern id =>
    rw [forRequest]
    cases catalog.get? id with
    | none => exact wellAnchored_empty sequence
    | some template => exact wellAnchored_forTemplate template sequence
  | completePattern id =>
    rw [forRequest]
    cases catalog.get? id with
    | none => exact wellAnchored_empty sequence
    | some template => exact wellAnchored_forCompletion sequence template

/-- Every plan is well anchored, whatever is asked for.  A block or a template that is not known is not
planned.  A fix with a known block is one step, which puts that block just before or just behind the
target, or at the end where there is no such target, and leaves the other tokens as they are. -/
theorem plans_wellAnchored (sequence : Sequence) (catalog : Catalog) :
    (∀ request, (forRequest sequence catalog request).WellAnchored sequence) ∧
      (∀ fix : Fix, (∀ block : Block, block.id ≠ fix.blockType) →
        forRequest sequence catalog (.fix fix) = Plan.empty) ∧
      (∀ id, (∀ template ∈ catalog.templates, template.id ≠ id) →
        forRequest sequence catalog (.applyPattern id) = Plan.empty ∧
          forRequest sequence catalog (.completePattern id) = Plan.empty) ∧
      ∀ (fix : Fix) (block : Block), fix.blockType = block.id →
        let plan := forRequest sequence catalog (.fix fix)
        (∃ step, plan.steps = [step] ∧ step.block = block) ∧
          (∀ target, sequence.tokens[fix.target]? = some target →
            (plan.apply sequence).tokens =
              sequence.tokens.take fix.landing ++
                (Token.ofBlock block (some "")).inChain target.chain ::
                  sequence.tokens.drop fix.landing) ∧
          (sequence.length ≤ fix.target →
            (plan.apply sequence).tokens =
              sequence.tokens ++ [(Token.ofBlock block (some "")).inChain sequence.lastChain]) := by
  refine ⟨wellAnchored_forRequest sequence catalog, fun _ => forFix_of_unknown, ?_, ?_⟩
  · intro id unknown
    have unfound : catalog.get? id = none :=
      List.find?_eq_none.mpr fun template member => by
        rw [beq_iff_eq]
        exact unknown template member
    simp [forRequest, unfound]
  · intro fix block known plan
    refine ⟨?_, fun target => tokens_apply_forFix known, fun stale => ?_⟩
    · by_cases inside : fix.target < sequence.length
      · exact ⟨_, congrArg Plan.steps (forFix_of_inside known inside), rfl⟩
      · obtain ⟨step, single, ofBlock, -⟩ := exists_step_of_stale known (Nat.le_of_not_lt inside)
        exact ⟨step, congrArg Plan.steps single, ofBlock⟩
    · obtain ⟨step, single, -, -, pushed⟩ := exists_step_of_stale known stale
      have result : plan.apply sequence = sequence.push (Token.ofBlock block (some "")) := by
        rw [show plan = ⟨[step]⟩ from single]
        exact pushed
      rw [result]
      rfl

/-- A fix for a position that is gone goes to the end, in the last chain; one that asks for a saved chain
is not planned. -/
theorem plans_wellAnchored_of_stale :
    let sequence : Sequence := ⟨[⟨.noun, some "Doc", 3⟩]⟩
    let stale : Fix := ⟨.insertBefore, "promps_particle_wo", 7, "を"⟩
    let saved : Fix := ⟨.insertAfter, "promps_template_42", 0, ""⟩
    stale.blockType = Block.id (.particle .wo) ∧ sequence.length ≤ stale.target ∧
      (∀ block : Block, block.id ≠ saved.blockType) ∧
      ((forRequest sequence (Catalog.builtin .ja) (.fix stale)).apply sequence).tokens =
        [⟨.noun, some "Doc", 3⟩, ⟨.particle .wo, none, 3⟩] ∧
      forRequest sequence (Catalog.builtin .ja) (.fix saved) = Plan.empty := by
  intro sequence stale saved
  have known : stale.blockType = Block.id (.particle .wo) := by decide
  have gone : sequence.length ≤ stale.target := by decide
  have unknown : ∀ block : Block, block.id ≠ saved.blockType :=
    Block.ofId?_eq_none_iff.mp (by decide)
  obtain ⟨-, unplanned, -, single⟩ := plans_wellAnchored sequence (Catalog.builtin .ja)
  exact ⟨known, gone, unknown, (single stale (.particle .wo) known).2.2 gone,
    unplanned saved unknown⟩

end Plan

end PromptBlocks
