import PromptBlocks.Edit.Planner
import PromptBlocks.Proofs.Edit.Insertion
import PromptBlocks.Proofs.Pattern.Score

/-!
Contract: what the completion of a sequence to a template reaches.

Owns:
- the steps of a completion carried out: slots put in front of a sequence and appended to it;
- the tokens of the completed sequence around a window and without one;
- around a window, a sequence that spells out the template; without one, a sequence that fills it;
- the plan and the match of a completed sequence.

Does not own: scores of other sequences.
-/

namespace PromptBlocks

/-- The sequence with the plan that completes it to a template carried out. -/
def Sequence.completed (sequence : Sequence) (template : Template) : Sequence :=
  (Plan.forCompletion sequence template).apply sequence

/-- The chain of the first token; zero when there is none. -/
def Sequence.firstChain (sequence : Sequence) : Nat :=
  (sequence.tokens.head?.map Token.chain).getD 0

/-! ### Steps carried out -/

namespace Plan

theorem apply_append (first second : List Step) (sequence : Sequence) :
    Plan.apply ⟨first ++ second⟩ sequence = Plan.apply ⟨second⟩ (Plan.apply ⟨first⟩ sequence) :=
  List.foldl_append

/-- A step behind the last token pushes its token. -/
theorem apply_appendStep (slot : Slot) (sequence : Sequence) :
    (appendStep slot.block sequence.length slot.preset).apply sequence =
      sequence.push slot.token := by
  obtain ⟨tokens⟩ := sequence
  rcases List.eq_nil_or_concat' tokens with rfl | ⟨earlier, last, rfl⟩
  · rfl
  · have width : (Sequence.mk (earlier ++ [last])).length = earlier.length + 1 := by
      rw [Sequence.length, List.length_append, List.length_singleton]
    have sameChain : (Sequence.mk (earlier ++ [last])).lastChain = last.chain := by
      simp [Sequence.lastChain]
    have split : (Sequence.mk (earlier ++ [last])).tokens = earlier ++ last :: [] := rfl
    have inserted := Sequence.insertAfter_of_split split slot.token
    rw [width, Sequence.push, sameChain, Sequence.pushInChain, List.append_assoc,
      List.singleton_append]
    exact congrArg Sequence.mk inserted

theorem apply_appendSteps (slots : List Slot) (sequence : Sequence) :
    Plan.apply ⟨(slots.zipIdx sequence.length).map fun (slot, count) =>
        appendStep slot.block count slot.preset⟩ sequence =
      ⟨sequence.tokens ++ slots.map (Slot.tokenIn sequence.lastChain)⟩ := by
  induction slots generalizing sequence with
  | nil => exact congrArg Sequence.mk (List.append_nil _).symm
  | cons slot slots inductionHypothesis =>
    have width : (sequence.push slot.token).length = sequence.length + 1 := by
      simp [Sequence.push, Sequence.pushInChain, Sequence.length]
    have sameChain : (sequence.push slot.token).lastChain = sequence.lastChain := by
      rw [Sequence.push, Sequence.pushInChain, Sequence.lastChain, List.getLast?_concat]
      rfl
    have pushed : (sequence.push slot.token).tokens =
        sequence.tokens ++ [slot.tokenIn sequence.lastChain] := rfl
    have rest := inductionHypothesis (sequence.push slot.token)
    rw [width, sameChain, pushed, List.append_assoc, List.singleton_append] at rest
    rw [List.zipIdx_cons, List.map_cons]
    show Plan.apply ⟨_⟩ ((appendStep slot.block sequence.length slot.preset).apply sequence) = _
    rw [apply_appendStep, rest, List.map_cons]

/-- The slots in front of a window go in front of its first token, in order. -/
theorem apply_frontSteps (slots : List Slot) (start : Nat) (done rest : List Token) (token : Token)
    (inFront : done.length + slots.length ≤ start) :
    Plan.apply ⟨(slots.zipIdx done.length).map fun (slot, index) => windowStep start slot index⟩
        ⟨done ++ token :: rest⟩ =
      ⟨done ++ (slots.map (Slot.tokenIn token.chain) ++ token :: rest)⟩ := by
  induction slots generalizing done with
  | nil => rfl
  | cons slot slots inductionHypothesis =>
    rw [List.length_cons] at inFront
    have before : done.length < start := by omega
    have step : (windowStep start slot done.length).apply ⟨done ++ token :: rest⟩ =
        ⟨done ++ slot.tokenIn token.chain :: token :: rest⟩ := by
      have split : (Sequence.mk (done ++ token :: rest)).tokens = done ++ token :: rest := rfl
      rw [windowStep, if_pos before]
      exact congrArg Sequence.mk (Sequence.insert_of_split split slot.token)
    have width : (done ++ [slot.tokenIn token.chain]).length = done.length + 1 := by
      rw [List.length_append, List.length_singleton]
    have others := inductionHypothesis (done ++ [slot.tokenIn token.chain]) (by omega)
    simp only [width, List.append_assoc, List.singleton_append] at others
    rw [List.zipIdx_cons, List.map_cons]
    show Plan.apply ⟨_⟩ ((windowStep start slot done.length).apply _) = _
    rw [step, others, List.map_cons, List.cons_append]

/-- Behind a window, a step appends its slot. -/
theorem windowStep_of_le {start index : Nat} (slot : Slot) (behind : start ≤ index)
    (positive : 0 < index) :
    windowStep start slot index = appendStep slot.block index slot.preset := by
  obtain ⟨last, rfl⟩ := Nat.exists_eq_succ_of_ne_zero positive.ne'
  rw [windowStep, if_neg (Nat.not_lt.mpr behind)]
  rfl

end Plan

/-! ### Completed sequences -/

namespace Template

variable {template : Template} {sequence : Sequence}

/-- The plan around a window: the slots in front of it, then those behind it. -/
theorem forCompletion_of_window? {front covered back : List Slot}
    (window : template.window? sequence = some front.length)
    (split : template.slots = front ++ (covered ++ back))
    (covers : covered.length = sequence.length) :
    Plan.forCompletion sequence template =
      ⟨(front.zipIdx.map fun (slot, index) => Plan.windowStep front.length slot index) ++
        (back.zipIdx (front.length + sequence.length)).map fun (slot, count) =>
          Plan.appendStep slot.block count slot.preset⟩ := by
  have tokens := length_pos_of_window? window
  have appended : ((back.zipIdx (front.length + sequence.length)).map fun (slot, index) =>
        Plan.windowStep front.length slot index) =
      (back.zipIdx (front.length + sequence.length)).map fun (slot, count) =>
        Plan.appendStep slot.block count slot.preset := by
    refine List.map_congr_left ?_
    rintro ⟨slot, index⟩ member
    obtain ⟨beyond, -, -⟩ := List.mem_zipIdx member
    exact Plan.windowStep_of_le slot (by omega) (by omega)
  have outside := slotsOutside_of_split split
  rw [covers] at outside
  rw [Plan.forCompletion, window, ← appended, ← List.map_append, ← outside]

/-- Around a window, the slots in front of it go in front of the sequence and those behind it to its
end. -/
theorem tokens_completed_of_window? {front covered back : List Slot}
    (window : template.window? sequence = some front.length)
    (split : template.slots = front ++ (covered ++ back))
    (covers : covered.length = sequence.length) :
    (sequence.completed template).tokens =
      front.map (Slot.tokenIn sequence.firstChain) ++ sequence.tokens ++
        back.map (Slot.tokenIn sequence.lastChain) := by
  have nonempty := length_pos_of_window? window
  have plan := forCompletion_of_window? window split covers
  obtain ⟨tokens⟩ := sequence
  obtain ⟨token, rest, rfl⟩ : ∃ token rest, tokens = token :: rest :=
    List.exists_cons_of_ne_nil (List.length_pos_iff.mp nonempty)
  let extended : Sequence := ⟨front.map (Slot.tokenIn token.chain) ++ token :: rest⟩
  have width : front.length + (Sequence.mk (token :: rest)).length = extended.length := by
    simp [extended, Sequence.length]
  have inFront : Plan.apply
      ⟨front.zipIdx.map fun (slot, index) => Plan.windowStep front.length slot index⟩
      ⟨token :: rest⟩ = extended :=
    Plan.apply_frontSteps front front.length [] rest token (by simp)
  have sameEnd : extended.lastChain = (Sequence.mk (token :: rest)).lastChain := by
    simp [extended, Sequence.lastChain, List.getLast?_append, List.getLast?_cons]
  rw [Sequence.completed, plan, width, Plan.apply_append, inFront, Plan.apply_appendSteps, sameEnd]
  rfl

/-- Around a window, the completed sequence spells out the template. -/
theorem spelledBy_completed_of_window? {start : Nat}
    (window : template.window? sequence = some start) :
    template.SpelledBy (sequence.completed template) := by
  obtain ⟨front, covered, back, split, rfl, spelled, -⟩ := exists_spelled_of_window? window
  rw [SpelledBy, tokens_completed_of_window? window split spelled.length_eq, split,
    ← List.append_assoc]
  exact List.rel_append
    (List.rel_append (Slot.spelled_tokenIn front _) spelled) (Slot.spelled_tokenIn back _)

/-- The plan without a window: the open slots behind the last token. -/
theorem forCompletion_of_noWindow (window : template.window? sequence = none) :
    Plan.forCompletion sequence template =
      ⟨((Slot.unfilled template.slots sequence.tokens).zipIdx sequence.length).map
        fun (slot, count) => Plan.appendStep slot.block count slot.preset⟩ := by
  have positions : (Slot.unfilled template.slots sequence.tokens).zipIdx sequence.length =
      (Slot.unfilled template.slots sequence.tokens).zipIdx.map fun (slot, offset) =>
        (slot, sequence.length + offset) := List.zipIdx_eq_map_add
  rw [Plan.forCompletion, window, positions, List.map_map]
  rfl

/-- Without a window, the open slots are appended. -/
theorem tokens_completed_of_noWindow (window : template.window? sequence = none) :
    (sequence.completed template).tokens =
      sequence.tokens ++
        (Slot.unfilled template.slots sequence.tokens).map (Slot.tokenIn sequence.lastChain) := by
  rw [Sequence.completed, forCompletion_of_noWindow window, Plan.apply_appendSteps]

/-- An empty sequence is completed to all slots of the template. -/
theorem spelledBy_completed_of_isEmpty (empty : sequence.isEmpty = true) :
    template.SpelledBy (sequence.completed template) := by
  have noWindow : template.window? sequence = none := by rw [window?, if_pos empty]
  have noTokens : sequence.tokens = [] := List.isEmpty_iff.mp empty
  rw [SpelledBy, tokens_completed_of_noWindow noWindow, noTokens, Slot.unfilled_nil,
    List.nil_append]
  exact Slot.spelled_tokenIn _ _

/-- Without a window, a completed sequence leaves no slot open. -/
theorem openSlots_completed_of_noWindow (window : template.window? sequence = none) :
    template.openSlots (sequence.completed template) = [] := by
  have filled := Slot.unfilled_append_tokenIn template.slots sequence.tokens sequence.lastChain
  rw [← tokens_completed_of_noWindow window] at filled
  exact filled

/-- A completed sequence that fills a window fills the whole template: it has a token for each slot. -/
theorem spelledBy_completed_of_noWindow {start : Nat} (window : template.window? sequence = none)
    (completedWindow : template.window? (sequence.completed template) = some start) :
    template.SpelledBy (sequence.completed template) := by
  have enough := Slot.length_le_unfilled template.slots sequence.tokens
  have tokens := congrArg List.length (tokens_completed_of_noWindow window)
  rw [List.length_append, List.length_map] at tokens
  refine spelledBy_of_window? completedWindow ?_
  unfold length Sequence.length
  omega

/-- Nothing is left to do for a sequence that spells out a template. -/
theorem forCompletion_of_spelledBy (spelled : template.SpelledBy sequence)
    (slots : template.slots ≠ []) : (Plan.forCompletion sequence template).isEmpty = true := by
  rw [Plan.forCompletion, window?_of_spelledBy spelled slots]
  simp only [slotsOutside_of_spelledBy spelled]
  rfl

/-- A completed sequence that does not spell out the template fills it in another order: it scores one
half, with nothing missing. -/
theorem completed_of_not_spelledBy (slots : template.slots ≠ [])
    (disordered : ¬template.SpelledBy (sequence.completed template)) :
    (Plan.forCompletion (sequence.completed template) template).isEmpty = true ∧
      (template.matchOf (sequence.completed template)).missing = [] ∧
        (template.matchOf (sequence.completed template)).score = 1 / 2 ∧
          (template.matchOf (sequence.completed template)).isComplete = false := by
  have noWindow : template.window? sequence = none :=
    Option.eq_none_iff_forall_ne_some.mpr fun start window =>
      disordered (spelledBy_completed_of_window? window)
  have stillNoWindow : template.window? (sequence.completed template) = none :=
    Option.eq_none_iff_forall_ne_some.mpr fun start window =>
      disordered (spelledBy_completed_of_noWindow noWindow window)
  have nonempty : (sequence.completed template).isEmpty = false := by
    have someTokens : sequence.tokens ≠ [] := fun none =>
      disordered (spelledBy_completed_of_isEmpty (List.isEmpty_iff.mpr none))
    rw [Sequence.isEmpty, tokens_completed_of_noWindow noWindow, List.isEmpty_eq_false_iff]
    exact List.append_ne_nil_of_left_ne_nil someTokens _
  have filled := openSlots_completed_of_noWindow noWindow
  have counted : (template.length : Rat) ≠ 0 :=
    Nat.cast_ne_zero.mpr fun none => slots (List.length_eq_zero_iff.mp none)
  refine ⟨?_, ?_⟩
  · rw [Plan.forCompletion, stillNoWindow, filled]
    rfl
  · rw [matchOf_of_noWindow stillNoWindow nonempty slots, filled]
    refine ⟨rfl, ?_, rfl⟩
    simp only [List.length_nil, Nat.sub_zero]
    rw [mul_comm, div_mul_cancel_left₀ counted, one_div]

/-- Completing a sequence to a template reaches the template: there is nothing left to do, and no slot
is missing.  A sequence that is empty or fills a window becomes a complete match, and then the best match
of every catalog with the template is complete; any other becomes a complete match or scores one half. -/
theorem completion_reaches (template : Template) (slots : template.slots ≠ [])
    (sequence : Sequence) :
    (Plan.forCompletion (sequence.completed template) template).isEmpty = true ∧
      (template.matchOf (sequence.completed template)).missing = [] ∧
      (((template.matchOf (sequence.completed template)).score = 1 ∧
          (template.matchOf (sequence.completed template)).isComplete = true) ∨
        ((template.matchOf (sequence.completed template)).score = 1 / 2 ∧
          (template.matchOf (sequence.completed template)).isComplete = false)) ∧
      (sequence.isEmpty = true ∨ (template.window? sequence).isSome = true →
        (template.matchOf (sequence.completed template)).score = 1 ∧
          (template.matchOf (sequence.completed template)).isComplete = true ∧
          ∀ catalog : Catalog, template ∈ catalog.templates →
            ∃ best, (catalog.rank (sequence.completed template)).head? = some best ∧
              best.isComplete = true) := by
  by_cases spelled : template.SpelledBy (sequence.completed template)
  · obtain ⟨nothingMissing, complete⟩ := matchOf_of_spelledBy spelled slots
    have full := (template.score_bound (sequence.completed template)).2.mpr complete
    refine ⟨forCompletion_of_spelledBy spelled slots, nothingMissing, .inl ⟨full, complete⟩, ?_⟩
    intro _
    exact ⟨full, complete, fun catalog member => Catalog.exists_head?_rank member complete⟩
  · obtain ⟨nothingToDo, nothingMissing, half, incomplete⟩ :=
      completed_of_not_spelledBy slots spelled
    refine ⟨nothingToDo, nothingMissing, .inr ⟨half, incomplete⟩, ?_⟩
    rintro (empty | window)
    · exact absurd (spelledBy_completed_of_isEmpty empty) spelled
    · obtain ⟨start, found⟩ := Option.isSome_iff_exists.mp window
      exact absurd (spelledBy_completed_of_window? found) spelled

/-- An object marker fills a window of the built-in object-verb pattern.  Completed, it has a noun in
front and a verb behind, in its own chain, and the best match of the built-in catalog is complete. -/
theorem completion_reaches_around_marker :
    ∃ template ∈ (Catalog.builtin .en).templates,
      Sequence.completed ⟨[⟨.particle .wo, none, 3⟩]⟩ template =
          ⟨[⟨.noun, some "", 3⟩, ⟨.particle .wo, none, 3⟩, ⟨.verb .summarize, none, 3⟩]⟩ ∧
        ∃ best, ((Catalog.builtin .en).rank
            ⟨[⟨.noun, some "", 3⟩, ⟨.particle .wo, none, 3⟩, ⟨.verb .summarize, none, 3⟩]⟩).head? =
              some best ∧
          best.isComplete = true := by
  have member : (Catalog.Builtin.templates .en)[1] ∈ (Catalog.builtin .en).templates :=
    List.getElem_mem _
  have completed : Sequence.completed ⟨[⟨.particle .wo, none, 3⟩]⟩
      (Catalog.Builtin.templates .en)[1] =
        ⟨[⟨.noun, some "", 3⟩, ⟨.particle .wo, none, 3⟩, ⟨.verb .summarize, none, 3⟩]⟩ := by
    decide
  obtain ⟨-, -, -, reached⟩ := completion_reaches (Catalog.Builtin.templates .en)[1] (by decide)
    ⟨[⟨.particle .wo, none, 3⟩]⟩
  obtain ⟨-, -, best⟩ := reached (.inr (by decide))
  have ranked := best (Catalog.builtin .en) member
  rw [completed] at ranked
  exact ⟨_, member, completed, ranked⟩

end Template

end PromptBlocks
