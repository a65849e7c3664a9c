import PromptBlocks.Proofs.Pattern.Assignment

/-!
Contract: what the parts of a match mean.

Owns:
- how many slots the greedy filling fills, and when it fills none;
- the share of the template that a score is, in a window and without one;
- the labels that are missing, and the templates that are suggested.

Does not own: the place of a match in a ranking.
-/

namespace PromptBlocks

namespace Slot

variable {slot : Slot} {slots : List Slot} {tokens : List Token}

theorem filledCount_le_tokens (slots : List Slot) (tokens : List Token) :
    filledCount slots tokens ≤ tokens.length := by
  have total := filledCount_add_length_unfilled slots tokens
  have enough := length_le_unfilled slots tokens
  omega

/-- No slot is filled only when none accepts any token: the first slot that accepts one finds all tokens
unused. -/
theorem filledCount_eq_zero_iff :
    filledCount slots tokens = 0 ↔ ∀ slot ∈ slots, tokens.any slot.accepts = false := by
  induction slots with
  | nil => simp [filledCount, filled]
  | cons slot slots inductionHypothesis =>
    rw [List.forall_mem_cons]
    cases taken : tokens.any slot.accepts with
    | true => simp [filledCount_cons_of_any taken]
    | false => simp [filledCount_cons_of_not_any taken, inductionHypothesis]

theorem unfilled_sublist (slots : List Slot) (tokens : List Token) :
    (unfilled slots tokens).Sublist slots := by
  induction slots generalizing tokens with
  | nil => exact List.Sublist.slnil
  | cons slot slots inductionHypothesis =>
    cases taken : tokens.any slot.accepts with
    | true =>
      rw [unfilled_cons_of_any taken]
      exact (inductionHypothesis _).cons slot
    | false =>
      rw [unfilled_cons_of_not_any taken]
      exact (inductionHypothesis tokens).cons_cons slot

end Slot

namespace Template

variable {template : Template} {sequence : Sequence}

/-- Somewhere in the template, the slots accept the tokens of the sequence one after the other. -/
def HasWindow (template : Template) (sequence : Sequence) : Prop :=
  ∃ start, template.HasWindowAt sequence start

/-- Some slot of the template accepts some token of the sequence. -/
def AcceptsSome (template : Template) (sequence : Sequence) : Prop :=
  ∃ slot ∈ template.slots, ∃ token ∈ sequence.tokens, slot.accepts token = true

instance (template : Template) (sequence : Sequence) : Decidable (template.AcceptsSome sequence) :=
  inferInstanceAs (Decidable (∃ slot ∈ template.slots, ∃ token ∈ sequence.tokens,
    slot.accepts token = true))

/-- How many slots are filled by tokens in any order. -/
def filledCount (template : Template) (sequence : Sequence) : Nat :=
  Slot.filledCount template.slots sequence.tokens

theorem hasWindow_of_window? {start : Nat} (window : template.window? sequence = some start) :
    template.HasWindow sequence :=
  ⟨start, (isLeast_of_window? window).1⟩

theorem not_hasWindow_of_noWindow (window : template.window? sequence = none)
    (nonempty : sequence.isEmpty = false) : ¬template.HasWindow sequence := by
  rintro ⟨start, fits⟩
  exact not_hasWindowAt_of_noWindow window nonempty start fits

theorem window?_of_hasWindow (nonempty : sequence.isEmpty = false)
    (fits : template.HasWindow sequence) : ∃ start, template.window? sequence = some start := by
  cases window : template.window? sequence with
  | none => exact absurd fits (not_hasWindow_of_noWindow window nonempty)
  | some start => exact ⟨start, rfl⟩

theorem window?_of_not_hasWindow (misfits : ¬template.HasWindow sequence) :
    template.window? sequence = none := by
  cases window : template.window? sequence with
  | none => rfl
  | some start => exact absurd (hasWindow_of_window? window) misfits

theorem isEmpty_of_length (tokens : 1 ≤ sequence.length) : sequence.isEmpty = false :=
  List.isEmpty_eq_false_iff.mpr (List.length_pos_iff.mp tokens)

theorem length_of_isEmpty (nonempty : sequence.isEmpty = false) : 1 ≤ sequence.length :=
  List.length_pos_iff.mpr (List.isEmpty_eq_false_iff.mp nonempty)

/-! ### Shares -/

/-- In a window, the score is the share of the slots that the sequence covers. -/
theorem score_of_hasWindow (nonempty : sequence.isEmpty = false)
    (fits : template.HasWindow sequence) :
    (template.matchOf sequence).score = (sequence.length / template.length : Rat) := by
  obtain ⟨start, window⟩ := window?_of_hasWindow nonempty fits
  rw [matchOf_of_window? window]

/-- Without a window, the score is half the share of the slots that are filled in any order. -/
theorem score_of_not_hasWindow (nonempty : sequence.isEmpty = false) (slots : template.slots ≠ [])
    (misfits : ¬template.HasWindow sequence) :
    (template.matchOf sequence).score =
      (template.filledCount sequence / (2 * template.length) : Rat) := by
  have total := Slot.filledCount_add_length_unfilled template.slots sequence.tokens
  have filled : template.length - (template.openSlots sequence).length =
      template.filledCount sequence := Nat.sub_eq_of_eq_add total.symm
  rw [matchOf_of_noWindow (window?_of_not_hasWindow misfits) nonempty slots, filled]

theorem length_missing_of_hasWindow (nonempty : sequence.isEmpty = false)
    (fits : template.HasWindow sequence) :
    (template.matchOf sequence).missing.length + sequence.length = template.length := by
  obtain ⟨start, window⟩ := window?_of_hasWindow nonempty fits
  obtain ⟨front, covered, back, split, rfl, spelled, -⟩ := exists_spelled_of_window? window
  have covers : covered.length = sequence.length := spelled.length_eq
  have outside := slotsOutside_of_split split
  rw [covers] at outside
  rw [matchOf_of_window? window, List.length_map, outside, length, split]
  simp only [List.length_append, List.length_zipIdx]
  omega

theorem length_missing_of_not_hasWindow (nonempty : sequence.isEmpty = false)
    (slots : template.slots ≠ []) (misfits : ¬template.HasWindow sequence) :
    (template.matchOf sequence).missing.length + template.filledCount sequence =
      template.length := by
  have total := Slot.filledCount_add_length_unfilled template.slots sequence.tokens
  rw [matchOf_of_noWindow (window?_of_not_hasWindow misfits) nonempty slots, List.length_map,
    Nat.add_comm]
  exact total

theorem missing_sublist (template : Template) (sequence : Sequence) :
    (template.matchOf sequence).missing.Sublist (template.slots.map Slot.label) := by
  rcases nothing_or_tokens_and_slots template sequence with nothing | ⟨tokens, slots⟩
  · rw [matchOf_of_nothing nothing]
  · cases window : template.window? sequence with
    | some start =>
      have outside : ((template.slotsOutside start sequence.length).map Prod.fst).Sublist
          template.slots := by
        have kept : ((template.slotsOutside start sequence.length).map Prod.fst).Sublist
            (template.slots.zipIdx.map Prod.fst) := List.filter_sublist.map Prod.fst
        rwa [List.zipIdx_map_fst] at kept
      have labels := outside.map Slot.label
      rw [List.map_map] at labels
      rw [matchOf_of_window? window]
      exact labels
    | none =>
      rw [matchOf_of_noWindow window tokens slots]
      exact (Slot.unfilled_sublist template.slots sequence.tokens).map Slot.label

/-! ### Nothing and everything -/

theorem spelledBy_iff :
    template.SpelledBy sequence ↔
      sequence.length = template.length ∧
        ∀ (index : Nat) (slot : Slot) (token : Token), template.slots[index]? = some slot →
          sequence.tokens[index]? = some token → slot.accepts token = true := by
  unfold SpelledBy Slot.Spelled
  rw [List.forall₂_iff_get, eq_comm]
  refine and_congr_right fun _ => ⟨fun fits index slot token found here => ?_, fun fits => ?_⟩
  · obtain ⟨inside, rfl⟩ := List.getElem?_eq_some_iff.mp found
    obtain ⟨insideToo, rfl⟩ := List.getElem?_eq_some_iff.mp here
    exact fits index inside insideToo
  · intro index inside insideToo
    exact fits index _ _ (List.getElem?_eq_getElem inside) (List.getElem?_eq_getElem insideToo)

/-- The complete matches are the sequences that spell out a template with slots. -/
theorem isComplete_iff :
    (template.matchOf sequence).isComplete = true ↔
      1 ≤ template.length ∧ template.SpelledBy sequence := by
  constructor
  · intro complete
    rcases nothing_or_tokens_and_slots template sequence with nothing | ⟨tokens, slots⟩
    · rw [matchOf_of_nothing nothing] at complete
      cases complete
    · refine ⟨List.length_pos_iff.mpr slots, ?_⟩
      cases window : template.window? sequence with
      | none =>
        rw [matchOf_of_noWindow window tokens slots] at complete
        cases complete
      | some start =>
        rw [matchOf_of_window? window] at complete
        exact spelledBy_of_window? window (beq_iff_eq.mp complete).ge
  · rintro ⟨slots, spelled⟩
    exact (matchOf_of_spelledBy spelled (List.length_pos_iff.mp slots)).2

theorem acceptsSome_of_hasWindow (nonempty : sequence.isEmpty = false)
    (fits : template.HasWindow sequence) : template.AcceptsSome sequence := by
  obtain ⟨start, fits⟩ := fits
  obtain ⟨token, rest, split⟩ := List.exists_cons_of_ne_nil (List.isEmpty_eq_false_iff.mp nonempty)
  obtain ⟨slot, found, accepted⟩ := fits 0 token (by rw [split]; rfl)
  exact ⟨slot, List.mem_of_getElem? found, token, split ▸ List.mem_cons_self, accepted⟩

theorem filledCount_eq_zero_iff :
    template.filledCount sequence = 0 ↔ ¬template.AcceptsSome sequence := by
  rw [filledCount, Slot.filledCount_eq_zero_iff, AcceptsSome]
  simp only [List.any_eq_false, not_exists, not_and]

theorem score_nonneg (template : Template) (sequence : Sequence) :
    0 ≤ (template.matchOf sequence).score := by
  rcases nothing_or_tokens_and_slots template sequence with nothing | ⟨tokens, slots⟩
  · rw [matchOf_of_nothing nothing]
  · by_cases fits : template.HasWindow sequence
    · rw [score_of_hasWindow tokens fits]
      positivity
    · rw [score_of_not_hasWindow tokens slots fits]
      positivity

theorem score_eq_zero_iff :
    (template.matchOf sequence).score = 0 ↔ ¬template.AcceptsSome sequence := by
  rcases nothing_or_tokens_and_slots template sequence with nothing | ⟨tokens, slots⟩
  · rw [matchOf_of_nothing nothing]
    refine iff_of_true rfl ?_
    rintro ⟨slot, inTemplate, token, inSequence, -⟩
    rcases nothing with noTokens | noSlots
    · rw [List.isEmpty_iff.mp noTokens] at inSequence
      cases inSequence
    · rw [noSlots] at inTemplate
      cases inTemplate
  · have slotCount := (cast_length_pos slots).ne'
    by_cases fits : template.HasWindow sequence
    · have tokenCount : (sequence.length : Rat) ≠ 0 :=
        Nat.cast_ne_zero.mpr (Nat.pos_iff_ne_zero.mp (length_of_isEmpty tokens))
      rw [score_of_hasWindow tokens fits]
      exact iff_of_false (div_ne_zero tokenCount slotCount)
        (not_not_intro (acceptsSome_of_hasWindow tokens fits))
    · rw [score_of_not_hasWindow tokens slots fits, ← filledCount_eq_zero_iff, div_eq_zero_iff,
        Nat.cast_eq_zero]
      exact or_iff_left (mul_ne_zero two_ne_zero slotCount)

theorem score_pos_iff :
    0 < (template.matchOf sequence).score ↔ template.AcceptsSome sequence := by
  rw [(template.score_nonneg sequence).lt_iff_ne', ne_eq, score_eq_zero_iff, not_not]

end Template

/-- What a match says of a template and a sequence. -/
structure Match.Measures (found : Match) (template : Template) (sequence : Sequence) : Prop where
  nonneg : 0 ≤ found.score
  le_one : found.score ≤ 1
  full_iff : found.score = 1 ↔ found.isComplete = true
  complete_iff : found.isComplete = true ↔
    1 ≤ template.length ∧ sequence.length = template.length ∧
      ∀ (index : Nat) (slot : Slot) (token : Token), template.slots[index]? = some slot →
        sequence.tokens[index]? = some token → slot.accepts token = true
  zero_iff : found.score = 0 ↔
    ∀ slot ∈ template.slots, ∀ token ∈ sequence.tokens, slot.accepts token = false
  missing_sublist : found.missing.Sublist (template.slots.map Slot.label)
  /-- Where the sequence fills a window, the score is the share of the slots that are not missing. -/
  share_in_window : 1 ≤ template.length → 1 ≤ sequence.length → template.HasWindow sequence →
    found.score = ((template.length - found.missing.length) / template.length : Rat)
  /-- Where it fills none, the score is half that share. -/
  share_without : 1 ≤ template.length → 1 ≤ sequence.length → ¬template.HasWindow sequence →
    found.score = ((template.length - found.missing.length) / (2 * template.length) : Rat)

/-- With room for all of them, the suggestions are the matches of those templates that accept some token
somewhere. -/
theorem Catalog.suggest_perm {catalog : Catalog} {limit : Nat}
    (room : catalog.templates.length ≤ limit) (sequence : Sequence) :
    (catalog.suggest sequence limit).Perm
      ((catalog.templates.filter fun template => template.AcceptsSome sequence).map
        fun template => template.matchOf sequence) := by
  have positive := (catalog.rank_perm sequence).filter fun found => 0 < found.score
  rw [List.filter_map] at positive
  have kept : ((catalog.rank sequence).filter fun found => 0 < found.score).length ≤ limit := by
    rw [positive.length_eq, List.length_map]
    exact (List.length_filter_le _ _).trans room
  have sameTest : (fun template : Template => decide (template.AcceptsSome sequence)) =
      (fun found : Match => decide (0 < found.score)) ∘ fun template => template.matchOf sequence := by
    funext template
    exact decide_eq_decide.mpr Template.score_pos_iff.symm
  rw [suggest, List.take_of_length_le kept, sameTest]
  exact positive

/-- Every match measures how much of its template a sequence fills, and the suggestions, when there is
room for them, are the matches of the templates that the sequence fills anywhere at all. -/
theorem matches_measure (sequence : Sequence) :
    (∀ template : Template, (template.matchOf sequence).Measures template sequence) ∧
      ∀ (catalog : Catalog) (limit : Nat), catalog.templates.length ≤ limit →
        (catalog.suggest sequence limit).Perm
          ((catalog.templates.filter fun template => template.AcceptsSome sequence).map
            fun template => template.matchOf sequence) := by
  refine ⟨fun template => ?_, fun catalog limit room => Catalog.suggest_perm room sequence⟩
  exact
    { nonneg := template.score_nonneg sequence
      le_one := (template.score_bound sequence).1
      full_iff := (template.score_bound sequence).2
      complete_iff := by rw [Template.isComplete_iff, Template.spelledBy_iff]
      zero_iff := by
        rw [Template.score_eq_zero_iff, Template.AcceptsSome]
        simp only [not_exists, not_and, Bool.not_eq_true]
      missing_sublist := template.missing_sublist sequence
      share_in_window := by
        intro _ tokens fits
        have nonempty := Template.isEmpty_of_length tokens
        have whole := Template.length_missing_of_hasWindow nonempty fits
        rw [Template.score_of_hasWindow nonempty fits, ← whole, Nat.cast_add, add_sub_cancel_left]
      share_without := by
        intro slots tokens misfits
        have nonempty := Template.isEmpty_of_length tokens
        have someSlots := List.length_pos_iff.mp slots
        have whole := Template.length_missing_of_not_hasWindow nonempty someSlots misfits
        rw [Template.score_of_not_hasWindow nonempty someSlots misfits, ← whole, Nat.cast_add,
          add_sub_cancel_left] }

/-- A marker twice over fills no window of the basic sentence and one of its five slots, which makes one
tenth; two built-in templates have such a slot. -/
theorem matches_measure_of_doubled_marker :
    let sequence : Sequence := ⟨[⟨.particle .ga, none, 0⟩, ⟨.particle .ga, none, 0⟩]⟩
    let basic := (Catalog.Builtin.templates .ja)[0]
    1 ≤ basic.length ∧ 1 ≤ sequence.length ∧ ¬basic.HasWindow sequence ∧
      (basic.matchOf sequence).score = 1 / 10 ∧
      (Catalog.builtin .ja).templates.length ≤ 9 ∧
      ((Catalog.builtin .ja).suggest sequence 9).length = 2 := by
  intro sequence basic
  have slots : 1 ≤ basic.length := by decide
  have tokens : 1 ≤ sequence.length := by decide
  have misfits : ¬basic.HasWindow sequence :=
    Template.not_hasWindow_of_noWindow (by decide) (Template.isEmpty_of_length tokens)
  have room : (Catalog.builtin .ja).templates.length ≤ 9 := by decide
  obtain ⟨measures, suggestions⟩ := matches_measure sequence
  have share := (measures basic).share_without slots tokens misfits
  have five : basic.length = 5 := rfl
  have four : (basic.matchOf sequence).missing.length = 4 := by decide
  refine ⟨slots, tokens, misfits, ?_, room, ?_⟩
  · rw [share, five, four]
    norm_num
  · rw [(suggestions _ 9 room).length_eq, List.length_map]
    decide

end PromptBlocks
