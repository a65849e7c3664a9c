import Mathlib.Data.List.Forall2
import PromptBlocks.Pattern.Match

/-!
Contract: tokens that fill slots, one by one or in any order.

Owns:
- the token that a slot makes, which fills it in any chain;
- a window as a stretch of slots that the tokens spell out;
- open slots: when each gets the token it makes, the greedy filling leaves none open.

Does not own: scores, and the plans that put the tokens in.
-/

namespace PromptBlocks.Slot

/-- The token that a slot makes, in a chain. -/
def tokenIn (chain : Nat) (slot : Slot) : Token :=
  slot.token.inChain chain

/-- The tokens fill the slots one by one, none left over. -/
def Spelled (slots : List Slot) (tokens : List Token) : Prop :=
  List.Forall₂ (fun slot token => slot.accepts token = true) slots tokens

/-- The slots that stay open when every slot in order takes the first unused token that it accepts. -/
def unfilled (slots : List Slot) (tokens : List Token) : List Slot :=
  (slots.zip (filled slots tokens)).filterMap fun (slot, isFilled) =>
    if isFilled then none else some slot

section Accepts

variable {slots : List Slot} {tokens : List Token}

/-- A slot takes the token it makes, whatever its preset text. -/
theorem accepts_tokenIn (slot : Slot) (chain : Nat) : slot.accepts (slot.tokenIn chain) = true := by
  obtain ⟨block, label, isPlaceholder, preset⟩ := slot
  cases block with
  | other =>
    cases preset <;>
      simp [accepts, tokenIn, token, Token.ofBlock, Token.inChain, Token.kind, Block.kind,
        Block.isFreeText]
  | _ => simp [accepts, tokenIn, token, Token.ofBlock, Token.inChain, Token.kind, Block.kind]

theorem spelled_tokenIn (slots : List Slot) (chain : Nat) :
    Spelled slots (slots.map (tokenIn chain)) := by
  induction slots with
  | nil => exact List.Forall₂.nil
  | cons slot slots inductionHypothesis =>
    exact List.Forall₂.cons (accepts_tokenIn slot chain) inductionHypothesis

theorem Spelled.length_eq (spelled : Spelled slots tokens) : slots.length = tokens.length :=
  List.Forall₂.length_eq spelled

end Accepts

/-! ### Windows -/

section Windows

variable {slots : List Slot} {tokens : List Token}

theorem fitsAll_of_spelled (spelled : Spelled slots tokens) : fitsAll tokens slots = true := by
  induction spelled with
  | nil => rfl
  | cons accepted _ inductionHypothesis => rw [fitsAll, accepted, inductionHypothesis, Bool.and_true]

/-- Tokens that fill the first slots spell out as many of them. -/
theorem exists_spelled_of_fitsAll (fits : fitsAll tokens slots = true) :
    ∃ window back, slots = window ++ back ∧ Spelled window tokens := by
  induction tokens generalizing slots with
  | nil => exact ⟨[], slots, rfl, List.Forall₂.nil⟩
  | cons token tokens inductionHypothesis =>
    cases slots with
    | nil => cases fits
    | cons slot slots =>
      rw [fitsAll, Bool.and_eq_true] at fits
      obtain ⟨accepted, rest⟩ := fits
      obtain ⟨window, back, rfl, spelled⟩ := inductionHypothesis rest
      exact ⟨slot :: window, back, rfl, List.Forall₂.cons accepted spelled⟩

/-- A window is looked for offset by offset. -/
theorem windowFrom_eq_find? (tokens : List Token) (start : Nat) (slots : List Slot) :
    windowFrom tokens start slots =
      ((List.range slots.length).find? fun offset => fitsAll tokens (slots.drop offset)).map
        (start + ·) := by
  induction slots generalizing start with
  | nil => rfl
  | cons slot later inductionHypothesis =>
    rw [windowFrom, List.length_cons, List.range_succ_eq_map, List.find?_cons, List.drop_zero]
    by_cases fits : fitsAll tokens (slot :: later) = true
    · rw [if_pos fits, fits]
      rfl
    · have shifted : (start + ·) ∘ Nat.succ = (start + 1 + ·) := by
        funext offset
        exact Nat.add_right_comm start offset 1
      rw [if_neg fits, Bool.eq_false_iff.mpr fits, inductionHypothesis, List.find?_map,
        Option.map_map, shifted]
      rfl

theorem exists_spelled_of_windowFrom {start found : Nat}
    (window : windowFrom tokens start slots = some found) :
    ∃ front covered back, slots = front ++ (covered ++ back) ∧ found = start + front.length ∧
      Spelled covered tokens := by
  rw [windowFrom_eq_find?] at window
  obtain ⟨offset, first, rfl⟩ := Option.map_eq_some_iff.mp window
  rw [List.find?_range_eq_some] at first
  obtain ⟨fits, inRange, -⟩ := first
  have inside : offset < slots.length := List.mem_range.mp inRange
  obtain ⟨covered, back, split, spelled⟩ := exists_spelled_of_fitsAll fits
  refine ⟨slots.take offset, covered, back, ?_, ?_, spelled⟩
  · rw [← split, List.take_append_drop]
  · rw [List.length_take, Nat.min_eq_left (Nat.le_of_lt inside)]

theorem windowFrom_of_spelled (spelled : Spelled slots tokens) (nonempty : slots ≠ [])
    (start : Nat) : windowFrom tokens start slots = some start := by
  cases slots with
  | nil => exact absurd rfl nonempty
  | cons slot later => rw [windowFrom, if_pos (fitsAll_of_spelled spelled)]

end Windows

/-! ### Open slots -/

section Open

variable {slot : Slot} {slots : List Slot} {tokens : List Token}

theorem unfilled_cons_of_any (taken : tokens.any slot.accepts = true) :
    unfilled (slot :: slots) tokens = unfilled slots (tokens.eraseP slot.accepts) := by
  rw [unfilled, filled, if_pos taken]
  rfl

theorem unfilled_cons_of_not_any (untaken : tokens.any slot.accepts = false) :
    unfilled (slot :: slots) tokens = slot :: unfilled slots tokens := by
  rw [unfilled, filled, if_neg (Bool.eq_false_iff.mp untaken)]
  rfl

/-- Without tokens, every slot stays open. -/
theorem unfilled_nil (slots : List Slot) : unfilled slots [] = slots := by
  induction slots with
  | nil => rfl
  | cons slot slots inductionHypothesis => rw [unfilled_cons_of_not_any rfl, inductionHypothesis]

/-- Run again with a token for each open slot behind the others, the filling leaves none open: a slot
that took a token takes the same one, and an open slot passes over the others to its own. -/
theorem unfilled_append_tokenIn (slots : List Slot) (tokens : List Token) (chain : Nat) :
    unfilled slots (tokens ++ (unfilled slots tokens).map (tokenIn chain)) = [] := by
  induction slots generalizing tokens with
  | nil => rfl
  | cons slot slots inductionHypothesis =>
    by_cases taken : tokens.any slot.accepts = true
    · obtain ⟨token, member, accepted⟩ := List.any_eq_true.mp taken
      rw [unfilled_cons_of_any taken]
      have stillTaken : (tokens ++ (unfilled slots (tokens.eraseP slot.accepts)).map
          (tokenIn chain)).any slot.accepts = true := by
        rw [List.any_append, taken, Bool.true_or]
      rw [unfilled_cons_of_any stillTaken, List.eraseP_append_left accepted _ member]
      exact inductionHypothesis _
    · have untaken : tokens.any slot.accepts = false := Bool.eq_false_iff.mpr taken
      have passedOver : ∀ token ∈ tokens, ¬slot.accepts token = true := by
        simpa using untaken
      have own := accepts_tokenIn slot chain
      rw [unfilled_cons_of_not_any untaken, List.map_cons]
      have nowTaken : (tokens ++ slot.tokenIn chain ::
          (unfilled slots tokens).map (tokenIn chain)).any slot.accepts = true := by
        rw [List.any_append, List.any_cons, own, Bool.true_or, Bool.or_true]
      rw [unfilled_cons_of_any nowTaken, List.eraseP_append_right _ passedOver,
        List.eraseP_cons_of_pos own]
      exact inductionHypothesis tokens

/-- Each token fills at most one slot. -/
theorem length_le_unfilled (slots : List Slot) (tokens : List Token) :
    slots.length ≤ tokens.length + (unfilled slots tokens).length := by
  induction slots generalizing tokens with
  | nil => exact Nat.zero_le _
  | cons slot slots inductionHypothesis =>
    by_cases taken : tokens.any slot.accepts = true
    · obtain ⟨token, member, accepted⟩ := List.any_eq_true.mp taken
      have used := List.length_eraseP_of_mem member accepted
      have present := List.length_pos_of_mem member
      have rest := inductionHypothesis (tokens.eraseP slot.accepts)
      rw [unfilled_cons_of_any taken, List.length_cons]
      omega
    · have rest := inductionHypothesis tokens
      rw [unfilled_cons_of_not_any (Bool.eq_false_iff.mpr taken), List.length_cons, List.length_cons]
      omega

/-- The slots that are not filled, told from the flags of all. -/
theorem map_filter_zip_filled (slots : List Slot) (tokens : List Token) :
    ((slots.zip (filled slots tokens)).filter fun (_, isFilled) => !isFilled).map Prod.fst =
      unfilled slots tokens := by
  rw [unfilled, ← List.filterMap_eq_map, List.filterMap_filter]
  refine List.filterMap_congr ?_
  rintro ⟨slot, isFilled⟩ -
  cases isFilled <;> rfl

/-- How many slots are filled when every slot in order takes the first unused token that it accepts. -/
def filledCount (slots : List Slot) (tokens : List Token) : Nat :=
  (filled slots tokens).count true

theorem filledCount_cons_of_any (taken : tokens.any slot.accepts = true) :
    filledCount (slot :: slots) tokens = filledCount slots (tokens.eraseP slot.accepts) + 1 := by
  rw [filledCount, filled, if_pos taken, List.count_cons_self]
  rfl

theorem filledCount_cons_of_not_any (untaken : tokens.any slot.accepts = false) :
    filledCount (slot :: slots) tokens = filledCount slots tokens := by
  rw [filledCount, filled, if_neg (Bool.eq_false_iff.mp untaken),
    List.count_cons_of_ne Bool.false_ne_true]
  rfl

/-- A slot is filled or stays open. -/
theorem filledCount_add_length_unfilled (slots : List Slot) (tokens : List Token) :
    filledCount slots tokens + (unfilled slots tokens).length = slots.length := by
  induction slots generalizing tokens with
  | nil => rfl
  | cons slot slots inductionHypothesis =>
    cases taken : tokens.any slot.accepts with
    | true =>
      have rest := inductionHypothesis (tokens.eraseP slot.accepts)
      rw [filledCount_cons_of_any taken, unfilled_cons_of_any taken, List.length_cons]
      omega
    | false =>
      have rest := inductionHypothesis tokens
      rw [filledCount_cons_of_not_any taken, unfilled_cons_of_not_any taken, List.length_cons,
        List.length_cons]
      omega

end Open

end PromptBlocks.Slot
