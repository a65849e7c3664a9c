import Mathlib.Order.Bounds.Basic
import PromptBlocks.Proofs.Pattern.Score

/-!
Contract: windows and fillings told by positions.

Owns:
- where a template has a window for a whole sequence, and that the first one is found;
- takings: which token each slot has when every slot in turn takes the first one that is free;
- the slots that stay open are those that take none.

Does not own: scores, and the plans that fill what is open.
-/

namespace PromptBlocks

/-! ### Windows -/

theorem Slot.fitsAll_iff {tokens : List Token} {slots : List Slot} :
    fitsAll tokens slots = true ↔
      ∀ (offset : Nat) (token : Token), tokens[offset]? = some token →
        ∃ slot, slots[offset]? = some slot ∧ slot.accepts token = true := by
  induction tokens generalizing slots with
  | nil => simp [fitsAll]
  | cons token tokens inductionHypothesis =>
    cases slots with
    | nil =>
      simp only [fitsAll, Bool.false_eq_true, false_iff]
      intro fits
      obtain ⟨slot, found, -⟩ := fits 0 token rfl
      cases found
    | cons slot slots =>
      rw [fitsAll, Bool.and_eq_true, inductionHypothesis]
      constructor
      · rintro ⟨accepted, rest⟩ offset other found
        cases offset with
        | zero =>
          obtain rfl := Option.some.inj found
          exact ⟨slot, rfl, accepted⟩
        | succ offset => exact rest offset other found
      · intro fits
        obtain ⟨first, found, accepted⟩ := fits 0 token rfl
        obtain rfl := Option.some.inj found
        exact ⟨accepted, fun offset other => fits (offset + 1) other⟩

namespace Template

variable {template : Template} {sequence : Sequence} {start : Nat}

/-- The slots from `start` on accept the tokens of the sequence, one after the other and all of them. -/
def HasWindowAt (template : Template) (sequence : Sequence) (start : Nat) : Prop :=
  ∀ (offset : Nat) (token : Token), sequence.tokens[offset]? = some token →
    ∃ slot, template.slots[start + offset]? = some slot ∧ slot.accepts token = true

theorem hasWindowAt_iff :
    template.HasWindowAt sequence start ↔
      Slot.fitsAll sequence.tokens (template.slots.drop start) = true := by
  simp only [HasWindowAt, Slot.fitsAll_iff, List.getElem?_drop]

theorem window?_eq_find? (nonempty : sequence.isEmpty = false) :
    template.window? sequence = (List.range template.slots.length).find? fun start =>
      Slot.fitsAll sequence.tokens (template.slots.drop start) := by
  rw [window?, nonempty, if_neg Bool.false_ne_true, Slot.windowFrom_eq_find?]
  simp only [Nat.zero_add, Option.map_id']

theorem isLeast_of_window? (window : template.window? sequence = some start) :
    IsLeast {start | template.HasWindowAt sequence start} start := by
  obtain ⟨-, -, -, -, -, -, nonempty⟩ := exists_spelled_of_window? window
  rw [window?_eq_find? nonempty, List.find?_range_eq_some] at window
  obtain ⟨fits, -, noEarlier⟩ := window
  refine ⟨hasWindowAt_iff.mpr fits, fun other fitsToo => ?_⟩
  by_contra below
  have misfits := noEarlier other (by omega)
  rw [hasWindowAt_iff.mp fitsToo] at misfits
  cases misfits

theorem not_hasWindowAt_of_noWindow (window : template.window? sequence = none)
    (nonempty : sequence.isEmpty = false) (start : Nat) : ¬template.HasWindowAt sequence start := by
  rw [window?_eq_find? nonempty, List.find?_range_eq_none] at window
  intro fits
  by_cases inside : start < template.slots.length
  · have misfits := window start inside
    rw [hasWindowAt_iff.mp fits] at misfits
    cases misfits
  · obtain ⟨token, rest, split⟩ := List.exists_cons_of_ne_nil (List.isEmpty_eq_false_iff.mp nonempty)
    obtain ⟨slot, found, -⟩ := fits 0 token (by rw [split]; rfl)
    rw [List.getElem?_eq_none (by omega)] at found
    cases found

/-- Without tokens there is nothing to accept, so a window is everywhere. -/
theorem isLeast_of_isEmpty (empty : sequence.isEmpty = true) :
    IsLeast {start | template.HasWindowAt sequence start} 0 := by
  have noTokens : sequence.tokens = [] := List.isEmpty_iff.mp empty
  refine ⟨fun offset token found => ?_, fun other _ => Nat.zero_le other⟩
  rw [noTokens] at found
  cases found

end Template

/-! ### Takings -/

namespace Slot

/-- The places of tokens that the slot accepts and that no earlier slot has taken. -/
def freeFor (slot : Slot) (tokens : List Token) (taken : List (Option Nat)) : Set Nat :=
  {place | (∃ token, tokens[place]? = some token ∧ slot.accepts token = true) ∧ some place ∉ taken}

/-- Each slot in turn takes the first token that it accepts and that is still free, or none when there is
no such token. -/
structure TakesInTurn (slots : List Slot) (tokens : List Token) (taken : List (Option Nat)) :
    Prop where
  length_eq : taken.length = slots.length
  takes_iff : ∀ (index : Nat) (slot : Slot), slots[index]? = some slot → ∀ place : Nat,
    taken[index]? = some (some place) ↔ IsLeast (slot.freeFor tokens (taken.take index)) place

/-- There is only one way to take in turn. -/
theorem TakesInTurn.unique {slots : List Slot} {tokens : List Token} {left right : List (Option Nat)}
    (first : TakesInTurn slots tokens left) (second : TakesInTurn slots tokens right) :
    left = right := by
  have sameUpTo : ∀ count, left.take count = right.take count := by
    intro count
    induction count with
    | zero => rfl
    | succ index inductionHypothesis =>
      rw [List.take_add_one, List.take_add_one, inductionHypothesis]
      suffices left[index]? = right[index]? by rw [this]
      cases here : slots[index]? with
      | none =>
        have beyond := List.getElem?_eq_none_iff.mp here
        rw [List.getElem?_eq_none (first.length_eq ▸ beyond),
          List.getElem?_eq_none (second.length_eq ▸ beyond)]
      | some slot =>
        obtain ⟨inside, -⟩ := List.getElem?_eq_some_iff.mp here
        have leftTakes := first.takes_iff index slot here
        have rightTakes := second.takes_iff index slot here
        rw [List.getElem?_eq_getElem (first.length_eq ▸ inside)] at leftTakes ⊢
        rw [List.getElem?_eq_getElem (second.length_eq ▸ inside)] at rightTakes ⊢
        refine congrArg some (Option.ext fun place => ?_)
        rw [← Option.some.injEq, leftTakes place, inductionHypothesis, ← rightTakes place,
          Option.some.injEq]
  have all := sameUpTo slots.length
  rwa [List.take_of_length_le first.length_eq.le, List.take_of_length_le second.length_eq.le] at all

/-- The slots that have taken no token. -/
def leftOpen (slots : List Slot) (taken : List (Option Nat)) : List Slot :=
  ((slots.zip taken).filter fun (_, place?) => place?.isNone).map Prod.fst

def firstFree? (tokens : List Token) (taken : List (Option Nat)) (slot : Slot) : Option Nat :=
  (List.range tokens.length).find? fun place =>
    tokens[place]?.any slot.accepts && !taken.contains (some place)

/-- What the slots take after others have taken theirs. -/
def takings (tokens : List Token) (taken : List (Option Nat)) : List Slot → List (Option Nat)
  | [] => []
  | slot :: slots =>
    firstFree? tokens taken slot :: takings tokens (taken ++ [firstFree? tokens taken slot]) slots

/-- The tokens that are not taken, with their places. -/
def untakenAt (tokens : List Token) (taken : List (Option Nat)) : List (Token × Nat) :=
  tokens.zipIdx.filter fun entry => !taken.contains (some entry.2)

def untaken (tokens : List Token) (taken : List (Option Nat)) : List Token :=
  (untakenAt tokens taken).map Prod.fst

section Takings

variable {tokens : List Token} {taken : List (Option Nat)} {slot : Slot} {slots : List Slot}
  {place index : Nat}

theorem mem_freeFor_iff :
    place ∈ slot.freeFor tokens taken ↔
      (tokens[place]?.any slot.accepts && !taken.contains (some place)) = true := by
  simp [freeFor, Option.any_eq_true]

theorem firstFree?_eq_some_iff :
    firstFree? tokens taken slot = some place ↔ IsLeast (slot.freeFor tokens taken) place := by
  rw [firstFree?, List.find?_range_eq_some]
  constructor
  · rintro ⟨free, -, first⟩
    refine ⟨mem_freeFor_iff.mpr free, fun other freeToo => ?_⟩
    by_contra below
    have passed := first other (by omega)
    rw [mem_freeFor_iff.mp freeToo] at passed
    cases passed
  · rintro ⟨free, first⟩
    obtain ⟨token, found, -⟩ := free.1
    refine ⟨mem_freeFor_iff.mp free, ?_, fun other below => ?_⟩
    · exact List.mem_range.mpr (List.getElem?_eq_some_iff.mp found).1
    · rw [Bool.not_eq_true', Bool.eq_false_iff]
      intro freeToo
      have bound := first (mem_freeFor_iff.mpr freeToo)
      omega

theorem length_takings (tokens : List Token) (taken : List (Option Nat)) (slots : List Slot) :
    (takings tokens taken slots).length = slots.length := by
  induction slots generalizing taken with
  | nil => rfl
  | cons slot slots inductionHypothesis => simp [takings, inductionHypothesis]

theorem takings_eq_some_iff (here : slots[index]? = some slot) :
    (takings tokens taken slots)[index]? = some (some place) ↔
      IsLeast (slot.freeFor tokens (taken ++ (takings tokens taken slots).take index)) place := by
  induction slots generalizing taken index with
  | nil => cases here
  | cons first slots inductionHypothesis =>
    cases index with
    | zero =>
      obtain rfl := Option.some.inj here
      rw [takings, List.take_zero, List.append_nil, List.getElem?_cons_zero, Option.some.injEq]
      exact firstFree?_eq_some_iff
    | succ index =>
      rw [List.getElem?_cons_succ] at here
      rw [takings, List.getElem?_cons_succ, List.take_succ_cons, inductionHypothesis here,
        List.append_assoc, List.singleton_append]

theorem takesInTurn_takings (slots : List Slot) (tokens : List Token) :
    TakesInTurn slots tokens (takings tokens [] slots) where
  length_eq := length_takings tokens [] slots
  takes_iff := by
    intro index slot here place
    rw [takings_eq_some_iff here, List.nil_append]

/-! ### Open slots are those that take none -/

theorem mem_untakenAt {token : Token} :
    (token, place) ∈ untakenAt tokens taken ↔ tokens[place]? = some token ∧ some place ∉ taken := by
  simp [untakenAt, List.mem_zipIdx_iff_getElem?]

theorem pairwise_untakenAt (tokens : List Token) (taken : List (Option Nat)) :
    (untakenAt tokens taken).Pairwise fun left right => left.2 < right.2 := by
  have places : (tokens.zipIdx.map Prod.snd).Pairwise (· < ·) := by
    rw [List.zipIdx_map_snd]
    exact List.pairwise_lt_range'
  exact (List.pairwise_map.mp places).filter _

theorem any_untaken (tokens : List Token) (taken : List (Option Nat)) (slot : Slot) :
    (untaken tokens taken).any slot.accepts = (firstFree? tokens taken slot).isSome := by
  rw [Bool.eq_iff_iff, List.any_eq_true, firstFree?, List.find?_isSome]
  constructor
  · rintro ⟨token, member, accepted⟩
    obtain ⟨⟨token, place⟩, inside, rfl⟩ := List.mem_map.mp member
    obtain ⟨found, free⟩ := mem_untakenAt.mp inside
    refine ⟨place, ?_, mem_freeFor_iff.mp ⟨⟨token, found, accepted⟩, free⟩⟩
    exact List.mem_range.mpr (List.getElem?_eq_some_iff.mp found).1
  · rintro ⟨place, -, free⟩
    obtain ⟨⟨token, found, accepted⟩, free⟩ := mem_freeFor_iff.mpr free
    exact ⟨token, List.mem_map_of_mem (mem_untakenAt.mpr ⟨found, free⟩), accepted⟩

/-- In a list ordered by places, erasing the first entry that passes a test removes its place. -/
theorem eraseP_eq_filter {entries : List (Token × Nat)} {accepts : Token → Bool} {token : Token}
    (ordered : entries.Pairwise fun left right => left.2 < right.2)
    (member : (token, place) ∈ entries) (accepted : accepts token = true)
    (first : ∀ entry ∈ entries, entry.2 < place → accepts entry.1 = false) :
    entries.eraseP (accepts ∘ Prod.fst) = entries.filter fun entry => entry.2 != place := by
  induction ordered with
  | nil => cases member
  | @cons entry entries above _ inductionHypothesis =>
    cases member with
    | head =>
      have othersStay : ∀ other ∈ entries, (other.2 != place) = true := fun other inRest =>
        bne_iff_ne.mpr (above other inRest).ne'
      rw [List.eraseP_cons_of_pos (by simpa using accepted), List.filter_cons_of_neg (by simp),
        List.filter_eq_self.mpr othersStay]
    | tail _ inRest =>
      have below : entry.2 < place := above _ inRest
      have refused : accepts entry.1 = false := first entry List.mem_cons_self below
      rw [List.eraseP_cons_of_neg (by simp [refused]),
        List.filter_cons_of_pos (by simpa using below.ne),
        inductionHypothesis inRest fun other inside => first other (List.mem_cons_of_mem entry inside)]

theorem untaken_nil (tokens : List Token) : untaken tokens [] = tokens := by
  simp [untaken, untakenAt]

theorem untaken_concat_none : untaken tokens (taken ++ [none]) = untaken tokens taken := by
  simp [untaken, untakenAt]

/-- Taking the first free token erases the first one that the slot accepts. -/
theorem eraseP_untaken (free : firstFree? tokens taken slot = some place) :
    (untaken tokens taken).eraseP slot.accepts = untaken tokens (taken ++ [some place]) := by
  obtain ⟨⟨⟨token, found, accepted⟩, notTaken⟩, first⟩ := firstFree?_eq_some_iff.mp free
  have member : (token, place) ∈ untakenAt tokens taken := mem_untakenAt.mpr ⟨found, notTaken⟩
  have refused : ∀ entry ∈ untakenAt tokens taken, entry.2 < place →
      slot.accepts entry.1 = false := by
    rintro ⟨other, earlier⟩ inside below
    obtain ⟨foundThere, free⟩ := mem_untakenAt.mp inside
    rw [Bool.eq_false_iff]
    intro accepts
    exact absurd below (Nat.not_lt.mpr (first ⟨⟨other, foundThere, accepts⟩, free⟩))
  have removed : (untakenAt tokens taken).filter (fun entry => entry.2 != place) =
      untakenAt tokens (taken ++ [some place]) := by
    rw [untakenAt, List.filter_filter, untakenAt]
    refine List.filter_congr fun entry _ => ?_
    rw [Bool.eq_iff_iff]
    simp [and_comm]
  rw [untaken, List.eraseP_map,
    eraseP_eq_filter (pairwise_untakenAt tokens taken) member accepted refused, removed]
  rfl

theorem filled_untaken (tokens : List Token) (taken : List (Option Nat)) (slots : List Slot) :
    filled slots (untaken tokens taken) = (takings tokens taken slots).map Option.isSome := by
  induction slots generalizing taken with
  | nil => rfl
  | cons slot slots inductionHypothesis =>
    rw [filled, any_untaken, takings, List.map_cons]
    cases free : firstFree? tokens taken slot with
    | none =>
      rw [if_neg (by simp), ← inductionHypothesis, untaken_concat_none]
      rfl
    | some place =>
      rw [if_pos (by rfl), ← inductionHypothesis, eraseP_untaken free]
      rfl

/-- The open slots are those that take no token when each in turn takes the first free one. -/
theorem unfilled_eq_leftOpen (slots : List Slot) (tokens : List Token) :
    unfilled slots tokens = leftOpen slots (takings tokens [] slots) := by
  have filling := filled_untaken tokens [] slots
  rw [untaken_nil] at filling
  rw [unfilled, filling, leftOpen, List.zip_map_right, List.filterMap_map, ← List.filterMap_eq_filter,
    List.map_filterMap]
  refine List.filterMap_congr ?_
  rintro ⟨slot, place?⟩ -
  cases place? with
  | none => rfl
  | some place => rfl

end Takings

end Slot

end PromptBlocks
