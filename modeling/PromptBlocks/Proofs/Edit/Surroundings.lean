import PromptBlocks.Proofs.Edit.Insertion
import PromptBlocks.Proofs.Sequence.Stretches

/-!
Contract: the places of a sequence before and after one token is put in.

Owns:
- the places in front of a token, its own, and those behind it;
- the same with a token put in before it or after it;
- the followers of a place in front, as far as the run reaches.

Does not own: which token is put in.
-/

namespace PromptBlocks

namespace Place

/-- The places of the tokens in front, with `back` behind them. -/
def inFront (earlier back : List Token) : List Place :=
  (listFrom 0 none earlier).map (extend back)

section InFront

variable {earlier back : List Token} {place : Place}

theorem mem_inFront :
    place ∈ inFront earlier back ↔
      ∃ alone ∈ listFrom 0 none earlier, alone.extend back = place :=
  List.mem_map

theorem index_lt_of_mem_inFront (member : place ∈ inFront earlier back) :
    place.index < earlier.length := by
  obtain ⟨alone, inEarlier, rfl⟩ := mem_inFront.mp member
  obtain ⟨front, split, position, -⟩ := mem_listFrom.mp inEarlier
  have width := congrArg List.length split
  rw [List.length_append, List.length_cons] at width
  rw [extend_index]
  omega

theorem le_index_of_mem_listFrom {index : Nat} {previous : Option Token} {tokens : List Token}
    (member : place ∈ listFrom index previous tokens) : index ≤ place.index := by
  obtain ⟨front, -, position, -⟩ := mem_listFrom.mp member
  omega

end InFront

/-- The run of a place takes in the token at a later index. -/
def reaches (place : Place) (index : Nat) : Bool :=
  place.index < index && index ≤ place.index + place.followers.length

theorem reaches_iff {place : Place} {index : Nat} :
    place.reaches index = true ↔
      place.index < index ∧ index ≤ place.index + place.followers.length := by
  simp [reaches]

/-- The tokens behind a place, all of its chain up to a token and that token too. -/
def spans (place : Place) (token : Token) : Bool :=
  place.later.all place.token.sameChain && place.token.sameChain token

/-- What holds of some follower, among the tokens up to the next one, at it, or behind it. -/
theorem any_followers_extend (place : Place) (token : Token) (back : List Token)
    (holds : Token → Bool) :
    (place.extend (token :: back)).followers.any holds =
      (place.followers.any holds ||
        (place.spans token && (holds token || (back.takeWhile place.token.sameChain).any holds))) := by
  obtain ⟨index, before, own, later⟩ := place
  simp only [followers, extend, spans]
  induction later with
  | nil => by_cases joined : own.sameChain token <;> simp [joined]
  | cons next rest inductionHypothesis =>
    by_cases joined : own.sameChain next
    · simp [joined, inductionHypothesis, Bool.or_assoc]
    · simp [joined]

theorem length_followers_extend (place : Place) (token : Token) (back : List Token) :
    place.later.length < (place.extend (token :: back)).followers.length ↔
      place.spans token = true := by
  obtain ⟨index, before, own, later⟩ := place
  simp only [followers, extend, spans]
  induction later with
  | nil => by_cases joined : own.sameChain token <;> simp [joined]
  | cons next rest inductionHypothesis =>
    by_cases joined : own.sameChain next
    · simpa [joined] using inductionHypothesis
    · simp [joined]

/-- A place in front reaches the token behind the front when its run goes on so far. -/
theorem reaches_extend {earlier : List Token} {place : Place}
    (member : place ∈ listFrom 0 none earlier) (token : Token) (back : List Token) :
    (place.extend (token :: back)).reaches earlier.length = place.spans token := by
  obtain ⟨front, split, position, -⟩ := mem_listFrom.mp member
  have width : earlier.length = place.index + 1 + place.later.length := by
    rw [split, List.length_append, List.length_cons]
    omega
  have spanned := length_followers_extend place token back
  rw [Bool.eq_iff_iff, ← spanned, reaches_iff, extend_index]
  omega

end Place

namespace Sequence

variable {sequence : Sequence} {earlier later : List Token} {token : Token}

/-- The place of a token behind those in front of it. -/
def placeBehind (earlier : List Token) (token : Token) (later : List Token) : Place :=
  { index := earlier.length, before := earlier.getLast?.filter token.sameChain, token, later }

/-- The place of a token right behind a known one. -/
def placeNext (index : Nat) (front token : Token) (later : List Token) : Place :=
  { index, before := (some front).filter token.sameChain, token, later }

/-- A token put in before another one takes over its neighbour in front. -/
theorem before_placeBehind_inChain (earlier later : List Token) (token new : Token) :
    (placeBehind earlier (new.inChain token.chain) (token :: later)).before =
      (placeBehind earlier token later).before :=
  rfl

theorem exists_placeBehind_of_mem {place : Place} (member : place ∈ sequence.places) :
    ∃ earlier : List Token, sequence.tokens = earlier ++ place.token :: place.later ∧
      place.index = earlier.length ∧ placeBehind earlier place.token place.later = place := by
  obtain ⟨earlier, split, position, neighbour⟩ := mem_places.mp member
  exact ⟨earlier, split, position, Place.ext position.symm neighbour.symm rfl rfl⟩

theorem places_of_split (split : sequence.tokens = earlier ++ token :: later) :
    sequence.places =
      Place.inFront earlier (token :: later) ++ placeBehind earlier token later ::
        Place.listFrom (earlier.length + 1) (some token) later := by
  rw [places, split, Place.listFrom_append, Option.or_none, Nat.zero_add]
  rfl

/-- With a token put in before another one, the places behind move along. -/
theorem places_insert (split : sequence.tokens = earlier ++ token :: later) (new : Token) :
    (sequence.insert earlier.length new).places =
      Place.inFront earlier (new.inChain token.chain :: token :: later) ++
        placeBehind earlier (new.inChain token.chain) (token :: later) ::
          placeNext (earlier.length + 1) (new.inChain token.chain) token later ::
            (Place.listFrom (earlier.length + 1) (some token) later).map (Place.shift 1) := by
  rw [places_of_split (insert_of_split split new), Place.listFrom, ← Place.listFrom_add]
  rfl

/-- With a token put in after another one, the places behind move along, and the first of them has the
new token in front. -/
theorem places_insertAfter (split : sequence.tokens = earlier ++ token :: later) (new : Token) :
    (sequence.insertAfter earlier.length new).places =
      Place.inFront earlier (token :: new.inChain token.chain :: later) ++
        placeBehind earlier token (new.inChain token.chain :: later) ::
          placeNext (earlier.length + 1) token (new.inChain token.chain) later ::
            (Place.listFrom (earlier.length + 1) (some (new.inChain token.chain)) later).map
              (Place.shift 1) := by
  rw [places_of_split (insertAfter_of_split split new), Place.listFrom, ← Place.listFrom_add]
  rfl

end Sequence

end PromptBlocks
