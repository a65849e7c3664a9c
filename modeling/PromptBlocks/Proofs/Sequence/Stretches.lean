import Mathlib.Data.List.Basic
import Mathlib.Data.List.TakeWhile
import PromptBlocks.Proofs.Sequence.Places
import PromptBlocks.Proofs.Sequence.Runs

/-!
Contract: the places of lists that are joined, moved along, or cut into runs.

Owns:
- places with more tokens behind them, moved along, or with only their run in sight;
- the places of two joined lists;
- what is read off places within their runs, read run by run.

Does not own: what any rule reads off a place.
-/

namespace PromptBlocks

namespace Place

/-- The place with more tokens behind the last one. -/
def extend (back : List Token) (place : Place) : Place :=
  { place with later := place.later ++ back }

/-- The place with as many more tokens in front. -/
def shift (offset : Nat) (place : Place) : Place :=
  { place with index := place.index + offset }

/-- The place with nothing in sight but its run. -/
def inRun (place : Place) : Place :=
  { place with later := place.followers }

section Views

variable (place : Place) (back : List Token) (offset : Nat)

@[simp] theorem extend_index : (place.extend back).index = place.index := rfl

@[simp] theorem shift_index : (place.shift offset).index = place.index + offset := rfl
@[simp] theorem shift_before : (place.shift offset).before = place.before := rfl
@[simp] theorem shift_token : (place.shift offset).token = place.token := rfl
@[simp] theorem shift_next? : (place.shift offset).next? = place.next? := rfl
@[simp] theorem shift_followers : (place.shift offset).followers = place.followers := rfl

@[simp] theorem inRun_index : place.inRun.index = place.index := rfl
@[simp] theorem inRun_before : place.inRun.before = place.before := rfl
@[simp] theorem inRun_token : place.inRun.token = place.token := rfl

@[simp] theorem inRun_followers : place.inRun.followers = place.followers :=
  List.takeWhile_idem

/-- The neighbour behind is the first follower. -/
theorem next?_eq_head?_followers : place.next? = place.followers.head? := by
  unfold next? followers
  cases place.later with
  | nil => rfl
  | cons token rest =>
    by_cases joined : place.token.sameChain token <;> simp [joined]

@[simp] theorem inRun_next? : place.inRun.next? = place.next? := by
  rw [next?_eq_head?_followers, inRun_followers, next?_eq_head?_followers]

end Views

/-! ### Joined lists -/

theorem listFrom_append (index : Nat) (previous : Option Token) (front back : List Token) :
    listFrom index previous (front ++ back) =
      (listFrom index previous front).map (extend back) ++
        listFrom (index + front.length) (front.getLast?.or previous) back := by
  induction front generalizing index previous with
  | nil => simp [listFrom]
  | cons token rest inductionHypothesis =>
    have width : index + 1 + rest.length = index + (token :: rest).length := by
      rw [List.length_cons]
      omega
    rw [List.cons_append, listFrom, inductionHypothesis, listFrom, getLast?_cons_or, width]
    rfl

theorem listFrom_add (index offset : Nat) (previous : Option Token) (tokens : List Token) :
    listFrom (index + offset) previous tokens =
      (listFrom index previous tokens).map (shift offset) := by
  induction tokens generalizing index previous with
  | nil => rfl
  | cons token rest inductionHypothesis =>
    have next : index + offset + 1 = index + 1 + offset := by omega
    rw [listFrom, next, inductionHypothesis, listFrom]
    rfl

/-- A previous token of another chain is out of sight. -/
theorem listFrom_of_apart {previous : Option Token} {tokens : List Token}
    (apart : ∀ token ∈ previous, ∀ next ∈ tokens.head?, next.chain ≠ token.chain) (index : Nat) :
    listFrom index previous tokens = listFrom index none tokens := by
  cases tokens with
  | nil => rfl
  | cons next rest =>
    have unseen : previous.filter next.sameChain = none := by
      refine Option.filter_eq_none_iff.mpr fun token isPrevious joined => ?_
      exact apart token isPrevious next rfl (beq_iff_eq.mp joined)
    rw [listFrom, listFrom, unseen]
    rfl

/-! ### Runs -/

section Runs

variable {chain : Nat} {run rest : List Token} {place : Place}

/-- Within a run of one chain, nothing else is in sight, whatever other chain follows. -/
theorem inRun_extend_of_mem {index : Nat} {previous : Option Token}
    (ofChain : ∀ token ∈ run, token.chain = chain)
    (apart : ∀ next ∈ rest.head?, next.chain ≠ chain)
    (member : place ∈ listFrom index previous run) : (place.extend rest).inRun = place := by
  obtain ⟨earlier, split, -, -⟩ := mem_listFrom.mp member
  have tokenChain : place.token.chain = chain := ofChain _ (by simp [split])
  have laterJoined : ∀ token ∈ place.later, place.token.sameChain token = true := by
    intro token inLater
    have tokenInRun : token ∈ run := by simp [split, inLater]
    exact beq_iff_eq.mpr (tokenChain.trans (ofChain token tokenInRun).symm)
  have restCut : rest.takeWhile place.token.sameChain = [] := by
    cases rest with
    | nil => rfl
    | cons next others =>
      have different : place.token.sameChain next = false :=
        beq_false_of_ne fun equal => apart next rfl (equal.symm.trans tokenChain)
      simp [different]
  have sight : (place.extend rest).followers = place.later := by
    show (place.later ++ rest).takeWhile place.token.sameChain = place.later
    rw [List.takeWhile_append_of_pos laterJoined, restCut, List.append_nil]
  show { place with later := (place.extend rest).followers } = place
  rw [sight]

variable {Reading : Type} {read : Place → List Reading}

/-- What is read off places within their runs, read before and behind the end of a run. -/
theorem flatMap_listFrom_append (nearsighted : ∀ place, read place.inRun = read place)
    (ofChain : ∀ token ∈ run, token.chain = chain)
    (apart : ∀ next ∈ rest.head?, next.chain ≠ chain) (index : Nat) :
    (listFrom index none (run ++ rest)).flatMap read =
      (listFrom index none run).flatMap read ++
        (listFrom (index + run.length) none rest).flatMap read := by
  have front : ((listFrom index none run).map (extend rest)).flatMap read =
      (listFrom index none run).flatMap read := by
    rw [List.flatMap_map]
    refine List.flatMap_congr fun place member => ?_
    rw [← nearsighted, inRun_extend_of_mem ofChain apart member]
  have lastApart : ∀ token ∈ run.getLast?.or none, ∀ next ∈ rest.head?,
      next.chain ≠ token.chain := by
    intro token isLast next isNext
    rw [Option.or_none] at isLast
    rw [ofChain token (List.mem_of_getLast? isLast)]
    exact apart next isNext
  rw [listFrom_append, List.flatMap_append, front, listFrom_of_apart lastApart]

/-- What is read off places within their runs is read run by run. -/
theorem flatMap_listFrom_flatten (nearsighted : ∀ place, read place.inRun = read place)
    {runs : List (List Token)} (cut : Sequence.IsCut runs) (start : Nat) :
    (listFrom start none runs.flatten).flatMap read =
      (Sequence.startsFrom start runs).flatMap fun (first, run) =>
        (listFrom first none run).flatMap read := by
  induction cut generalizing start with
  | nil => rfl
  | cons _ ofChain apart _ inductionHypothesis =>
    rw [List.flatten_cons, flatMap_listFrom_append nearsighted ofChain apart, inductionHypothesis]
    rfl

end Runs

end Place

/-- What is read off the places of a sequence within their runs is read off each run by itself, with
the places moved to where the run starts. -/
theorem Sequence.flatMap_places {Reading : Type} {read : Place → List Reading}
    (nearsighted : ∀ place, read place.inRun = read place) (sequence : Sequence) :
    sequence.places.flatMap read =
      sequence.startedRuns.flatMap fun (start, run) =>
        ((Sequence.mk run).places.map (Place.shift start)).flatMap read := by
  have cut := Place.flatMap_listFrom_flatten nearsighted (isCut_runsOf sequence.tokens) 0
  rw [flatten_runsOf] at cut
  rw [places, cut]
  refine List.flatMap_congr ?_
  rintro ⟨start, run⟩ -
  have moved : Place.listFrom start none run = (Sequence.mk run).places.map (Place.shift start) := by
    rw [places, ← Place.listFrom_add, Nat.zero_add]
  exact congrArg (List.flatMap read) moved

end PromptBlocks
