import PromptBlocks.Proofs.Edit.Insertion
import PromptBlocks.Proofs.Grammar.Cost.Basic
import PromptBlocks.Proofs.Grammar.Japanese

/-!
Contract: every fix of the Japanese profile lowers the cost of the notes.

Owns:
- the cost of the notes as a walk over the tokens: what each token costs behind its neighbour, and
  what the first verb costs;
- the walk over a list with one token put in;
- the step: each remedy of the profile lowers the cost.

Does not own: runs of fixes.
-/

namespace PromptBlocks.Grammar.Japanese

/-! ### The cost as a walk over the tokens -/

/-- What a token costs behind its neighbour in the run. -/
def joinCost (before : Option Token) (token : Token) : Nat :=
  match token.block with
  | .particle _ => if (particleFault? (before.map Token.kind)).isSome then 1 else 0
  | .noun => if before.map Token.kind = some .noun then 1 else 0
  | _ => 0

def joinCosts (previous : Option Token) : List Token → Nat
  | [] => 0
  | token :: later => joinCost (previous.filter token.sameChain) token + joinCosts (some token) later

/-- What the missing subject costs: there is a verb and no subject marker. -/
def subjectCost (tokens : List Token) : Nat :=
  if (tokens.any fun token => token.kind == .verb) &&
      !(tokens.any fun token => token.block == .particle .ga) then 2
  else 0

/-- What the missing object costs: a verb comes up before any object marker. -/
def objectCost : List Token → Nat
  | [] => 0
  | token :: later =>
    if token.kind == .verb then 2
    else if token.block == .particle .wo then 0
    else objectCost later

theorem repairCost_join (place : Place) :
    Note.repairCost (particleNote? place).toList + Note.repairCost (nounNote? place).toList =
      joinCost place.before place.token := by
  have kindOf : place.token.kind = place.token.block.kind := rfl
  unfold particleNote? nounNote? joinCost
  rw [kindOf]
  generalize place.before.map Token.kind = before
  cases place.token.block with
  | particle word =>
    cases fault : particleFault? before with
    | none => rfl
    | some code => rcases code_of_particleFault? fault with rfl | rfl <;> rfl
  | noun =>
    cases before with
    | none => rfl
    | some kind => cases kind <;> rfl
  | _ => rfl

theorem repairCost_joins (index : Nat) (previous : Option Token) (tokens : List Token) :
    Note.repairCost ((Place.listFrom index previous tokens).filterMap particleNote?) +
        Note.repairCost ((Place.listFrom index previous tokens).filterMap nounNote?) =
      joinCosts previous tokens := by
  induction tokens generalizing index previous with
  | nil => rfl
  | cons token later inductionHypothesis =>
    rw [Place.listFrom, Note.repairCost_filterMap_cons, Note.repairCost_filterMap_cons, joinCosts,
      ← inductionHypothesis (index + 1) (some token)]
    have here : _ = joinCost (previous.filter token.sameChain) token :=
      repairCost_join { index, before := previous.filter token.sameChain, token, later }
    omega

theorem repairCost_verbs (places : List Place) :
    Note.repairCost (places.filterMap verbNote?) = 0 := by
  refine Note.repairCost_eq_zero fun note member => ?_
  obtain ⟨place, -, rule⟩ := List.mem_filterMap.mp member
  obtain ⟨-, -, rfl⟩ := verbNote?_eq_some.mp rule
  rfl

/-- In front of the first verb only an object marker ends the search. -/
theorem objectCost_of_split {earlier later : List Token} {verb : Token} (isVerb : verb.kind = .verb)
    (first : ∀ token ∈ earlier, token.kind ≠ .verb) :
    objectCost (earlier ++ verb :: later) =
      if earlier.any fun token => token.block == .particle .wo then 0 else 2 := by
  induction earlier with
  | nil =>
    rw [List.nil_append, objectCost, if_pos (beq_iff_eq.mpr isVerb)]
    rfl
  | cons token rest inductionHypothesis =>
    have notVerb : ¬ (token.kind == .verb) = true :=
      fun equal => first token List.mem_cons_self (beq_iff_eq.mp equal)
    rw [List.cons_append, objectCost, if_neg notVerb, List.any_cons,
      inductionHypothesis fun other member => first other (List.mem_cons_of_mem _ member)]
    by_cases marker : (token.block == .particle .wo) = true
    · rw [if_pos marker, marker, Bool.true_or]
      rfl
    · rw [if_neg marker, Bool.eq_false_iff.mpr marker, Bool.false_or]

theorem objectCost_of_no_verb {tokens : List Token}
    (absent : ∀ token ∈ tokens, token.kind ≠ .verb) : objectCost tokens = 0 := by
  induction tokens with
  | nil => rfl
  | cons token later inductionHypothesis =>
    have notVerb : ¬ (token.kind == .verb) = true :=
      fun equal => absent token List.mem_cons_self (beq_iff_eq.mp equal)
    rw [objectCost, if_neg notVerb,
      inductionHypothesis fun other member => absent other (List.mem_cons_of_mem _ member)]
    split <;> rfl

theorem repairCost_subjectNote? (tokens : List Token) (firstVerb : Nat) :
    Note.repairCost (subjectNote? tokens firstVerb).toList =
      if tokens.any fun token => token.block == .particle .ga then 0 else 2 := by
  unfold subjectNote?
  split <;> rfl

theorem repairCost_objectNote? (tokens : List Token) (firstVerb : Nat) :
    Note.repairCost (objectNote? tokens firstVerb).toList =
      if (tokens.take firstVerb).any fun token => token.block == .particle .wo then 0 else 2 := by
  unfold objectNote?
  split <;> rfl

theorem repairCost_sentenceNotes (tokens : List Token) :
    Note.repairCost (sentenceNotes tokens) = subjectCost tokens + objectCost tokens := by
  unfold sentenceNotes
  cases found : tokens.findIdx? fun token => token.kind == .verb with
  | none =>
    have absent : ∀ token ∈ tokens, (token.kind == .verb) = false := List.findIdx?_eq_none_iff.mp found
    have noVerb : (tokens.any fun token => token.kind == .verb) = false :=
      List.any_eq_false.mpr fun token member => Bool.eq_false_iff.mp (absent token member)
    rw [subjectCost, noVerb,
      objectCost_of_no_verb fun token member => ne_of_beq_false (absent token member)]
    rfl
  | some firstVerb =>
    obtain ⟨earlier, verb, later, rfl, isVerb, first, rfl⟩ := findIdx?_verb_eq_some.mp found
    have hasVerb : ((earlier ++ verb :: later).any fun token => token.kind == .verb) = true :=
      List.any_eq_true.mpr ⟨verb, List.mem_append_right _ List.mem_cons_self,
        beq_iff_eq.mpr isVerb⟩
    show Note.repairCost ((subjectNote? _ _).toList ++ (objectNote? _ _).toList) = _
    rw [Note.repairCost_append, repairCost_subjectNote?, repairCost_objectNote?, List.take_left,
      objectCost_of_split isVerb first, subjectCost, hasVerb, Bool.true_and]
    cases (earlier ++ verb :: later).any fun token => token.block == .particle .ga <;> rfl

theorem repairCost_notes (sequence : Sequence) :
    Note.repairCost (notes sequence) =
      joinCosts none sequence.tokens + subjectCost sequence.tokens +
        objectCost sequence.tokens := by
  unfold notes
  rw [Note.repairCost_append, Note.repairCost_append, Note.repairCost_append, repairCost_verbs,
    repairCost_sentenceNotes, ← repairCost_joins 0 none sequence.tokens]
  show _ = Note.repairCost (sequence.places.filterMap particleNote?) +
    Note.repairCost (sequence.places.filterMap nounNote?) + _ + _
  omega

/-! ### One token put in -/

theorem joinCosts_append (previous : Option Token) (front back : List Token) :
    joinCosts previous (front ++ back) =
      joinCosts previous front + joinCosts (front.getLast?.or previous) back := by
  induction front generalizing previous with
  | nil => exact (Nat.zero_add _).symm
  | cons token rest inductionHypothesis =>
    rw [List.cons_append, joinCosts, inductionHypothesis, Place.getLast?_cons_or, joinCosts]
    omega

/-- A token put in front of another one, in its chain, changes only the two joins that it makes and
the one that it breaks. -/
theorem joinCosts_insert {earlier later : List Token} {token : Token} {before : Option Token}
    (neighbour : before = earlier.getLast?.filter token.sameChain) (new : Token) :
    joinCosts none (earlier ++ new.inChain token.chain :: token :: later) + joinCost before token =
      joinCosts none (earlier ++ token :: later) + joinCost before new +
        joinCost (some new) token := by
  have sameFilter : (new.inChain token.chain).sameChain = token.sameChain := rfl
  rw [joinCosts_append, joinCosts_append, Option.or_none, joinCosts, joinCosts, joinCosts,
    sameFilter, Token.filter_sameChain_inChain, ← neighbour]
  show _ + (joinCost before new + (joinCost (some new) token + _)) + _ = _
  omega

/-- Words other than verbs and subject markers leave the subject alone. -/
theorem subjectCost_insert {earlier later : List Token} {new : Token} (notVerb : new.kind ≠ .verb)
    (notMarker : new.block ≠ .particle .ga) :
    subjectCost (earlier ++ new :: later) = subjectCost (earlier ++ later) := by
  unfold subjectCost
  simp only [List.any_append, List.any_cons, beq_false_of_ne notVerb, beq_false_of_ne notMarker,
    Bool.false_or]

theorem objectCost_insert {earlier later : List Token} {new : Token} (notVerb : new.kind ≠ .verb)
    (notMarker : new.block ≠ .particle .wo) :
    objectCost (earlier ++ new :: later) = objectCost (earlier ++ later) := by
  induction earlier with
  | nil =>
    rw [List.nil_append, objectCost, beq_false_of_ne notVerb, beq_false_of_ne notMarker]
    rfl
  | cons token rest inductionHypothesis =>
    rw [List.cons_append, objectCost, inductionHypothesis, List.cons_append, objectCost]

/-! ### The step -/

theorem joinCost_le_one (before : Option Token) (token : Token) : joinCost before token ≤ 1 := by
  unfold joinCost
  split
  · split <;> decide
  · split <;> decide
  · exact Nat.zero_le 1

/-- The token that a remedy puts in for a missing marker. -/
def marker (word : Particle) : Token :=
  Token.ofBlock (.particle word) (some "")

theorem marker_kind (word : Particle) : (marker word).kind ≠ .verb := by
  show BlockKind.particle ≠ .verb
  decide

/-- Behind a marker nothing costs more than at the start of a run. -/
theorem joinCost_behind_marker (word : Particle) (token : Token) :
    joinCost (some (marker word)) token ≤ joinCost none token := by
  unfold joinCost
  split <;> exact Nat.le_refl _

theorem joinCost_verb {token : Token} (isVerb : token.kind = .verb) (before : Option Token) :
    joinCost before token = 0 := by
  unfold joinCost
  unfold Token.kind at isVerb
  split
  · rename_i isParticle
    rw [isParticle] at isVerb
    cases isVerb
  · rename_i isNoun
    rw [isNoun] at isVerb
    cases isVerb
  · rfl

/-- A noun put in front of a particle settles that particle and brings nothing new. -/
theorem joinCost_fault {before : Option Token} {token : Token} {word : Particle}
    {code : FindingCode} (isParticle : token.block = .particle word)
    (fault : particleFault? (before.map Token.kind) = some code) :
    joinCost before token = 1 ∧ joinCost before (Token.ofBlock .noun (some "")) = 0 ∧
      joinCost (some (Token.ofBlock .noun (some ""))) token = 0 := by
  refine ⟨?_, ?_, ?_⟩
  · rw [joinCost, isParticle]
    show (if (particleFault? (before.map Token.kind)).isSome then 1 else 0) = 1
    rw [fault]
    rfl
  · show (if before.map Token.kind = some .noun then 1 else 0) = 0
    refine if_neg fun behindNoun => ?_
    rw [behindNoun] at fault
    cases fault
  · rw [joinCost, isParticle]
    rfl

/-- A joining particle put between two nouns settles the second one and brings nothing new. -/
theorem joinCost_nouns {before : Option Token} {token : Token} (isNoun : token.kind = .noun)
    (behindNoun : before.map Token.kind = some .noun) :
    joinCost before token = 1 ∧ joinCost before (marker .to) = 0 ∧
      joinCost (some (marker .to)) token = 0 := by
  have block : token.block = .noun := by
    unfold Token.kind Block.kind at isNoun
    split at isNoun <;> first | assumption | cases isNoun
  refine ⟨?_, ?_, ?_⟩
  · rw [joinCost, block]
    exact if_pos behindNoun
  · show (if (particleFault? (before.map Token.kind)).isSome then 1 else 0) = 0
    rw [behindNoun]
    rfl
  · rw [joinCost, block]
    rfl

theorem subjectCost_of_unmarked {tokens : List Token} {verb : Token} (inside : verb ∈ tokens)
    (isVerb : verb.kind = .verb) (unmarked : ∀ token ∈ tokens, token.block ≠ .particle .ga) :
    subjectCost tokens = 2 := by
  have hasVerb : (tokens.any fun token => token.kind == .verb) = true :=
    List.any_eq_true.mpr ⟨verb, inside, beq_iff_eq.mpr isVerb⟩
  have noMarker : (tokens.any fun token => token.block == .particle .ga) = false :=
    List.any_eq_false.mpr fun token member marker => unmarked token member (beq_iff_eq.mp marker)
  rw [subjectCost, hasVerb, noMarker]
  rfl

theorem subjectCost_of_marked {tokens : List Token} {marker : Token} (inside : marker ∈ tokens)
    (isMarker : marker.block = .particle .ga) : subjectCost tokens = 0 := by
  have marked : (tokens.any fun token => token.block == .particle .ga) = true :=
    List.any_eq_true.mpr ⟨marker, inside, beq_iff_eq.mpr isMarker⟩
  rw [subjectCost, marked, Bool.not_true, Bool.and_false]
  rfl

theorem objectCost_of_unmarked {earlier later : List Token} {verb : Token}
    (isVerb : verb.kind = .verb) (first : ∀ token ∈ earlier, token.kind ≠ .verb)
    (unmarked : ∀ token ∈ earlier, token.block ≠ .particle .wo) :
    objectCost (earlier ++ verb :: later) = 2 := by
  rw [objectCost_of_split isVerb first, if_neg]
  rw [List.any_eq_true]
  rintro ⟨token, member, marker⟩
  exact unmarked token member (beq_iff_eq.mp marker)

theorem objectCost_of_marked {earlier later : List Token} {marker : Token}
    (first : ∀ token ∈ earlier, token.kind ≠ .verb) (isMarker : marker.block = .particle .wo) :
    objectCost (earlier ++ marker :: later) = 0 := by
  induction earlier with
  | nil =>
    have notVerb : ¬ (marker.kind == .verb) = true := by
      rw [Token.kind, isMarker]
      decide
    rw [List.nil_append, objectCost, if_neg notVerb, if_pos (beq_iff_eq.mpr isMarker)]
  | cons token rest inductionHypothesis =>
    have notVerb : ¬ (token.kind == .verb) = true :=
      fun equal => first token List.mem_cons_self (beq_iff_eq.mp equal)
    rw [List.cons_append, objectCost, if_neg notVerb,
      inductionHypothesis fun other member => first other (List.mem_cons_of_mem _ member)]
    split <;> rfl

section Step

variable {sequence : Sequence} {place : Place}

theorem tokens_insert_place (member : place ∈ sequence.places) (new : Token) :
    ∃ earlier : List Token, sequence.tokens = earlier ++ place.token :: place.later ∧
      (sequence.insert place.index new).tokens =
        earlier ++ new.inChain place.token.chain :: place.token :: place.later ∧
      place.before = earlier.getLast?.filter place.token.sameChain := by
  obtain ⟨earlier, split, position, neighbour⟩ := Sequence.mem_places.mp member
  refine ⟨earlier, split, ?_, neighbour⟩
  rw [position]
  exact Sequence.insert_of_split split new

theorem joinCosts_insert_place (member : place ∈ sequence.places) (new : Token) :
    joinCosts none (sequence.insert place.index new).tokens + joinCost place.before place.token =
      joinCosts none sequence.tokens + joinCost place.before new +
        joinCost (some new) place.token := by
  obtain ⟨earlier, split, repaired, neighbour⟩ := tokens_insert_place member new
  rw [split, repaired]
  exact joinCosts_insert neighbour new

theorem subjectCost_insert_place (member : place ∈ sequence.places) {new : Token}
    (notVerb : new.kind ≠ .verb) (notMarker : new.block ≠ .particle .ga) :
    subjectCost (sequence.insert place.index new).tokens = subjectCost sequence.tokens := by
  obtain ⟨earlier, split, repaired, -⟩ := tokens_insert_place member new
  rw [split, repaired]
  exact subjectCost_insert notVerb notMarker

theorem objectCost_insert_place (member : place ∈ sequence.places) {new : Token}
    (notVerb : new.kind ≠ .verb) (notMarker : new.block ≠ .particle .wo) :
    objectCost (sequence.insert place.index new).tokens = objectCost sequence.tokens := by
  obtain ⟨earlier, split, repaired, -⟩ := tokens_insert_place member new
  rw [split, repaired]
  exact objectCost_insert notVerb notMarker

/-- A word that is no verb and no marker costs what its two joins cost. -/
theorem repairCost_insert_place (member : place ∈ sequence.places) {new : Token}
    (notVerb : new.kind ≠ .verb) (notSubject : new.block ≠ .particle .ga)
    (notObject : new.block ≠ .particle .wo) :
    Note.repairCost (notes (sequence.insert place.index new)) +
        joinCost place.before place.token =
      Note.repairCost (notes sequence) + joinCost place.before new +
        joinCost (some new) place.token := by
  have joins := joinCosts_insert_place member new
  rw [repairCost_notes, repairCost_notes, subjectCost_insert_place member notVerb notSubject,
    objectCost_insert_place member notVerb notObject]
  omega

end Step

section Markers

variable {sequence : Sequence} {earlier later : List Token} {verb : Token}

/-- A subject marker at the front pays for the missing subject; it lacks a noun itself. -/
theorem repairCost_insert_subject (split : sequence.tokens = earlier ++ verb :: later)
    (isVerb : verb.kind = .verb)
    (unmarked : ∀ token ∈ sequence.tokens, token.block ≠ .particle .ga) :
    Note.repairCost (notes (sequence.insert 0 (marker .ga))) <
      Note.repairCost (notes sequence) := by
  have inside : verb ∈ sequence.tokens := split ▸ List.mem_append_right _ List.mem_cons_self
  have missing := subjectCost_of_unmarked inside isVerb unmarked
  cases tokens : sequence.tokens with
  | nil =>
    rw [tokens] at inside
    cases inside
  | cons head rest =>
    let front : Place := { index := 0, before := none, token := head, later := rest }
    have member : front ∈ sequence.places := Sequence.mem_places.mpr ⟨[], tokens, rfl, rfl⟩
    obtain ⟨_, _, repaired, _⟩ := tokens_insert_place member (marker .ga)
    have given : subjectCost (sequence.insert 0 (marker .ga)).tokens = 0 :=
      subjectCost_of_marked (repaired ▸ List.mem_append_right _ List.mem_cons_self) rfl
    have objects : objectCost (sequence.insert 0 (marker .ga)).tokens = _ :=
      objectCost_insert_place member (marker_kind .ga) (by decide)
    have joins : joinCosts none (sequence.insert 0 (marker .ga)).tokens + joinCost none head =
        joinCosts none sequence.tokens + joinCost none (marker .ga) +
          joinCost (some (marker .ga)) head := joinCosts_insert_place member (marker .ga)
    -- Two are paid for the subject; the marker itself may cost one again, and the head no more.
    have ownJoin := joinCost_le_one none (marker .ga)
    have headJoin := joinCost_behind_marker .ga head
    rw [repairCost_notes, repairCost_notes, given, objects, missing]
    omega

/-- An object marker before the first verb pays for the missing object; it may lack a noun itself. -/
theorem repairCost_insert_object (split : sequence.tokens = earlier ++ verb :: later)
    (isVerb : verb.kind = .verb) (first : ∀ token ∈ earlier, token.kind ≠ .verb)
    (unmarked : ∀ token ∈ earlier, token.block ≠ .particle .wo) :
    Note.repairCost (notes (sequence.insert earlier.length (marker .wo))) <
      Note.repairCost (notes sequence) := by
  let before := earlier.getLast?.filter verb.sameChain
  have member : { index := earlier.length, before, token := verb, later } ∈ sequence.places :=
    Sequence.mem_places.mpr ⟨earlier, split, rfl, rfl⟩
  have missing : objectCost sequence.tokens = 2 :=
    split ▸ objectCost_of_unmarked isVerb first unmarked
  have given : objectCost (sequence.insert earlier.length (marker .wo)).tokens = 0 := by
    rw [Sequence.insert_of_split split]
    exact objectCost_of_marked first rfl
  have subjects : subjectCost (sequence.insert earlier.length (marker .wo)).tokens = _ :=
    subjectCost_insert_place member (marker_kind .wo) (by decide)
  have joins : joinCosts none (sequence.insert earlier.length (marker .wo)).tokens +
        joinCost before verb =
      joinCosts none sequence.tokens + joinCost before (marker .wo) +
        joinCost (some (marker .wo)) verb := joinCosts_insert_place member (marker .wo)
  have ownJoin := joinCost_le_one before (marker .wo)
  have verbJoin := joinCost_verb isVerb (some (marker .wo))
  rw [repairCost_notes, repairCost_notes, given, subjects, missing]
  omega

end Markers

/-- Each remedy of the profile lowers the cost of the notes. -/
theorem Reported.repairCost_lt {sequence : Sequence} {note : Note} {remedy : Remedy}
    (reported : Reported sequence note) (offered : note.remedy = some remedy) :
    Note.repairCost (notes (remedy.apply sequence)) < Note.repairCost (notes sequence) := by
  cases reported with
  | particle member isParticle fault =>
    obtain rfl := Option.some.inj offered
    obtain ⟨paid, free, settled⟩ := joinCost_fault isParticle fault
    have step := repairCost_insert_place member
      (show (Token.ofBlock .noun (some "")).kind ≠ .verb by decide) (by decide) (by decide)
    rw [paid, free, settled] at step
    show Note.repairCost (notes (sequence.insert _ _)) < _
    exact Nat.lt_of_succ_le (Nat.le_of_eq step)
  | verb => cases offered
  | noun member isNoun behindNoun =>
    obtain rfl := Option.some.inj offered
    obtain ⟨paid, free, settled⟩ := joinCost_nouns isNoun behindNoun
    have step := repairCost_insert_place member (marker_kind .to) (by decide) (by decide)
    rw [paid, free, settled] at step
    show Note.repairCost (notes (sequence.insert _ _)) < _
    exact Nat.lt_of_succ_le (Nat.le_of_eq step)
  | subject split isVerb _ unmarked =>
    obtain rfl := Option.some.inj offered
    exact repairCost_insert_subject split isVerb unmarked
  | object split isVerb first unmarked =>
    obtain rfl := Option.some.inj offered
    exact repairCost_insert_object split isVerb first unmarked

end PromptBlocks.Grammar.Japanese
