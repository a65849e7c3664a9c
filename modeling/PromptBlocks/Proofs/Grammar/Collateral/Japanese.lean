import PromptBlocks.Proofs.Grammar.Collateral.Basic

/-!
Contract: the notes of the Japanese profile when a noun or a particle is put in before a token.

Owns:
- the last verb in front of an index, and whether a noun put in there leaves it inside its run;
- the notes in front of the new token, those at it, those behind it, and those about the sentence;
- the notes after each fix that puts a word between neighbours.

Does not own: the fixes for a missing subject and a missing object.
-/

namespace PromptBlocks

/-- The last verb of the run of the token at an index, in front of it. -/
def Sequence.lastVerbBefore? (sequence : Sequence) (index : Nat) : Option Place :=
  (sequence.places.filter fun place => place.token.kind == .verb && place.reaches index).getLast?

namespace Grammar.Japanese

/-- A noun or a verb follows in the run. -/
def hasContentAfter (place : Place) : Bool :=
  place.followers.any fun token => token.kind == .noun || token.kind == .verb

/-- The note about a verb that does not close its run. -/
def innerVerb (place : Place) : Note :=
  { code := .verbNotAtEnd
    severity := .warning
    position := place.index
    subject := ""
    remedy := none }

/-- The note about the verb that a noun put in at an index leaves inside its run: the last one in
front, unless a noun or a verb followed it already. -/
def exposedVerb? (sequence : Sequence) (index : Nat) : Option Note :=
  ((sequence.lastVerbBefore? index).filter fun place => !hasContentAfter place).map innerVerb

section Front

variable {earlier later : List Token} {token new : Token} {place : Place}

/-- A token of the same chain put in before another one is one more follower. -/
theorem hasContentAfter_extend (place : Place) (joined : new.chain = token.chain)
    (later : List Token) :
    hasContentAfter (place.extend (new :: token :: later)) =
      (hasContentAfter (place.extend (token :: later)) ||
        (place.spans token && (new.kind == .noun || new.kind == .verb))) := by
  have sameNew : place.token.sameChain new = place.token.sameChain token := by
    unfold Token.sameChain
    rw [joined]
  have spansNew : place.spans new = place.spans token := by
    unfold Place.spans
    rw [sameNew]
  rw [hasContentAfter, hasContentAfter, Place.any_followers_extend, Place.any_followers_extend,
    spansNew]
  cases spanned : place.spans token with
  | false => simp
  | true =>
    have sameToken : place.token.sameChain token = true := (Bool.and_eq_true_iff.mp spanned).2
    rw [List.takeWhile_cons_of_pos sameToken, List.any_cons]
    simp only [Bool.true_and, Bool.or_assoc, Bool.or_comm, Bool.or_left_comm]

/-- The note about a verb in front of an index that no noun or verb follows yet. -/
def exposed? (index : Nat) (place : Place) : Option Note :=
  if place.token.kind == .verb && place.reaches index && !hasContentAfter place then
    some (innerVerb place)
  else none

theorem notesAt_eq (place : Place) :
    notesAt .ja place =
      (particleNote? place).toList ++ (verbNote? place).toList ++ (nounNote? place).toList := by
  simp only [notesAt, localRules, List.filterMap_cons, List.filterMap_nil]
  cases particleNote? place <;> cases verbNote? place <;> cases nounNote? place <;> rfl

/-- What is noted once there are more grounds for it: the old note, or a new one. -/
theorem toList_gained (isVerb had gains : Bool) (note : Note) :
    (if isVerb && (had || gains) then some note else none).toList =
      (if isVerb && had then some note else none).toList ++
        (if isVerb && gains && !had then some note else none).toList := by
  cases isVerb <;> cases had <;> cases gains <;> rfl

/-- In front of a new noun, one more verb may be inside its run; a new particle changes nothing. -/
theorem notesAt_extend_perm (member : place ∈ Place.listFrom 0 none earlier)
    (joined : new.chain = token.chain) (notVerb : new.kind ≠ .verb) (later : List Token) :
    (notesAt .ja (place.extend (new :: token :: later))).Perm
      (notesAt .ja (place.extend (token :: later)) ++
        (if new.kind = .noun then exposed? earlier.length (place.extend (token :: later))
          else none).toList) := by
  have verbs : (verbNote? (place.extend (new :: token :: later))).toList =
      (verbNote? (place.extend (token :: later))).toList ++
        (if new.kind = .noun then exposed? earlier.length (place.extend (token :: later))
          else none).toList := by
    have gained := toList_gained (place.token.kind == .verb)
      (hasContentAfter (place.extend (token :: later)))
      (place.spans token && (new.kind == .noun || new.kind == .verb)) (innerVerb place)
    rw [← hasContentAfter_extend place joined] at gained
    refine gained.trans (congrArg (_ ++ ·) ?_)
    by_cases isNoun : new.kind = .noun
    · rw [if_pos isNoun, exposed?, Place.reaches_extend member, isNoun]
      simp only [BEq.rfl, Bool.true_or, Bool.and_true]
      rfl
    · rw [if_neg isNoun, beq_false_of_ne isNoun, beq_false_of_ne notVerb]
      simp
  rw [notesAt_eq, notesAt_eq, verbs, List.perm_iff_count]
  intro note
  simp only [List.count_append]
  show List.count note (particleNote? place).toList + _ + List.count note (nounNote? place).toList =
    List.count note (particleNote? place).toList + _ + List.count note (nounNote? place).toList + _
  omega

theorem flatMap_inFront_perm (joined : new.chain = token.chain) (notVerb : new.kind ≠ .verb)
    (earlier later : List Token) :
    ((Place.inFront earlier (new :: token :: later)).flatMap (notesAt .ja)).Perm
      ((Place.inFront earlier (token :: later)).flatMap (notesAt .ja) ++
        if new.kind = .noun then
          (Place.inFront earlier (token :: later)).filterMap (exposed? earlier.length)
        else []) := by
  have each : ((Place.inFront earlier (new :: token :: later)).flatMap (notesAt .ja)).Perm
      ((Place.listFrom 0 none earlier).flatMap fun place =>
        notesAt .ja (place.extend (token :: later)) ++
          (if new.kind = .noun then exposed? earlier.length (place.extend (token :: later))
            else none).toList) := by
    rw [Place.inFront, List.flatMap_map]
    exact List.Perm.flatMap_left _ fun place member =>
      notesAt_extend_perm member joined notVerb later
  refine each.trans ((List.flatMap_append_perm _ _ _).symm.trans (List.Perm.of_eq ?_))
  rw [Place.inFront, List.flatMap_map]
  by_cases isNoun : new.kind = .noun
  · simp only [if_pos isNoun, List.filterMap_eq_flatMap_toList, List.flatMap_map]
  · simp [if_neg isNoun]

end Front

/-! ### The verb that a noun leaves inside its run -/

section Exposed

variable {sequence : Sequence} {earlier later : List Token} {token : Token} {index : Nat}

/-- A later place within reach is among the followers. -/
theorem mem_followers_of_reaches (start : Nat) (previous : Option Token) (tokens : List Token) :
    (Place.listFrom start previous tokens).Pairwise fun front behind =>
      ∀ index, front.reaches index = true → behind.index < index →
        behind.token ∈ front.followers := by
  induction tokens generalizing start previous with
  | nil => exact List.Pairwise.nil
  | cons token rest inductionHypothesis =>
    refine List.pairwise_cons.mpr ⟨?_, inductionHypothesis _ _⟩
    intro behind member index reached before
    obtain ⟨between, split, position, -⟩ := Place.mem_listFrom.mp member
    have within : index ≤ start + (rest.takeWhile token.sameChain).length :=
      (Place.reaches_iff.mp reached).2
    have inside : between.length < (rest.takeWhile token.sameChain).length := by omega
    have found : (rest.takeWhile token.sameChain)[between.length] = behind.token := by
      rw [(List.takeWhile_prefix token.sameChain).getElem inside]
      simp [split]
    exact found ▸ List.getElem_mem inside

/-- Where every entry but the last is refused, keeping the accepted ones is asking the last one. -/
theorem filter_eq_getLast? {Entry : Type} {accepted : Entry → Bool} {entries : List Entry}
    (refused : entries.Pairwise fun entry _ => accepted entry = false) :
    entries.filter accepted = (entries.getLast?.filter accepted).toList := by
  induction entries with
  | nil => rfl
  | cons entry rest inductionHypothesis =>
    obtain ⟨first, others⟩ := List.pairwise_cons.mp refused
    cases rest with
    | nil => cases kept : accepted entry <;> simp [kept, Option.filter]
    | cons next rest =>
      have notFirst : accepted entry = false := first next List.mem_cons_self
      rw [List.filter_cons_of_neg (Bool.eq_false_iff.mp notFirst), inductionHypothesis others,
        List.getLast?_cons_cons]

theorem filterMap_exposed? (index : Nat) (places : List Place) :
    places.filterMap (exposed? index) =
      ((places.filter fun place => place.token.kind == .verb && place.reaches index).filter
        fun place => !hasContentAfter place).map innerVerb := by
  induction places with
  | nil => rfl
  | cons place later inductionHypothesis =>
    rw [List.filterMap_cons, inductionHypothesis, exposed?]
    cases candidate : place.token.kind == .verb && place.reaches index <;>
      cases content : hasContentAfter place <;> simp [candidate, content]

/-- Of the verbs in front of an index within one run, all but the last have a verb behind them. -/
theorem filterMap_exposed?_places (sequence : Sequence) (index : Nat) :
    sequence.places.filterMap (exposed? index) = (exposedVerb? sequence index).toList := by
  have crowded : (sequence.places.filter fun place =>
      place.token.kind == .verb && place.reaches index).Pairwise
        fun place _ => (!hasContentAfter place) = false := by
    refine List.pairwise_filter.mpr ((mem_followers_of_reaches 0 none sequence.tokens).imp ?_)
    intro front behind follows isFront isBehind
    obtain ⟨-, frontReaches⟩ := Bool.and_eq_true_iff.mp isFront
    obtain ⟨behindVerb, behindReaches⟩ := Bool.and_eq_true_iff.mp isBehind
    have follower := follows index frontReaches (Place.reaches_iff.mp behindReaches).1
    rw [Bool.not_eq_false', hasContentAfter, List.any_eq_true]
    exact ⟨behind.token, follower, by simp [behindVerb]⟩
  rw [filterMap_exposed?, filter_eq_getLast? crowded, ← Option.toList_map]
  rfl

/-- The verbs that reach a token stand in front of it. -/
theorem filterMap_exposed?_inFront (split : sequence.tokens = earlier ++ token :: later) :
    (Place.inFront earlier (token :: later)).filterMap (exposed? earlier.length) =
      (exposedVerb? sequence earlier.length).toList := by
  have unreached : ∀ place : Place, earlier.length ≤ place.index →
      exposed? earlier.length place = none := by
    intro place behind
    have notReached : place.reaches earlier.length = false := by
      rw [Bool.eq_false_iff, ne_eq, Place.reaches_iff]
      omega
    simp [exposed?, notReached]
  have rest : (Sequence.placeBehind earlier token later ::
      Place.listFrom (earlier.length + 1) (some token) later).filterMap
        (exposed? earlier.length) = [] := by
    refine List.filterMap_eq_nil_iff.mpr fun place member => unreached place ?_
    rcases List.mem_cons.mp member with rfl | inLater
    · exact Nat.le_refl _
    · have beyond := Place.le_index_of_mem_listFrom inLater
      omega
  rw [← filterMap_exposed?_places, Sequence.places_of_split split, List.filterMap_append, rest,
    List.append_nil]

end Exposed

/-! ### The notes about the sentence -/

section Sentence

variable {earlier later : List Token} {new : Token}

theorem findIdx?_insert (notVerb : new.kind ≠ .verb) (earlier later : List Token) :
    ((earlier ++ new :: later).findIdx? fun token => token.kind == .verb) =
      ((earlier ++ later).findIdx? fun token => token.kind == .verb).map
        (pastInsertion earlier.length) := by
  rw [List.findIdx?_append, List.findIdx?_append, List.findIdx?_cons, beq_false_of_ne notVerb]
  cases found : earlier.findIdx? fun token => token.kind == .verb with
  | some index =>
    obtain ⟨inside, -⟩ := List.findIdx?_eq_some_iff_getElem.mp found
    simp [pastInsertion_of_lt inside]
  | none =>
    cases later.findIdx? fun token => token.kind == .verb with
    | none => rfl
    | some index =>
      have behind : earlier.length ≤ index + earlier.length := Nat.le_add_left _ _
      simp [pastInsertion_of_le behind]
      omega

theorem subjectNote?_insert (notMarker : new.block ≠ .particle .ga) (earlier later : List Token)
    (firstVerb : Nat) :
    subjectNote? (earlier ++ new :: later) (pastInsertion earlier.length firstVerb) =
      (subjectNote? (earlier ++ later) firstVerb).map (Note.pastInsertion earlier.length) := by
  unfold subjectNote?
  rw [apply_ite (Option.map (Note.pastInsertion earlier.length))]
  simp only [List.any_append, List.any_cons, beq_false_of_ne notMarker, Bool.false_or]
  rfl

theorem objectNote?_insert (notMarker : new.block ≠ .particle .wo) (earlier later : List Token)
    (firstVerb : Nat) :
    objectNote? (earlier ++ new :: later) (pastInsertion earlier.length firstVerb) =
      (objectNote? (earlier ++ later) firstVerb).map (Note.pastInsertion earlier.length) := by
  have sameMarkers : ((earlier ++ new :: later).take (pastInsertion earlier.length firstVerb)).any
        (fun token => token.block == .particle .wo) =
      ((earlier ++ later).take firstVerb).any fun token => token.block == .particle .wo := by
    by_cases before : firstVerb < earlier.length
    · rw [pastInsertion_of_lt before, List.take_append_of_le_length (by omega),
        List.take_append_of_le_length (by omega)]
    · have behind : earlier.length ≤ firstVerb := by omega
      have width : firstVerb + 1 - earlier.length = firstVerb - earlier.length + 1 := by omega
      have wholeFront : ∀ count, earlier.length ≤ count → earlier.take count = earlier :=
        fun _ => List.take_of_length_le
      rw [pastInsertion_of_le behind, List.take_append, List.take_append, width,
        wholeFront _ (by omega), wholeFront _ behind, List.take_succ_cons, List.any_append,
        List.any_cons, beq_false_of_ne notMarker, Bool.false_or, List.any_append]
  unfold objectNote?
  rw [apply_ite (Option.map (Note.pastInsertion earlier.length)), sameMarkers]
  rfl

/-- What is no verb and no marker leaves the notes about the sentence alone. -/
theorem sentenceNotes_insert (notVerb : new.kind ≠ .verb) (notSubject : new.block ≠ .particle .ga)
    (notObject : new.block ≠ .particle .wo) (earlier later : List Token) :
    sentenceNotes (earlier ++ new :: later) =
      (sentenceNotes (earlier ++ later)).map (Note.pastInsertion earlier.length) := by
  unfold sentenceNotes
  rw [findIdx?_insert notVerb]
  cases (earlier ++ later).findIdx? fun token => token.kind == .verb with
  | none => rfl
  | some firstVerb =>
    simp only [Option.map_some, subjectNote?_insert notSubject, objectNote?_insert notObject,
      List.map_append, Option.toList_map]

end Sentence

/-! ### All notes -/

section Insertion

variable {sequence : Sequence} {earlier later : List Token} {token new : Token}

/-- In front of a new noun, the last verb may come to be inside its run. -/
theorem flatMap_inFront_insert_perm (split : sequence.tokens = earlier ++ token :: later)
    (notVerb : new.kind ≠ .verb) :
    ((Place.inFront earlier (new.inChain token.chain :: token :: later)).flatMap (notesAt .ja)).Perm
      ((Place.inFront earlier (token :: later)).flatMap (notesAt .ja) ++
        (if new.kind = .noun then exposedVerb? sequence earlier.length else none).toList) := by
  have joined : (new.inChain token.chain).chain = token.chain := rfl
  have placedNotVerb : (new.inChain token.chain).kind ≠ .verb := notVerb
  refine (flatMap_inFront_perm joined placedNotVerb earlier later).trans
    (List.Perm.of_eq (congrArg (_ ++ ·) ?_))
  rw [filterMap_exposed?_inFront split]
  show (if new.kind = .noun then _ else _) = _
  by_cases isNoun : new.kind = .noun
  · rw [if_pos isNoun, if_pos isNoun]
  · rw [if_neg isNoun, if_neg isNoun, Option.toList_none]

/-- With a word put in before a token, the notes at the two change.  All others move along, and the last
verb in front may come to be inside its run. -/
theorem notes_insert_perm (split : sequence.tokens = earlier ++ token :: later)
    (notVerb : new.kind ≠ .verb) (notSubject : new.block ≠ .particle .ga)
    (notObject : new.block ≠ .particle .wo) :
    ∃ others,
      (notes sequence).Perm (notesAt .ja (Sequence.placeBehind earlier token later) ++ others) ∧
        (notes (sequence.insert earlier.length new)).Perm
          (notesAt .ja (Sequence.placeBehind earlier (new.inChain token.chain) (token :: later)) ++
            notesAt .ja (Sequence.placeNext (earlier.length + 1) (new.inChain token.chain) token
              later) ++
            (others.map (Note.pastInsertion earlier.length) ++
              (if new.kind = .noun then exposedVerb? sequence earlier.length else none).toList)) := by
  let front := (Place.inFront earlier (token :: later)).flatMap (notesAt .ja)
  let behind := (Place.listFrom (earlier.length + 1) (some token) later).flatMap (notesAt .ja)
  let sentence := sentenceNotes (earlier ++ token :: later)
  refine ⟨front ++ behind ++ sentence, ?_, ?_⟩
  · have found := notes_perm .ja sequence
    rw [Sequence.places_of_split split, split, List.flatMap_append, List.flatMap_cons] at found
    refine found.trans ?_
    rw [List.perm_iff_count]
    intro note
    simp only [List.count_append]
    show List.count note front + (_ + List.count note behind) + List.count note sentence = _
    omega
  · have placedNotVerb : (new.inChain token.chain).kind ≠ .verb := notVerb
    have placedNotSubject : (new.inChain token.chain).block ≠ .particle .ga := notSubject
    have placedNotObject : (new.inChain token.chain).block ≠ .particle .wo := notObject
    have frontGained : List.Perm _ (front ++ _) := flatMap_inFront_insert_perm split notVerb
    have frontKept : front.map (Note.pastInsertion earlier.length) = front :=
      pastInsertion_flatMap_of_lt fun place member => Place.index_lt_of_mem_inFront member
    have behindMoved : behind.map (Note.pastInsertion earlier.length) =
        ((Place.listFrom (earlier.length + 1) (some token) later).map (Place.shift 1)).flatMap
          (notesAt .ja) := by
      refine pastInsertion_flatMap_of_le fun place member => ?_
      have beyond := Place.le_index_of_mem_listFrom member
      omega
    have sentenceMoved : sentence.map (Note.pastInsertion earlier.length) =
        sentenceNotes (earlier ++ new.inChain token.chain :: token :: later) :=
      (sentenceNotes_insert placedNotVerb placedNotSubject placedNotObject earlier
        (token :: later)).symm
    have found := notes_perm .ja (sequence.insert earlier.length new)
    rw [Sequence.places_insert split, Sequence.insert_of_split split, List.flatMap_append,
      List.flatMap_cons, List.flatMap_cons] at found
    refine found.trans ?_
    rw [List.map_append, List.map_append, frontKept, behindMoved, sentenceMoved, List.perm_iff_count]
    intro note
    have gained := frontGained.count_eq note
    simp only [List.count_append] at gained ⊢
    show _ + _ + List.count note (sentenceNotes _) = _
    omega

end Insertion

/-! ### Fixes between neighbours -/

section Fixes

variable {sequence : Sequence} {place : Place} {note : Note}

theorem notesAt_of_particle {word : Particle} (isParticle : place.token.block = .particle word) :
    notesAt .ja place = (particleNote? place).toList := by
  have kind : place.token.kind = .particle := by
    rw [Token.kind, isParticle]
    rfl
  have noVerb : verbNote? place = none := by simp [verbNote?, kind]
  have noNoun : nounNote? place = none := by simp [nounNote?, kind]
  rw [notesAt_eq, noVerb, noNoun]
  simp

theorem notesAt_of_noun (isNoun : place.token.kind = .noun) :
    notesAt .ja place = (nounNote? place).toList := by
  have noParticle : particleNote? place = none := by
    unfold particleNote?
    split
    · rename_i word isParticle
      rw [Token.kind, isParticle] at isNoun
      cases isNoun
    · rfl
  have noVerb : verbNote? place = none := by simp [verbNote?, isNoun]
  rw [notesAt_eq, noParticle, noVerb]
  rfl

/-- A noun before a particle that lacks one: nothing is noted at the two. -/
theorem notes_noun_before_particle {word : Particle} {code : FindingCode}
    (member : place ∈ sequence.places) (isParticle : place.token.block = .particle word)
    (fault : particleFault? (place.before.map Token.kind) = some code) :
    ∃ others,
      (notes sequence).Perm
          ({ code
             severity := .error
             position := place.index
             subject := place.token.surface .ja
             remedy := some { action := .insertBefore, block := .noun, target := place.index } } ::
            others) ∧
        (notes (sequence.insert place.index (Token.ofBlock .noun (some "")))).Perm
          (others.map (Note.pastInsertion place.index) ++
            (exposedVerb? sequence place.index).toList) := by
  obtain ⟨earlier, split, position, here⟩ := Sequence.exists_placeBehind_of_mem member
  let noun := (Token.ofBlock .noun (some "")).inChain place.token.chain
  obtain ⟨others, before, after⟩ := notes_insert_perm split
    (show (Token.ofBlock .noun (some "")).kind ≠ .verb by decide) (by decide) (by decide)
  have noted : particleNote? place = some
      { code
        severity := .error
        position := place.index
        subject := place.token.surface .ja
        remedy := some { action := .insertBefore, block := .noun, target := place.index } } :=
    particleNote?_eq_some.mpr ⟨word, code, isParticle, fault, rfl⟩
  -- The new noun does not stand behind a noun, since the particle did not.
  have quietNoun : notesAt .ja
      (Sequence.placeBehind earlier noun (place.token :: place.later)) = [] := by
    rw [notesAt_of_noun rfl, Option.toList_eq_nil_iff, Option.eq_none_iff_forall_ne_some]
    intro other rule
    obtain ⟨-, behindNoun, -⟩ := nounNote?_eq_some.mp rule
    have sameBefore : (Sequence.placeBehind earlier noun (place.token :: place.later)).before =
        place.before := by
      rw [Sequence.before_placeBehind_inChain, here]
    rw [sameBefore] at behindNoun
    rw [behindNoun] at fault
    cases fault
  have quietParticle : notesAt .ja
      (Sequence.placeNext (earlier.length + 1) noun place.token place.later) = [] := by
    have behindNoun : (Sequence.placeNext (earlier.length + 1) noun place.token place.later).before =
        some noun := Token.filter_sameChain_inChain place.token _
    have nextParticle : (Sequence.placeNext (earlier.length + 1) noun place.token
        place.later).token.block = .particle word := isParticle
    rw [notesAt_of_particle nextParticle, particleNote?, behindNoun]
    simp only [nextParticle]
    rfl
  rw [here, notesAt_of_particle isParticle, noted] at before
  rw [quietNoun, quietParticle] at after
  rw [position]
  rw [position] at before
  exact ⟨others, before, after⟩

/-- A joining particle between two nouns: nothing is noted at the two. -/
theorem notes_particle_before_noun (member : place ∈ sequence.places)
    (isNoun : place.token.kind = .noun) (behindNoun : place.before.map Token.kind = some .noun) :
    ∃ others,
      (notes sequence).Perm
          ({ code := .consecutiveNouns
             severity := .warning
             position := place.index
             subject := ""
             remedy :=
               some { action := .insertBefore, block := .particle .to, target := place.index } } ::
            others) ∧
        (notes (sequence.insert place.index (Token.ofBlock (.particle .to) (some "")))).Perm
          (others.map (Note.pastInsertion place.index)) := by
  obtain ⟨earlier, split, position, here⟩ := Sequence.exists_placeBehind_of_mem member
  let joiner := (Token.ofBlock (.particle .to) (some "")).inChain place.token.chain
  obtain ⟨others, before, after⟩ := notes_insert_perm split
    (show (Token.ofBlock (.particle .to) (some "")).kind ≠ .verb by decide) (by decide) (by decide)
  have noted : nounNote? place = some
      { code := .consecutiveNouns
        severity := .warning
        position := place.index
        subject := ""
        remedy := some { action := .insertBefore, block := .particle .to, target := place.index } } :=
    nounNote?_eq_some.mpr ⟨isNoun, behindNoun, rfl⟩
  have quietParticle : notesAt .ja
      (Sequence.placeBehind earlier joiner (place.token :: place.later)) = [] := by
    have sameBefore : (Sequence.placeBehind earlier joiner (place.token :: place.later)).before =
        place.before := by
      rw [Sequence.before_placeBehind_inChain, here]
    rw [notesAt_of_particle rfl, particleNote?, sameBefore, behindNoun]
    rfl
  have quietNoun : notesAt .ja
      (Sequence.placeNext (earlier.length + 1) joiner place.token place.later) = [] := by
    have behindJoiner : (Sequence.placeNext (earlier.length + 1) joiner place.token
        place.later).before = some joiner := Token.filter_sameChain_inChain place.token _
    have nextNoun : (Sequence.placeNext (earlier.length + 1) joiner place.token
        place.later).token.kind = .noun := isNoun
    have joinerKind : (some joiner).map Token.kind = some .particle := rfl
    rw [notesAt_of_noun nextNoun, nounNote?, behindJoiner, joinerKind]
    simp
  rw [here, notesAt_of_noun isNoun, noted] at before
  have noNoun : (Token.ofBlock (.particle .to) (some "")).kind ≠ .noun := by decide
  rw [quietNoun, quietParticle, if_neg noNoun, Option.toList_none, List.append_nil, List.append_nil,
    List.nil_append] at after
  rw [position]
  rw [position] at before
  exact ⟨others, before, after⟩

/-- Each fix between neighbours settles its note and leaves all others; a noun may leave the last verb
in front inside its run. -/
theorem Reported.exists_others (reported : Reported sequence note)
    (isLocal : note.code.hasLocalFix = true) (label : String) :
    ∃ remedy others, note.remedy = some remedy ∧
      (notes sequence).Perm (note :: others) ∧
        (notes (remedy.apply sequence)).Perm
          (others.map (Note.pastInsertion (remedy.toFix label).landing) ++
            (if note.code.lacksNoun then exposedVerb? sequence (remedy.toFix label).landing
              else none).toList) := by
  cases reported with
  | particle member isParticle fault =>
    obtain ⟨others, before, after⟩ := notes_noun_before_particle member isParticle fault
    refine ⟨_, others, rfl, before, ?_⟩
    rcases code_of_particleFault? fault with rfl | rfl <;> exact after
  | verb => cases isLocal
  | noun member isNoun behindNoun =>
    obtain ⟨others, before, after⟩ := notes_particle_before_noun member isNoun behindNoun
    refine ⟨_, others, rfl, before, after.trans (List.Perm.of_eq ?_)⟩
    exact (List.append_nil _).symm
  | subject => cases isLocal
  | object => cases isLocal

end Fixes

end Grammar.Japanese

end PromptBlocks
