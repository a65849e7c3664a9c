import PromptBlocks.Proofs.Grammar.Collateral.Basic
import PromptBlocks.Proofs.Grammar.Cost.English

/-!
Contract: the notes of the English profile when a noun is put in behind a word that lacks an object.

Owns:
- what the notes at a place depend on;
- the notes in front of the word, those at it and at its noun, and those behind;
- the notes after each fix that puts a noun between neighbours.

Does not own: what the fixes of the other profile change.
-/

namespace PromptBlocks.Grammar.English

section Rules

variable {place left right : Place}

theorem notesAt_eq (place : Place) :
    notesAt .en place =
      (consecutiveNote? place).toList ++ (articleNote? place).toList ++
        (prepositionNote? place).toList ++ (pleaseNote? place).toList ++
          (terminalNote? place).toList := by
  simp only [notesAt, localRules, List.filterMap_cons, List.filterMap_nil]
  cases consecutiveNote? place <;> cases articleNote? place <;> cases prepositionNote? place <;>
    cases pleaseNote? place <;> cases terminalNote? place <;> rfl

/-- Places with the same token and neighbour behind get the same notes, unless a determiner is in front
or more than punctuation follows at one of them only. -/
theorem notesAt_congr (sameIndex : left.index = right.index) (sameToken : left.token = right.token)
    (sameNext : left.next? = right.next?)
    (sameRepeated : consecutiveNote? left = consecutiveNote? right)
    (samePreceded : left.before.isSome = right.before.isSome)
    (sameContent : (left.followers.any fun token => token.kind != .punctuation) =
      right.followers.any fun token => token.kind != .punctuation) :
    notesAt .en left = notesAt .en right := by
  have sameObject : hasObject left = hasObject right := by rw [hasObject, sameNext, hasObject]
  have sameRemedy : nounAfter left = nounAfter right := by rw [nounAfter, sameIndex, nounAfter]
  have sameArticle : articleNote? left = articleNote? right := by
    rw [articleNote?, sameToken, sameObject, sameIndex, sameRemedy, articleNote?]
  have samePreposition : prepositionNote? left = prepositionNote? right := by
    rw [prepositionNote?, sameToken, sameObject, sameIndex, sameRemedy, prepositionNote?]
  have samePlease : pleaseNote? left = pleaseNote? right := by
    simp only [pleaseNote?, sameIndex, sameToken, sameNext, samePreceded]
  have sameTerminal : terminalNote? left = terminalNote? right := by
    simp only [terminalNote?, sameIndex, sameToken, sameContent]
  rw [notesAt_eq, notesAt_eq, sameRepeated, sameArticle, samePreposition, samePlease, sameTerminal]

/-- A word that wants an object is noted for a repeated determiner and for the object only. -/
theorem notesAt_of_wantsObject (wants : wantsObject place.token = true) :
    notesAt .en place =
      (consecutiveNote? place).toList ++
        ((articleNote? place).toList ++ (prepositionNote? place).toList) := by
  have noPlease : pleaseNote? place = none := by
    refine Option.eq_none_iff_forall_ne_some.mpr fun note rule => ?_
    obtain ⟨isPlease, -⟩ := pleaseNote?_eq_some.mp rule
    rw [wantsObject, isPlease] at wants
    cases wants
  have noTerminal : terminalNote? place = none := by
    refine Option.eq_none_iff_forall_ne_some.mpr fun note rule => ?_
    obtain ⟨mark, isMark, -⟩ := terminalNote?_eq_some.mp rule
    rw [wantsObject, isMark] at wants
    cases wants
  rw [notesAt_eq, noPlease, noTerminal]
  simp

theorem objectNotes_of_hasObject (object : hasObject place = true) :
    articleNote? place = none ∧ prepositionNote? place = none := by
  constructor
  · simp [articleNote?, object]
  · unfold prepositionNote?
    simp only [object, Bool.not_true, Bool.and_false]
    split <;> rfl

/-- Nothing is noted at a noun. -/
theorem notesAt_of_noun (isNoun : place.token.block = .noun) : notesAt .en place = [] := by
  have noPlease : pleaseNote? place = none := by simp [pleaseNote?, isNoun]
  simp [notesAt_eq, consecutiveNote?, articleNote?, prepositionNote?, noPlease, terminalNote?,
    isNoun, Block.isDeterminer]

end Rules

/-! ### A noun behind a word -/

section Noun

variable {earlier later : List Token} {token noun : Token} {place : Place}

/-- In front of the word, a noun behind it goes unnoticed: the word itself was no punctuation. -/
theorem flatMap_inFront_insertAfter (wants : wantsObject token = true)
    (earlier later : List Token) (noun : Token) :
    (Place.inFront earlier (token :: noun :: later)).flatMap (notesAt .en) =
      (Place.inFront earlier (token :: later)).flatMap (notesAt .en) := by
  have wordCounts : (token.kind != .punctuation) = true := by
    rw [bne_iff_ne]
    intro isPunctuation
    unfold wantsObject at wants
    split at wants
    · rename_i word isArticle
      rw [Token.kind, isArticle] at isPunctuation
      cases isPunctuation
    · rename_i word isParticle
      rw [Token.kind, isParticle] at isPunctuation
      cases isPunctuation
    · cases wants
  rw [Place.inFront, Place.inFront, List.flatMap_map, List.flatMap_map]
  refine List.flatMap_congr fun place _ => notesAt_congr rfl rfl ?_ rfl rfl ?_
  · show ((place.later ++ token :: noun :: later).head?).filter _ =
      ((place.later ++ token :: later).head?).filter _
    cases place.later <;> rfl
  · rw [Place.any_followers_extend, Place.any_followers_extend, wordCounts, Bool.true_or,
      Bool.true_or]

/-- With a noun behind, a word lacks no object; what it repeats stays as it was. -/
theorem notesAt_placeBehind_noun {new : Token} (wants : wantsObject token = true)
    (isNoun : new.block = .noun) (earlier later : List Token) :
    notesAt .en (Sequence.placeBehind earlier token (new.inChain token.chain :: later)) =
      (consecutiveNote? (Sequence.placeBehind earlier token later)).toList := by
  let place := Sequence.placeBehind earlier token (new.inChain token.chain :: later)
  have nounBehind : place.next? = some (new.inChain token.chain) :=
    Token.filter_sameChain_inChain token new
  have opens : opensNounPhrase (new.inChain token.chain) = true := by
    simp [opensNounPhrase, Token.kind, Token.inChain, isNoun, Block.kind]
  have object : hasObject place = true := by rw [hasObject, nounBehind, Option.any_some, opens]
  have stillWants : wantsObject place.token = true := wants
  obtain ⟨noArticle, noPreposition⟩ := objectNotes_of_hasObject object
  rw [notesAt_of_wantsObject stillWants, noArticle, noPreposition]
  exact List.append_nil _

/-- The neighbour behind a word that lacks an object is no determiner. -/
theorem consecutiveNote?_of_lacking {next front : Token} {rest : List Token}
    (joined : front.chain = token.chain)
    (lacking : hasObject (Sequence.placeBehind earlier token (next :: rest)) = false) (index : Nat) :
    consecutiveNote? (Sequence.placeNext index front next rest) = none := by
  refine Option.eq_none_iff_forall_ne_some.mpr fun note rule => ?_
  obtain ⟨isDeterminer, repeated, -⟩ := consecutiveNote?_eq_some.mp rule
  have inSight : next.sameChain front = true := by
    by_contra apart
    have unseen : (some front).filter next.sameChain = none := by
      rw [Option.filter_some, if_neg apart]
    have nothing : ((some front).filter next.sameChain).any (fun token => token.block.isDeterminer) =
        true := repeated
    rw [unseen] at nothing
    cases nothing
  have neighbour : token.sameChain next = true := by
    rw [Token.sameChain, beq_iff_eq] at inSight ⊢
    rw [inSight, joined]
  have opens : opensNounPhrase next = true := by
    have determines : next.block.isDeterminer = true := isDeterminer
    rw [opensNounPhrase, determines, Bool.or_true]
  have object : (some next).filter token.sameChain = some next := by
    rw [Option.filter_some, if_pos neighbour]
  have nothing : ((some next).filter token.sameChain).any opensNounPhrase = false := lacking
  rw [object, Option.any_some, opens] at nothing
  cases nothing

/-- The word's neighbour behind was no determiner, so to it the noun in front is as good. -/
theorem flatMap_behind_insertAfter (joined : noun.chain = token.chain)
    (lacking : hasObject (Sequence.placeBehind earlier token later) = false) (index : Nat) :
    (Place.listFrom index (some noun) later).flatMap (notesAt .en) =
      (Place.listFrom index (some token) later).flatMap (notesAt .en) := by
  cases later with
  | nil => rfl
  | cons next rest =>
    rw [Place.listFrom, Place.listFrom, List.flatMap_cons, List.flatMap_cons]
    refine congrArg (· ++ _) (notesAt_congr rfl rfl rfl ?_ ?_ rfl)
    · exact (consecutiveNote?_of_lacking joined lacking index).trans
        (consecutiveNote?_of_lacking rfl lacking index).symm
    · show ((some noun).filter next.sameChain).isSome = ((some token).filter next.sameChain).isSome
      rw [Option.filter_some, Option.filter_some]
      have sameSight : next.sameChain noun = next.sameChain token := by
        unfold Token.sameChain
        rw [joined]
      rw [sameSight]
      split <;> rfl

theorem verbNotes_insertAfter (notVerb : noun.kind ≠ .verb) (earlier later : List Token) :
    verbNotes (earlier ++ token :: noun :: later) =
      (verbNotes (earlier ++ token :: later)).map (Note.pastInsertion (earlier.length + 1)) := by
  have sameVerbs : ((earlier ++ token :: noun :: later).any fun token => token.kind == .verb) =
      (earlier ++ token :: later).any fun token => token.kind == .verb := by
    simp only [List.any_append, List.any_cons, beq_false_of_ne notVerb, Bool.false_or]
  rw [verbNotes, sameVerbs, verbNotes]
  split
  · rfl
  · rfl

end Noun

/-! ### Fixes between neighbours -/

section Fixes

variable {sequence : Sequence} {place : Place} {note : Note}

/-- A noun behind a word that lacks an object settles that and nothing else. -/
theorem notes_noun_after (member : place ∈ sequence.places) (wants : wantsObject place.token = true)
    (lacking : hasObject place = false) :
    ∃ others,
      (notes sequence).Perm
          ((articleNote? place).toList ++ (prepositionNote? place).toList ++ others) ∧
        (notes (sequence.insertAfter place.index (Token.ofBlock .noun (some "")))).Perm
          (others.map (Note.pastInsertion (place.index + 1))) := by
  obtain ⟨earlier, split, position, here⟩ := Sequence.exists_placeBehind_of_mem member
  let noun := (Token.ofBlock .noun (some "")).inChain place.token.chain
  let front := (Place.inFront earlier (place.token :: place.later)).flatMap (notesAt .en)
  let behind := (Place.listFrom (earlier.length + 1) (some place.token) place.later).flatMap
    (notesAt .en)
  let sentence := verbNotes (earlier ++ place.token :: place.later)
  refine ⟨front ++ (consecutiveNote? place).toList ++ behind ++ sentence, ?_, ?_⟩
  · have found := notes_perm .en sequence
    rw [Sequence.places_of_split split, split, List.flatMap_append, List.flatMap_cons, here,
      notesAt_of_wantsObject wants] at found
    refine found.trans ?_
    rw [List.perm_iff_count]
    intro note
    simp only [List.count_append]
    show List.count note front + (_ + List.count note behind) + List.count note sentence = _
    omega
  · have settled : notesAt .en (Sequence.placeBehind earlier place.token (noun :: place.later)) =
        (consecutiveNote? place).toList := by
      rw [notesAt_placeBehind_noun wants rfl, here]
    have quiet : notesAt .en
        (Sequence.placeNext (earlier.length + 1) place.token noun place.later) = [] :=
      notesAt_of_noun rfl
    have frontKept : front.map (Note.pastInsertion (earlier.length + 1)) =
        (Place.inFront earlier (place.token :: noun :: place.later)).flatMap (notesAt .en) := by
      rw [flatMap_inFront_insertAfter wants]
      exact pastInsertion_flatMap_of_lt fun other inFront => by
        have before := Place.index_lt_of_mem_inFront inFront
        omega
    have hereKept : (consecutiveNote? place).toList.map (Note.pastInsertion (earlier.length + 1)) =
        (consecutiveNote? place).toList := by
      rw [← settled]
      exact pastInsertion_notesAt_of_lt (Nat.lt_succ_self _)
    have behindMoved : behind.map (Note.pastInsertion (earlier.length + 1)) =
        ((Place.listFrom (earlier.length + 1) (some noun) place.later).map
          (Place.shift 1)).flatMap (notesAt .en) := by
      have lackingHere : hasObject (Sequence.placeBehind earlier place.token place.later) = false := by
        rw [here, lacking]
      have joined : noun.chain = place.token.chain := rfl
      have sameBehind : (Place.listFrom (earlier.length + 1) (some noun) place.later).flatMap
          (notesAt .en) = behind := flatMap_behind_insertAfter joined lackingHere (earlier.length + 1)
      rw [← sameBehind]
      exact pastInsertion_flatMap_of_le fun other member => Place.le_index_of_mem_listFrom member
    have notVerb : noun.kind ≠ .verb := by
      intro isVerb
      cases isVerb
    have sentenceMoved : sentence.map (Note.pastInsertion (earlier.length + 1)) =
        verbNotes (earlier ++ place.token :: noun :: place.later) :=
      (verbNotes_insertAfter notVerb earlier place.later).symm
    have found := notes_perm .en
      (sequence.insertAfter earlier.length (Token.ofBlock .noun (some "")))
    rw [Sequence.places_insertAfter split, Sequence.insertAfter_of_split split,
      List.flatMap_append, List.flatMap_cons, List.flatMap_cons, settled, quiet] at found
    rw [position]
    refine found.trans (List.Perm.of_eq ?_)
    rw [List.map_append, List.map_append, List.map_append, frontKept, hereKept, behindMoved,
      sentenceMoved]
    simp only [List.append_assoc, List.nil_append]
    rfl

/-- Each fix between neighbours settles its note and leaves all others. -/
theorem Reported.exists_others (reported : Reported sequence note)
    (isLocal : note.code.hasLocalFix = true) (label : String) :
    ∃ remedy others, note.remedy = some remedy ∧
      (notes sequence).Perm (note :: others) ∧
        (notes (remedy.apply sequence)).Perm
          (others.map (Note.pastInsertion (remedy.toFix label).landing)) := by
  cases reported with
  | @article place member isDeterminer lacking =>
    have wants := wantsObject_of_isDeterminer isDeterminer
    obtain ⟨others, before, after⟩ := notes_noun_after member wants lacking
    have noted := articleNote?_eq_some.mpr ⟨isDeterminer, lacking, rfl⟩
    have noPreposition : prepositionNote? place = none := by
      refine Option.eq_none_iff_forall_ne_some.mpr fun note rule => ?_
      obtain ⟨word, isParticle, -⟩ := prepositionNote?_eq_some.mp rule
      rw [isParticle] at isDeterminer
      cases isDeterminer
    rw [noted, noPreposition] at before
    exact ⟨_, others, rfl, before, after⟩
  | @preposition place word member isParticle isPreposition lacking =>
    have wants : wantsObject place.token = true := by
      rw [wantsObject, isParticle]
      exact isPreposition
    obtain ⟨others, before, after⟩ := notes_noun_after member wants lacking
    have noted := prepositionNote?_eq_some.mpr ⟨word, isParticle, isPreposition, lacking, rfl⟩
    have noArticle : articleNote? place = none := by
      refine Option.eq_none_iff_forall_ne_some.mpr fun note rule => ?_
      obtain ⟨isDeterminer, -⟩ := articleNote?_eq_some.mp rule
      rw [isParticle] at isDeterminer
      cases isDeterminer
    rw [noted, noArticle] at before
    exact ⟨_, others, rfl, before, after⟩
  | _ => cases isLocal

end Fixes

end PromptBlocks.Grammar.English
