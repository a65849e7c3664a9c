import PromptBlocks.Proofs.Edit.Insertion
import PromptBlocks.Proofs.Grammar.Cost.Basic
import PromptBlocks.Proofs.Grammar.English

/-!
Contract: every fix of the English profile lowers the cost of the notes by one.

Owns:
- the cost of the notes as a walk over the tokens: what each token costs in front of its neighbour;
- the walk over a list with one token put in;
- the step: each remedy of the profile settles one note and brings no other that has a remedy.

Does not own: runs of fixes.
-/

namespace PromptBlocks.Grammar.English

/-! ### The cost as a walk over the tokens -/

/-- The words that want a noun phrase behind them. -/
def wantsObject (token : Token) : Bool :=
  match token.block with
  | .article word => word.isDeterminer
  | .particle word => word.isPreposition
  | _ => false

theorem wantsObject_of_isDeterminer {token : Token} (isDeterminer : token.block.isDeterminer = true) :
    wantsObject token = true := by
  unfold Block.isDeterminer at isDeterminer
  split at isDeterminer
  · rename_i word isArticle
    rw [wantsObject, isArticle]
    exact isDeterminer
  · cases isDeterminer

/-- What a token costs in front of its neighbour in the run. -/
def objectCost (token : Token) (next : Option Token) : Nat :=
  if wantsObject token && !next.any opensNounPhrase then 1 else 0

def objectCosts : List Token → Nat
  | [] => 0
  | token :: later => objectCost token (later.head?.filter token.sameChain) + objectCosts later

theorem repairCost_object (place : Place) :
    Note.repairCost ((consecutiveNote? place).toList ++ (articleNote? place).toList) +
        Note.repairCost (prepositionNote? place).toList =
      objectCost place.token place.next? := by
  have consecutive : Note.repairCost (consecutiveNote? place).toList = 0 := by
    unfold consecutiveNote?
    split <;> rfl
  rw [Note.repairCost_append, consecutive]
  unfold articleNote? prepositionNote? objectCost wantsObject hasObject Block.isDeterminer
  cases place.token.block with
  | article word => cases word <;> cases place.next?.any opensNounPhrase <;> rfl
  | particle word => cases word <;> cases place.next?.any opensNounPhrase <;> rfl
  | _ => rfl

theorem repairCost_objects (index : Nat) (previous : Option Token) (tokens : List Token) :
    Note.repairCost ((Place.listFrom index previous tokens).flatMap fun place =>
        (consecutiveNote? place).toList ++ (articleNote? place).toList) +
        Note.repairCost ((Place.listFrom index previous tokens).filterMap prepositionNote?) =
      objectCosts tokens := by
  induction tokens generalizing index previous with
  | nil => rfl
  | cons token later inductionHypothesis =>
    rw [Place.listFrom, List.flatMap_cons, Note.repairCost_append, Note.repairCost_filterMap_cons,
      objectCosts, ← inductionHypothesis (index + 1) (some token)]
    have here : _ = objectCost token (later.head?.filter token.sameChain) :=
      repairCost_object { index, before := previous.filter token.sameChain, token, later }
    omega

theorem repairCost_free {places : List Place} :
    Note.repairCost (places.filterMap pleaseNote?) = 0 ∧
      Note.repairCost (places.filterMap terminalNote?) = 0 := by
  constructor
  · refine Note.repairCost_eq_zero fun note member => ?_
    obtain ⟨place, -, rule⟩ := List.mem_filterMap.mp member
    obtain ⟨-, -, -, rfl⟩ := pleaseNote?_eq_some.mp rule
    rfl
  · refine Note.repairCost_eq_zero fun note member => ?_
    obtain ⟨place, -, rule⟩ := List.mem_filterMap.mp member
    obtain ⟨mark, -, -, -, rfl⟩ := terminalNote?_eq_some.mp rule
    rfl

theorem repairCost_verbNotes (tokens : List Token) : Note.repairCost (verbNotes tokens) = 0 := by
  unfold verbNotes
  split <;> rfl

/-- The cost of the profile's notes, token by token. -/
theorem repairCost_notes (sequence : Sequence) :
    Note.repairCost (notes sequence) = objectCosts sequence.tokens := by
  unfold notes
  rw [Note.repairCost_append, Note.repairCost_append, Note.repairCost_append,
    Note.repairCost_append, repairCost_free.1, repairCost_free.2, repairCost_verbNotes,
    ← repairCost_objects 0 none sequence.tokens]
  rfl

/-! ### One token put in -/

/-- A token put behind another one, in its chain, changes only the two joins that it makes and the
one that it breaks. -/
theorem objectCosts_insertAfter (earlier later : List Token) (token new : Token) :
    objectCosts (earlier ++ token :: new.inChain token.chain :: later) +
        objectCost token (later.head?.filter token.sameChain) =
      objectCosts (earlier ++ token :: later) + objectCost token (some new) +
        objectCost new (later.head?.filter token.sameChain) := by
  induction earlier with
  | nil =>
    have sameFilter : (new.inChain token.chain).sameChain = token.sameChain := rfl
    rw [List.nil_append, List.nil_append, objectCosts, objectCosts, objectCosts, sameFilter,
      List.head?_cons, Token.filter_sameChain_inChain]
    show objectCost token (some new) + (objectCost new _ + _) + _ = _
    omega
  | cons first rest inductionHypothesis =>
    -- The token behind the first one is the same in both lists.
    have sameNext : (rest ++ token :: new.inChain token.chain :: later).head? =
        (rest ++ token :: later).head? := by
      cases rest <;> rfl
    rw [List.cons_append, List.cons_append, objectCosts, objectCosts, sameNext]
    omega

/-! ### The step -/

/-- Both rules with a remedy put a noun behind a word that wants an object and has none.  That settles
the word, and the noun itself wants nothing. -/
theorem repairCost_insertAfter_place {sequence : Sequence} {place : Place}
    (member : place ∈ sequence.places) (wants : wantsObject place.token = true)
    (lacking : hasObject place = false) :
    Note.repairCost (notes (sequence.insertAfter place.index (Token.ofBlock .noun (some "")))) + 1 =
      Note.repairCost (notes sequence) := by
  obtain ⟨earlier, split, position, -⟩ := Sequence.mem_places.mp member
  have repaired := Sequence.insertAfter_of_split split (Token.ofBlock .noun (some ""))
  have walk := objectCosts_insertAfter earlier place.later place.token
    (Token.ofBlock .noun (some ""))
  have paid : objectCost place.token (place.later.head?.filter place.token.sameChain) = 1 := by
    have nothing : (place.later.head?.filter place.token.sameChain).any opensNounPhrase = false :=
      lacking
    rw [objectCost, wants, nothing]
    rfl
  have settled : objectCost place.token (some (Token.ofBlock .noun (some ""))) = 0 := by
    rw [objectCost, wants]
    rfl
  have free : objectCost (Token.ofBlock .noun (some ""))
      (place.later.head?.filter place.token.sameChain) = 0 := rfl
  rw [repairCost_notes, repairCost_notes, position, repaired, split]
  omega

/-- Each remedy of the profile settles one note and brings no other that has a remedy. -/
theorem Reported.repairCost_succ {sequence : Sequence} {note : Note} {remedy : Remedy}
    (reported : Reported sequence note) (offered : note.remedy = some remedy) :
    Note.repairCost (notes (remedy.apply sequence)) + 1 = Note.repairCost (notes sequence) := by
  cases reported with
  | @article place member isDeterminer lacking =>
    obtain rfl := Option.some.inj offered
    exact repairCost_insertAfter_place member (wantsObject_of_isDeterminer isDeterminer) lacking
  | @preposition place word member isParticle isPreposition lacking =>
    obtain rfl := Option.some.inj offered
    refine repairCost_insertAfter_place member ?_ lacking
    rw [wantsObject, isParticle]
    exact isPreposition
  | _ => cases offered

end PromptBlocks.Grammar.English
