import PromptBlocks.Proofs.Edit.Insertion
import PromptBlocks.Proofs.Grammar.Report

/-!
Contract: a fix resolves the finding that offers it.

Owns:
- notes and their remedies lie inside the sequence;
- no note of the same code stands at the old place once the remedy is carried out;
- the same for worded findings and planned fixes, under both profiles.

Does not own: what a fix does to other findings.
-/

namespace PromptBlocks.Grammar

theorem length_of_split {sequence : Sequence} {earlier later : List Token} {token : Token}
    (split : sequence.tokens = earlier ++ token :: later) : earlier.length < sequence.length := by
  rw [Sequence.length, split, List.length_append, List.length_cons]
  omega

namespace Japanese

variable {sequence : Sequence} {note other : Note} {remedy : Remedy}

theorem Reported.inside (reported : Reported sequence note) (offered : note.remedy = some remedy) :
    note.position < sequence.length ∧ remedy.target < sequence.length := by
  cases reported with
  | particle member _ _ =>
    obtain rfl := Option.some.inj offered
    exact ⟨Sequence.index_lt_length member, Sequence.index_lt_length member⟩
  | verb => cases offered
  | noun member _ _ =>
    obtain rfl := Option.some.inj offered
    exact ⟨Sequence.index_lt_length member, Sequence.index_lt_length member⟩
  | subject split _ _ _ =>
    obtain rfl := Option.some.inj offered
    have bound := length_of_split split
    exact ⟨bound, by show 0 < _; omega⟩
  | object split _ _ _ =>
    obtain rfl := Option.some.inj offered
    exact ⟨length_of_split split, length_of_split split⟩

/-- Once its remedy is carried out, a note is reported no more: the word it was about now stands
right behind the new token, or the marker it missed is there. -/
theorem Reported.resolved (reported : Reported sequence note)
    (offered : note.remedy = some remedy) (label : String)
    (still : Reported (remedy.apply sequence) other) (sameCode : other.code = note.code) :
    other.position ≠ (remedy.toFix label).moved note.position := by
  cases reported with
  | particle member isParticle fault =>
    obtain rfl := Option.some.inj offered
    simp only [Fix.moved, Fix.landing, Remedy.toFix, Nat.le_refl, if_true]
    intro samePosition
    cases still with
    | particle stillMember _ stillFault =>
      rw [(Sequence.before_of_insert member stillMember samePosition).2] at stillFault
      cases stillFault
    | _ => rcases code_of_particleFault? fault with rfl | rfl <;> cases sameCode
  | verb => cases offered
  | noun member isNoun behindNoun =>
    obtain rfl := Option.some.inj offered
    simp only [Fix.moved, Fix.landing, Remedy.toFix, Nat.le_refl, if_true]
    intro samePosition
    cases still with
    | noun stillMember _ stillBehind =>
      rw [(Sequence.before_of_insert member stillMember samePosition).2] at stillBehind
      cases stillBehind
    | particle _ _ stillFault =>
      rcases code_of_particleFault? stillFault with rfl | rfl <;> cases sameCode
    | _ => cases sameCode
  | subject split isVerb first unmarked =>
    obtain rfl := Option.some.inj offered
    have inside : 0 < sequence.length := Nat.zero_lt_of_lt (length_of_split split)
    let remedy : Remedy := { action := .insertBefore, block := .particle .ga, target := 0 }
    obtain ⟨chain, repaired⟩ := remedy.tokens_apply inside label
    -- The new marker is among the tokens, wherever the verb has moved.
    cases still with
    | subject _ _ _ stillUnmarked =>
      exact absurd rfl (stillUnmarked _ (repaired ▸ List.mem_append_right _ List.mem_cons_self))
    | particle _ _ stillFault =>
      rcases code_of_particleFault? stillFault with rfl | rfl <;> cases sameCode
    | _ => cases sameCode
  | @object earlier later verb split isVerb first unmarked =>
    obtain rfl := Option.some.inj offered
    simp only [Fix.moved, Fix.landing, Remedy.toFix, Nat.le_refl, if_true]
    intro samePosition
    have repaired := Sequence.insert_of_split split (Token.ofBlock (.particle .wo) (some ""))
    cases still with
    | object stillSplit _ _ stillUnmarked =>
      -- Both splits are at the same verb, so what is in front of it ends with the new marker.
      rw [← List.singleton_append, ← List.append_assoc] at repaired
      obtain ⟨rfl, -⟩ := List.append_inj (repaired.symm.trans stillSplit) (by
        rw [List.length_append, List.length_singleton]
        exact samePosition.symm)
      exact absurd rfl (stillUnmarked _ (List.mem_append_right _ List.mem_cons_self))
    | particle _ _ stillFault =>
      rcases code_of_particleFault? stillFault with rfl | rfl <;> cases sameCode
    | _ => cases sameCode

end Japanese

namespace English

variable {sequence : Sequence} {note other : Note} {remedy : Remedy}

theorem Reported.inside (reported : Reported sequence note) (offered : note.remedy = some remedy) :
    note.position < sequence.length ∧ remedy.target < sequence.length := by
  cases reported with
  | article member _ _ =>
    obtain rfl := Option.some.inj offered
    exact ⟨Sequence.index_lt_length member, Sequence.index_lt_length member⟩
  | preposition member _ _ _ =>
    obtain rfl := Option.some.inj offered
    exact ⟨Sequence.index_lt_length member, Sequence.index_lt_length member⟩
  | _ => cases offered

theorem hasObject_of_insertAfter {place later : Place} (member : place ∈ sequence.places)
    (inserted : later ∈
      (sequence.insertAfter place.index (Token.ofBlock .noun (some ""))).places)
    (kept : later.index = place.index) : hasObject later = true := by
  rw [hasObject, (Sequence.next?_of_insertAfter member inserted kept).2]
  rfl

/-- Once its remedy is carried out, a note is reported no more: the word it was about now stands
right in front of a noun. -/
theorem Reported.resolved (reported : Reported sequence note)
    (offered : note.remedy = some remedy) (label : String)
    (still : Reported (remedy.apply sequence) other) (sameCode : other.code = note.code) :
    other.position ≠ (remedy.toFix label).moved note.position := by
  cases reported with
  | article member _ _ =>
    obtain rfl := Option.some.inj offered
    simp only [Fix.moved, Fix.landing, Remedy.toFix, nounAfter, Nat.not_succ_le_self, if_false]
    intro samePosition
    cases still with
    | article stillMember _ stillLacking =>
      rw [hasObject_of_insertAfter member stillMember samePosition] at stillLacking
      cases stillLacking
    | _ => cases sameCode
  | preposition member _ _ _ =>
    obtain rfl := Option.some.inj offered
    simp only [Fix.moved, Fix.landing, Remedy.toFix, nounAfter, Nat.not_succ_le_self, if_false]
    intro samePosition
    cases still with
    | preposition stillMember _ _ stillLacking =>
      rw [hasObject_of_insertAfter member stillMember samePosition] at stillLacking
      cases stillLacking
    | _ => cases sameCode
  | _ => cases offered

end English

variable {grammar display : Locale} {sequence : Sequence}

theorem inside_of_mem_notes {note : Note} {remedy : Remedy} (member : note ∈ notes grammar sequence)
    (offered : note.remedy = some remedy) :
    note.position < sequence.length ∧ remedy.target < sequence.length := by
  cases grammar with
  | ja => exact (Japanese.mem_notes.mp member).inside offered
  | en => exact (English.mem_notes.mp member).inside offered

theorem resolved_of_mem_notes {note other : Note} {remedy : Remedy}
    (member : note ∈ notes grammar sequence) (offered : note.remedy = some remedy) (label : String)
    (still : other ∈ notes grammar (remedy.apply sequence)) (sameCode : other.code = note.code) :
    other.position ≠ (remedy.toFix label).moved note.position := by
  cases grammar with
  | ja =>
    exact (Japanese.mem_notes.mp member).resolved offered label (Japanese.mem_notes.mp still)
      sameCode
  | en =>
    exact (English.mem_notes.mp member).resolved offered label (English.mem_notes.mp still)
      sameCode

/-- A fix that a check offers is the worded remedy of one of its notes. -/
theorem note_of_offered {finding : Finding} {fix : Fix}
    (found : finding ∈ (check sequence grammar display).findings)
    (offered : finding.fix = some fix) :
    ∃ note ∈ notes grammar sequence, findingOf display note = finding ∧
      ∃ remedy, note.remedy = some remedy ∧
        remedy.toFix (wording display note.subject note.code).label = fix := by
  obtain ⟨-, note, member, rfl⟩ := mem_findings.mp found
  obtain ⟨remedy, hasRemedy, rfl⟩ := Option.map_eq_some_iff.mp offered
  exact ⟨note, member, rfl, remedy, hasRemedy, rfl⟩

/-- Every fix resolves the finding that offers it.  Finding and fix lie inside the sequence; the plan
is one step at the fix's target that puts in one block of the vocabulary; and afterwards the check
reports no finding of that code at the place where the old position is found again. -/
theorem fix_resolves {finding : Finding} {fix : Fix}
    (found : finding ∈ (check sequence grammar display).findings)
    (offered : finding.fix = some fix) :
    finding.position < sequence.length ∧ fix.target < sequence.length ∧
      ∃ block, fix.block? = some block ∧
        Plan.forFix sequence fix =
          ⟨[{ operation := Plan.operationOf fix.action, block, anchor := fix.target,
              text := none }]⟩ ∧
        (∃ token, token.block = block ∧
          ((Plan.forFix sequence fix).apply sequence).tokens =
            sequence.tokens.take fix.landing ++ token :: sequence.tokens.drop fix.landing) ∧
        ∀ later ∈ (check ((Plan.forFix sequence fix).apply sequence) grammar display).findings,
          later.code = finding.code → later.position ≠ fix.moved finding.position := by
  obtain ⟨note, member, rfl, remedy, hasRemedy, rfl⟩ := note_of_offered found offered
  obtain ⟨positionInside, targetInside⟩ := inside_of_mem_notes member hasRemedy
  obtain ⟨chain, repaired⟩ := remedy.tokens_apply targetInside
    (wording display note.subject note.code).label
  refine ⟨positionInside, targetInside, remedy.block, remedy.block?_toFix _,
    Remedy.forFix_toFix targetInside _, ?_, ?_⟩
  · rw [Remedy.apply_forFix_toFix targetInside]
    exact ⟨remedy.token.inChain chain, rfl, repaired⟩
  · rw [Remedy.apply_forFix_toFix targetInside]
    intro later laterFound sameCode
    obtain ⟨-, other, still, rfl⟩ := mem_findings.mp laterFound
    exact resolved_of_mem_notes member hasRemedy _ still sameCode

/-- At the head of its chain, a subject marker lacks a noun although one ends the chain in front.  The
noun that its fix puts in joins the marker's chain, and the marker, now at position two, is reported
no more. -/
theorem fix_resolves_at_chain_head :
    (Plan.forFix
        ⟨[⟨.noun, some "A", 0⟩, ⟨.particle .ga, none, 1⟩, ⟨.verb .analyze, none, 1⟩]⟩
        ⟨.insertBefore, "promps_noun", 1, "Add noun"⟩).apply
      ⟨[⟨.noun, some "A", 0⟩, ⟨.particle .ga, none, 1⟩, ⟨.verb .analyze, none, 1⟩]⟩ =
        ⟨[⟨.noun, some "A", 0⟩, ⟨.noun, some "", 1⟩, ⟨.particle .ga, none, 1⟩,
          ⟨.verb .analyze, none, 1⟩]⟩ ∧
      ∀ later ∈ (check ⟨[⟨.noun, some "A", 0⟩, ⟨.noun, some "", 1⟩, ⟨.particle .ga, none, 1⟩,
          ⟨.verb .analyze, none, 1⟩]⟩ .ja .en).findings,
        later.code = .particleWithoutNoun → later.position ≠ 2 := by
  have repaired : (Plan.forFix
        ⟨[⟨.noun, some "A", 0⟩, ⟨.particle .ga, none, 1⟩, ⟨.verb .analyze, none, 1⟩]⟩
        ⟨.insertBefore, "promps_noun", 1, "Add noun"⟩).apply
      ⟨[⟨.noun, some "A", 0⟩, ⟨.particle .ga, none, 1⟩, ⟨.verb .analyze, none, 1⟩]⟩ =
        ⟨[⟨.noun, some "A", 0⟩, ⟨.noun, some "", 1⟩, ⟨.particle .ga, none, 1⟩,
          ⟨.verb .analyze, none, 1⟩]⟩ := by
    decide
  refine ⟨repaired, ?_⟩
  have found : findingOf .en ⟨.particleWithoutNoun, .error, 1, "が", some ⟨.insertBefore, .noun, 1⟩⟩ ∈
      (check ⟨[⟨.noun, some "A", 0⟩, ⟨.particle .ga, none, 1⟩, ⟨.verb .analyze, none, 1⟩]⟩
        .ja .en).findings :=
    mem_findings.mpr ⟨rfl, _, by decide, rfl⟩
  obtain ⟨-, -, block, -, -, -, resolved⟩ := fix_resolves found rfl
  rw [← repaired]
  exact resolved

end PromptBlocks.Grammar
