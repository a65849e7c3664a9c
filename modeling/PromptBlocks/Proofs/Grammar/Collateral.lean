import PromptBlocks.Proofs.Grammar.Collateral.English
import PromptBlocks.Proofs.Grammar.Collateral.Japanese
import PromptBlocks.Proofs.Grammar.Resolution

/-!
Contract: a fix between neighbouring words changes nothing else.

Owns:
- the note that such a fix may add: a verb that a new noun leaves inside its run;
- the notes of either profile after such a fix;
- the report after it: all other findings are found again, in the same order.

Does not own: fixes for what a whole sentence misses.
-/

namespace PromptBlocks.Grammar

variable {grammar display : Locale} {sequence : Sequence}

/-- The note that a fix for a code may add, with its token put in at an index. -/
def exposedBy? (sequence : Sequence) (code : FindingCode) (index : Nat) : Option Note :=
  if code.lacksNoun then Japanese.exposedVerb? sequence index else none

/-- The notes of either profile before and after a fix between neighbours. -/
theorem exists_others_of_mem_notes {note : Note} (member : note ∈ notes grammar sequence)
    (isLocal : note.code.hasLocalFix = true) (label : String) :
    ∃ remedy others, note.remedy = some remedy ∧
      (notes grammar sequence).Perm (note :: others) ∧
        (notes grammar (remedy.apply sequence)).Perm
          (others.map (Note.pastInsertion (remedy.toFix label).landing) ++
            (exposedBy? sequence note.code (remedy.toFix label).landing).toList) := by
  cases grammar with
  | ja => exact (Japanese.mem_notes.mp member).exists_others isLocal label
  | en =>
    have reported := English.mem_notes.mp member
    obtain ⟨remedy, others, offered, before, after⟩ := reported.exists_others isLocal label
    have addsNothing : ∀ index, exposedBy? sequence note.code index = none := by
      intro index
      cases reported <;> rfl
    refine ⟨remedy, others, offered, before, ?_⟩
    rw [addsNothing, Option.toList_none, List.append_nil]
    exact after

/-- A fix between neighbouring words settles its finding and leaves the rest of the report alone.  The
other findings are found again in the same order, moved behind the new token where they stood behind
it; at most one more is among them, about the last verb in front of a new noun. -/
theorem fix_is_local {finding : Finding}
    (found : finding ∈ (check sequence grammar display).findings)
    (isLocal : finding.code.hasLocalFix = true) :
    ∃ fix, finding.fix = some fix ∧
      (∃ token, ((Plan.forFix sequence fix).apply sequence).tokens =
        sequence.tokens.take fix.landing ++ token :: sequence.tokens.drop fix.landing) ∧
      ∃ front back,
        ((check sequence grammar display).findings.erase finding).map (Finding.pastFix fix) =
            front ++ back ∧
          (check ((Plan.forFix sequence fix).apply sequence) grammar display).findings =
            front ++
              ((exposedBy? sequence finding.code fix.landing).map (findingOf display)).toList ++
              back := by
  obtain ⟨nonempty, note, member, rfl⟩ := mem_findings.mp found
  let label := (wording display note.subject note.code).label
  obtain ⟨remedy, others, offered, before, after⟩ := exists_others_of_mem_notes member isLocal label
  obtain ⟨-, targetInside⟩ := inside_of_mem_notes member offered
  obtain ⟨chain, repaired⟩ := remedy.tokens_apply targetInside label
  have stillNonempty : (remedy.apply sequence).isEmpty = false := by
    rw [Sequence.isEmpty, repaired]
    simp
  refine ⟨remedy.toFix label, congrArg (Option.map _) offered, ?_, ?_⟩
  · rw [Remedy.apply_forFix_toFix targetInside]
    exact ⟨_, repaired⟩
  · rw [Remedy.apply_forFix_toFix targetInside]
    exact exists_split_of_notes nonempty stillNonempty before after

/-- An object marker behind a comma lacks a noun.  The noun that its fix puts in leaves the verb in
front of the comma inside its run: the report gains that finding and no other. -/
theorem fix_is_local_of_verb_in_front :
    ∃ front back,
      ((check
            ⟨[⟨.verb .analyze, none, 0⟩, ⟨.punctuation .touten, none, 0⟩, ⟨.particle .wo, none, 0⟩]⟩
            .ja .en).findings.erase
          (findingOf .en ⟨.particleWithoutNoun, .error, 2, "を", some ⟨.insertBefore, .noun, 2⟩⟩)).map
          (Finding.pastFix ⟨.insertBefore, "promps_noun", 2, "Add noun"⟩) = front ++ back ∧
        (check
            ⟨[⟨.verb .analyze, none, 0⟩, ⟨.punctuation .touten, none, 0⟩, ⟨.noun, some "", 0⟩,
              ⟨.particle .wo, none, 0⟩]⟩ .ja .en).findings =
          front ++ [findingOf .en ⟨.verbNotAtEnd, .warning, 0, "", none⟩] ++ back := by
  have repaired : (Plan.forFix
        ⟨[⟨.verb .analyze, none, 0⟩, ⟨.punctuation .touten, none, 0⟩, ⟨.particle .wo, none, 0⟩]⟩
        ⟨.insertBefore, "promps_noun", 2, "Add noun"⟩).apply
      ⟨[⟨.verb .analyze, none, 0⟩, ⟨.punctuation .touten, none, 0⟩, ⟨.particle .wo, none, 0⟩]⟩ =
        ⟨[⟨.verb .analyze, none, 0⟩, ⟨.punctuation .touten, none, 0⟩, ⟨.noun, some "", 0⟩,
          ⟨.particle .wo, none, 0⟩]⟩ := by
    decide
  have found : findingOf .en ⟨.particleWithoutNoun, .error, 2, "を", some ⟨.insertBefore, .noun, 2⟩⟩ ∈
      (check
        ⟨[⟨.verb .analyze, none, 0⟩, ⟨.punctuation .touten, none, 0⟩, ⟨.particle .wo, none, 0⟩]⟩
        .ja .en).findings :=
    mem_findings.mpr ⟨rfl, _, by decide, rfl⟩
  have exposed : exposedBy?
      ⟨[⟨.verb .analyze, none, 0⟩, ⟨.punctuation .touten, none, 0⟩, ⟨.particle .wo, none, 0⟩]⟩
      .particleWithoutNoun 2 = some ⟨.verbNotAtEnd, .warning, 0, "", none⟩ := by
    decide
  obtain ⟨fix, offered, -, front, back, others, after⟩ := fix_is_local found rfl
  have isNoun : fix = ⟨.insertBefore, "promps_noun", 2, "Add noun"⟩ := (Option.some.inj offered).symm
  have sameCode : (findingOf .en
      ⟨.particleWithoutNoun, .error, 2, "を", some ⟨.insertBefore, .noun, 2⟩⟩).code = .particleWithoutNoun :=
    rfl
  have sameLanding : Fix.landing ⟨.insertBefore, "promps_noun", 2, "Add noun"⟩ = 2 := rfl
  rw [isNoun] at others after
  rw [repaired, sameCode, sameLanding, exposed] at after
  exact ⟨front, back, others, after⟩

end PromptBlocks.Grammar
