import PromptBlocks.Proofs.Script.RoundTrip

/-!
Contract: the sequences that a script can represent.

Owns:
- which texts a token may carry so that its word tells it apart;
- representable sequences, whose runs are numbered and whose tokens are spellable;
- such a sequence is read back from its Japanese script, and its English counterpart from its English
  script.

Does not own: what reading makes of any other text.
-/

namespace PromptBlocks.Script

open Text Sequence

/-- No fixed verb has the text for a surface, in either language. -/
def IsNoVerb (text : String) : Prop :=
  ∀ (verb : Verb) locale, verb.surface locale ≠ text

/-- A word that may stand for itself: it has no mark, is no fixed word, and does not end like a verb. -/
structure IsFreeWord (text : String) : Prop where
  isWord : IsWord text.toList
  notNoun : ¬ "_N:".toList <+: text.toList
  notVerb : ¬ "_V:".toList <+: text.toList
  noParticle : ∀ (particle : Particle) locale, particle.surface locale ≠ text
  noArticle : ∀ article : Article, article.surface ≠ text
  noPunctuation : ∀ (mark : Punctuation) locale, mark.surface locale ≠ text
  noVerb : IsNoVerb text
  notShite : ¬ "して".toList <:+ text.toList
  notSuru : ¬ "する".toList <:+ text.toList

/-- The texts that a block may carry.  A fixed word carries none; a noun or a verb of the user's carries
one without blanks, which may be empty. -/
def MayCarry : Block → Option String → Prop
  | .noun, some text => Unbroken text.toList
  | .customVerb, some text => Unbroken text.toList ∧ IsNoVerb text
  | .other, some text => IsFreeWord text
  | .noun, none | .customVerb, none | .other, none => False
  | .particle _, text | .article _, text | .verb _, text | .punctuation _, text => text = none

/-- A sequence that a script can represent. -/
structure Representable (sequence : Sequence) : Prop where
  runsNumbered : sequence.RunsNumbered
  mayCarry : ∀ token ∈ sequence.tokens, MayCarry token.block token.text

/-! ### Spellable tokens are legible -/

section Free

variable {text : String}

theorem IsNoVerb.ofSurface? (noVerb : IsNoVerb text) : Verb.ofSurface? text = none := by
  refine List.find?_eq_none.mpr fun verb _ claimed => ?_
  rw [Bool.or_eq_true, beq_iff_eq, beq_iff_eq] at claimed
  exact claimed.elim (noVerb verb .ja) (noVerb verb .en)

theorem particle_ofSurface?_eq_none
    (noParticle : ∀ (particle : Particle) locale, particle.surface locale ≠ text) :
    Particle.ofSurface? text = none := by
  refine List.find?_eq_none.mpr fun particle _ claimed => ?_
  rw [Bool.or_eq_true, Bool.and_eq_true, beq_iff_eq, beq_iff_eq] at claimed
  exact claimed.elim (noParticle particle .ja) fun heard => noParticle particle .en heard.2

theorem article_ofSurface?_eq_none (noArticle : ∀ article : Article, article.surface ≠ text) :
    Article.ofSurface? text = none :=
  List.find?_eq_none.mpr fun article _ claimed => noArticle article (beq_iff_eq.mp claimed)

theorem punctuation_ofSurface?_eq_none
    (noPunctuation : ∀ (mark : Punctuation) locale, mark.surface locale ≠ text) :
    Punctuation.ofSurface? text = none := by
  rw [Punctuation.ofSurface?_eq_or]
  refine Option.or_eq_none_iff.mpr ⟨?_, ?_⟩
  · exact List.find?_eq_none.mpr fun mark _ claimed => noPunctuation mark .ja (beq_iff_eq.mp claimed)
  · exact List.find?_eq_none.mpr fun mark _ claimed => noPunctuation mark .en (beq_iff_eq.mp claimed)

theorem IsFreeWord.isPlain (free : IsFreeWord text) : IsPlain text.toList where
  notNoun := free.notNoun
  notVerb := free.notVerb
  notParticle := by
    rw [String.ofList_toList]
    exact particle_ofSurface?_eq_none free.noParticle
  notArticle := by
    rw [String.ofList_toList]
    exact article_ofSurface?_eq_none free.noArticle
  notPunctuation := by
    rw [String.ofList_toList]
    exact punctuation_ofSurface?_eq_none free.noPunctuation
  notFixedVerb := by
    rw [String.ofList_toList]
    exact free.noVerb.ofSurface?
  notEnding := by
    refine List.any_eq_false.mpr fun ending member isEnding => ?_
    rw [List.isSuffixOf_iff_suffix] at isEnding
    rcases List.mem_pair.mp member with rfl | rfl
    · exact free.notShite isEnding
    · exact free.notSuru isEnding

end Free

/-- Out of its chain, a token with a text that it may carry is legible. -/
theorem legible_inChain_zero {token : Token} (mayCarry : MayCarry token.block token.text) :
    Legible (token.inChain 0) := by
  obtain ⟨block, text, chain⟩ := token
  cases block with
  | noun =>
    cases text with
    | none => exact mayCarry.elim
    | some text =>
      have unbroken : Unbroken text.toList := mayCarry
      have legible := Legible.noun unbroken
      rwa [String.ofList_toList] at legible
  | customVerb =>
    cases text with
    | none => exact mayCarry.elim
    | some text =>
      obtain ⟨unbroken, noVerb⟩ : Unbroken text.toList ∧ IsNoVerb text := mayCarry
      have notFixed : Verb.ofSurface? (String.ofList text.toList) = none := by
        rw [String.ofList_toList]
        exact noVerb.ofSurface?
      have legible := Legible.customVerb unbroken notFixed
      rwa [String.ofList_toList] at legible
  | other =>
    cases text with
    | none => exact mayCarry.elim
    | some text =>
      have free : IsFreeWord text := mayCarry
      have legible := Legible.other free.isWord free.isPlain
      rwa [String.ofList_toList] at legible
  | particle word =>
    obtain rfl : text = none := mayCarry
    exact .particle word
  | article word =>
    obtain rfl : text = none := mayCarry
    exact .article word
  | verb word =>
    obtain rfl : text = none := mayCarry
    exact .verb word
  | punctuation mark =>
    obtain rfl : text = none := mayCarry
    exact .punctuation mark

/-! ### Reading back -/

/-- The runs of a sequence, with no word on their chains. -/
def unnumbered (sequence : Sequence) : List (List Token) :=
  sequence.runs.map (·.map (·.inChain 0))

theorem english?_inChain (chain : Nat) (token : Token) :
    english? (token.inChain chain) = (english? token).map (·.inChain chain) := by
  obtain ⟨block, text, held⟩ := token
  cases block with
  | particle word => cases word <;> rfl
  | _ => rfl

namespace Representable

variable {sequence : Sequence}

theorem legibleRuns (representable : Representable sequence) : LegibleRuns (unnumbered sequence) := by
  intro run member
  obtain ⟨source, inside, rfl⟩ := List.mem_map.mp member
  refine ⟨fun empty => ?_, fun token inRun => ?_⟩
  · exact ne_nil_of_mem_runs inside (List.map_eq_nil_iff.mp empty)
  · obtain ⟨original, inSource, rfl⟩ := List.mem_map.mp inRun
    exact legible_inChain_zero
      (representable.mayCarry original (mem_tokens_of_mem_runs inside inSource))

theorem ofRuns_unnumbered (representable : Representable sequence) :
    ofRuns (unnumbered sequence) = sequence := by
  rw [unnumbered, ofRuns_inChain, ofRuns_runs representable.runsNumbered]

/-- What reading finds in the English script: of each run, the English counterparts of its tokens. -/
theorem rereadRuns_en (representable : Representable sequence) :
    rereadRuns .en (unnumbered sequence) =
      ((sequence.runs.map (·.filterMap english?)).filter fun run => !run.isEmpty).map
        (·.map (·.inChain 0)) := by
  have counterparts : (unnumbered sequence).map (·.filterMap (reread? .en)) =
      (sequence.runs.map (·.filterMap english?)).map (·.map (·.inChain 0)) := by
    rw [unnumbered, List.map_map, List.map_map]
    refine List.map_congr_left fun run member => ?_
    show (run.map (·.inChain 0)).filterMap (reread? .en) = (run.filterMap english?).map (·.inChain 0)
    rw [List.filterMap_map, List.map_filterMap]
    refine List.filterMap_congr fun token inRun => ?_
    have legible := legible_inChain_zero
      (representable.mayCarry token (mem_tokens_of_mem_runs member inRun))
    exact legible.reread_en.trans (english?_inChain 0 token)
  have sameFilled : (fun run : List Token => !run.isEmpty) ∘ (·.map (·.inChain 0)) =
      fun run : List Token => !run.isEmpty := by
    funext run
    cases run <;> rfl
  rw [rereadRuns, counterparts, List.filter_map, sameFilled]

end Representable

/-- Scripts are invertible on representable sequences.  The Japanese script is read back as the sequence
itself.  The English script is read back as the runs that still have a token, numbered anew, once the
subject and object markers are gone and touten and kuten have become comma and period. -/
theorem read_write_representable {sequence : Sequence} (representable : Representable sequence) :
    read (write sequence .ja) = sequence ∧
      read (write sequence .en) =
        ofRuns ((sequence.runs.map (·.filterMap english?)).filter fun run => !run.isEmpty) := by
  have legible := representable.legibleRuns
  have same := representable.ofRuns_unnumbered
  constructor
  · rw [← same]
    exact read_write_of_reread legible fun run member token inRun =>
      ((legible run member).2 token inRun).reread_ja
  · conv_lhs => rw [← same]
    rw [read_write_ofRuns legible, representable.rereadRuns_en, ofRuns_inChain]

/-- The middle run, an object marker by itself, leaves an empty line in English, and the last run moves up
in its place. -/
theorem read_write_representable_of_silent_run :
    Representable
        ⟨[⟨.noun, some "A", 0⟩, ⟨.particle .wo, none, 1⟩, ⟨.punctuation .kuten, none, 2⟩,
          ⟨.other, some "x", 2⟩]⟩ ∧
      read (write
          ⟨[⟨.noun, some "A", 0⟩, ⟨.particle .wo, none, 1⟩, ⟨.punctuation .kuten, none, 2⟩,
            ⟨.other, some "x", 2⟩]⟩ .ja) =
        ⟨[⟨.noun, some "A", 0⟩, ⟨.particle .wo, none, 1⟩, ⟨.punctuation .kuten, none, 2⟩,
          ⟨.other, some "x", 2⟩]⟩ ∧
      read (write
          ⟨[⟨.noun, some "A", 0⟩, ⟨.particle .wo, none, 1⟩, ⟨.punctuation .kuten, none, 2⟩,
            ⟨.other, some "x", 2⟩]⟩ .en) =
        ⟨[⟨.noun, some "A", 0⟩, ⟨.punctuation .period, none, 1⟩, ⟨.other, some "x", 1⟩]⟩ := by
  have free : IsFreeWord "x" :=
    { isWord := by decide
      notNoun := by decide
      notVerb := by decide
      noParticle := by intro particle locale; cases particle <;> cases locale <;> decide
      noArticle := by intro article; cases article <;> decide
      noPunctuation := by intro mark locale; cases mark <;> cases locale <;> decide
      noVerb := by intro verb locale; cases verb <;> cases locale <;> decide
      notShite := by decide
      notSuru := by decide }
  have representable : Representable
      ⟨[⟨.noun, some "A", 0⟩, ⟨.particle .wo, none, 1⟩, ⟨.punctuation .kuten, none, 2⟩,
        ⟨.other, some "x", 2⟩]⟩ := by
    refine ⟨by decide, ?_⟩
    intro token member
    simp only [List.mem_cons, List.not_mem_nil, or_false] at member
    rcases member with rfl | rfl | rfl | rfl
    · show Unbroken "A".toList
      decide
    · exact rfl
    · exact rfl
    · exact free
  obtain ⟨japanese, english⟩ := read_write_representable representable
  exact ⟨representable, japanese, english.trans (by decide)⟩

end PromptBlocks.Script
