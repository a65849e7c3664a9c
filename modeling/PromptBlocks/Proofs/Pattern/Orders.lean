import PromptBlocks.Proofs.Pattern.Matching

/-!
Contract: when the order of the tokens does not matter to the slots they fill.

Owns:
- slots for any free word, and slots for one word;
- slots that give way to those behind them because no free word is in dispute;
- the tokens that a slot for any word wastes when it stands in front of a slot for one;
- when the greedy filling is the largest one, in every order of the tokens.

Does not own: why a greedy filling is the largest where slots give way.
-/

namespace PromptBlocks.Slot

/-- A slot for any free word. -/
def takesAnyWord (slot : Slot) : Bool :=
  slot.block == .other && (slot.isPlaceholder || slot.preset.isNone)

/-- A slot for one free word: its preset text, which is no placeholder. -/
def takesOneWord (slot : Slot) : Bool :=
  slot.block == .other && !(slot.isPlaceholder || slot.preset.isNone)

/-- No slot for any free word stands in front of a slot for one. -/
def OneWordsFirst (slots : List Slot) : Prop :=
  slots.Pairwise fun earlier later =>
    ¬(earlier.takesAnyWord = true ∧ later.takesOneWord = true)

instance (slots : List Slot) : Decidable (OneWordsFirst slots) :=
  inferInstanceAs (Decidable (slots.Pairwise fun earlier later =>
    ¬(earlier.takesAnyWord = true ∧ later.takesOneWord = true)))

section Words

variable {slot earlier later : Slot} {slots : List Slot} {token : Token}

theorem kind_of_accepts (accepted : slot.accepts token = true) : token.kind = slot.block.kind := by
  unfold accepts at accepted
  split at accepted <;> simp_all [Token.kind, Block.kind]

theorem accepts_of_kind (byKind : slot.block.kind = .noun ∨ slot.block.kind = .verb) :
    slot.accepts token = true ↔ token.kind = slot.block.kind := by
  unfold accepts
  split <;> simp_all [Block.kind]

theorem block_eq_other (word : slot.block.kind = .other) : slot.block = .other := by
  cases block : slot.block <;> simp_all [Block.kind]

theorem accepts_of_word (word : slot.block.kind = .other) :
    slot.accepts token = true ↔
      token.kind = .other ∧ (slot.takesOneWord = true → token.text = slot.preset) := by
  simp only [accepts, takesOneWord, block_eq_other word]
  cases slot.isPlaceholder || slot.preset.isNone <;> simp

theorem accepts_of_fixed (notNoun : slot.block.kind ≠ .noun) (notVerb : slot.block.kind ≠ .verb)
    (notWord : slot.block.kind ≠ .other) : slot.accepts token = true ↔ token.block = slot.block := by
  unfold accepts
  split <;> simp_all [Block.kind]

theorem takesAnyWord_or_takesOneWord (word : slot.block.kind = .other) :
    slot.takesAnyWord = true ∨ slot.takesOneWord = true := by
  simp only [takesAnyWord, takesOneWord, block_eq_other word]
  cases slot.isPlaceholder || slot.preset.isNone <;> simp

theorem yieldsTo_of_words
    (apart : ¬(earlier.takesAnyWord = true ∧ later.takesOneWord = true)) :
    earlier.YieldsTo later := by
  intro shared first second token accepted
  have sameKind := (kind_of_accepts first).symm.trans (kind_of_accepts second)
  by_cases byKind : earlier.block.kind = .noun ∨ earlier.block.kind = .verb
  · have laterByKind := byKind
    rw [sameKind] at laterByKind
    exact (accepts_of_kind laterByKind).mpr ((kind_of_accepts accepted).trans sameKind)
  · obtain ⟨notNoun, notVerb⟩ := not_or.mp byKind
    by_cases word : earlier.block.kind = .other
    · have laterWord : later.block.kind = .other := sameKind ▸ word
      refine (accepts_of_word laterWord).mpr ⟨(kind_of_accepts accepted).trans word, fun one => ?_⟩
      have earlierOne : earlier.takesOneWord = true :=
        (takesAnyWord_or_takesOneWord word).resolve_left fun any => apart ⟨any, one⟩
      rw [((accepts_of_word word).mp accepted).2 earlierOne,
        ← ((accepts_of_word word).mp first).2 earlierOne,
        ((accepts_of_word laterWord).mp second).2 one]
    · have sameBlock : later.block = earlier.block := by
        rw [← (accepts_of_fixed notNoun notVerb word).mp first]
        rw [sameKind] at notNoun notVerb word
        exact ((accepts_of_fixed notNoun notVerb word).mp second).symm
      have here := (accepts_of_fixed notNoun notVerb word).mp accepted
      rw [← sameBlock] at here notNoun notVerb word
      exact (accepts_of_fixed notNoun notVerb word).mpr here

end Words

section Waste

variable {slot earlier later : Slot} {slots : List Slot} {tokens front back : List Token}
  {token wanted plain : Token}

/-- The slot accepts the wanted token and would not do with the plain one. -/
def insists (wanted plain : Token) (slot : Slot) : Bool :=
  slot.accepts wanted && !slot.accepts plain

/-- Slots that do with the plain token would take the wanted one as well. -/
def Prefer (slots : List Slot) (wanted plain : Token) : Prop :=
  ∀ slot ∈ slots, slot.accepts plain = true → slot.accepts wanted = true

/-- How many slots do with the plain token. -/
def easyCount (plain : Token) (slots : List Slot) : Nat :=
  slots.countP fun slot => slot.accepts plain

/-- How many slots insist on the wanted token. -/
def insistingCount (wanted plain : Token) (slots : List Slot) : Nat :=
  slots.countP (insists wanted plain)

theorem counts_cons_of_easy (slots : List Slot) (easy : slot.accepts plain = true) :
    easyCount plain (slot :: slots) = easyCount plain slots + 1 ∧
      insistingCount wanted plain (slot :: slots) = insistingCount wanted plain slots := by
  simp [easyCount, insistingCount, insists, easy]

theorem counts_cons_of_insists (slots : List Slot) (plainHere : slot.accepts plain = false)
    (wantedHere : slot.accepts wanted = true) :
    easyCount plain (slot :: slots) = easyCount plain slots ∧
      insistingCount wanted plain (slot :: slots) = insistingCount wanted plain slots + 1 := by
  simp [easyCount, insistingCount, insists, plainHere, wantedHere]

theorem counts_cons_of_neither (slots : List Slot) (plainHere : slot.accepts plain = false)
    (wantedHere : slot.accepts wanted = false) :
    easyCount plain (slot :: slots) = easyCount plain slots ∧
      insistingCount wanted plain (slot :: slots) = insistingCount wanted plain slots := by
  simp [easyCount, insistingCount, insists, plainHere, wantedHere]

/-- A slot for neither of two tokens is filled by no copies of them. -/
theorem filledCount_cons_of_neither {left right : Token} (notLeft : slot.accepts left = false)
    (notRight : slot.accepts right = false) (lefts rights : Nat) :
    filledCount (slot :: slots) (List.replicate lefts left ++ List.replicate rights right) =
      filledCount slots (List.replicate lefts left ++ List.replicate rights right) := by
  apply filledCount_cons_of_not_any
  simp [notLeft, notRight]

theorem filledCount_cons_of_split (refused : ∀ token ∈ front, ¬slot.accepts token = true)
    (accepted : slot.accepts token = true) :
    filledCount (slot :: slots) (front ++ token :: back) =
      filledCount slots (front ++ back) + 1 := by
  have taken : (front ++ token :: back).any slot.accepts = true := by
    simp [accepted]
  rw [filledCount_cons_of_any taken, List.eraseP_append_right _ refused,
    List.eraseP_cons_of_pos accepted]

theorem filledCount_cons_of_head (accepted : slot.accepts token = true) :
    filledCount (slot :: slots) (token :: tokens) = filledCount slots tokens + 1 :=
  filledCount_cons_of_split (fun _ inFront => absurd inFront List.not_mem_nil) accepted

/-- Every filled slot is easy or has a token that is in demand. -/
theorem filledCount_le_countP_add {easy : Slot → Bool} {inDemand : Token → Bool}
    (demanding : ∀ slot ∈ slots, easy slot = false →
      ∀ token ∈ tokens, slot.accepts token = true → inDemand token = true) :
    filledCount slots tokens ≤ slots.countP easy + tokens.countP inDemand := by
  induction slots generalizing tokens with
  | nil => exact Nat.zero_le _
  | cons slot slots inductionHypothesis =>
    obtain ⟨here, behind⟩ := List.forall_mem_cons.mp demanding
    rw [List.countP_cons]
    cases taken : tokens.any slot.accepts with
    | false =>
      have rest := inductionHypothesis behind
      rw [filledCount_cons_of_not_any taken]
      omega
    | true =>
      obtain ⟨token, accepted, split⟩ := exists_perm_of_any taken
      have rest : filledCount slots (tokens.eraseP slot.accepts) ≤
          slots.countP easy + (tokens.eraseP slot.accepts).countP inDemand :=
        inductionHypothesis fun other inSlots demands used inRest =>
          behind other inSlots demands used (List.mem_of_mem_eraseP inRest)
      have counts := split.countP_eq inDemand
      rw [List.countP_cons] at counts
      rw [filledCount_cons_of_any taken]
      cases easySlot : easy slot with
      | true =>
        rw [if_pos rfl]
        omega
      | false =>
        have member : token ∈ tokens := split.mem_iff.mpr List.mem_cons_self
        rw [if_pos (here easySlot token member accepted)] at counts
        rw [if_neg Bool.false_ne_true]
        omega

/-- The slots that do with the plain token, and one more for each copy of the wanted one. -/
theorem filledCount_le_easyCount_add (slots : List Slot) (wanted plain : Token)
    (copies spares : Nat) :
    filledCount slots (List.replicate copies wanted ++ List.replicate spares plain) ≤
      easyCount plain slots + copies := by
  have inDemand : (List.replicate copies wanted ++ List.replicate spares plain).countP
      (fun token => token != plain) ≤ copies := by
    rw [List.countP_append, List.countP_replicate, List.countP_replicate]
    simp only [bne_self_eq_false, Bool.false_eq_true, if_false, Nat.add_zero]
    split <;> omega
  refine (filledCount_le_countP_add fun slot _ hard token _ accepted => ?_).trans
    (Nat.add_le_add_left inDemand _)
  rw [bne_iff_ne]
  rintro rfl
  exact Bool.eq_false_iff.mp hard accepted

/-- An easy slot that takes a wanted token first leaves too few of them to the slots that insist. -/
theorem filledCount_lt_of_wasted (prefer : Prefer slots wanted plain)
    (inOrder : [earlier, later].Sublist slots) (easy : earlier.accepts plain = true)
    (insisting : later.insists wanted plain = true) (spares : Nat) :
    filledCount slots (List.replicate (insistingCount wanted plain slots) wanted ++
      List.replicate spares plain) <
        easyCount plain slots + insistingCount wanted plain slots := by
  induction slots with
  | nil => cases inOrder
  | cons slot slots inductionHypothesis =>
    obtain ⟨prefersHere, prefersBehind⟩ := List.forall_mem_cons.mp prefer
    have behind : later ∈ slots := List.singleton_sublist.mp inOrder.tail
    have someInsist : 0 < insistingCount wanted plain slots :=
      List.countP_pos_iff.mpr ⟨later, behind, insisting⟩
    cases plainHere : slot.accepts plain with
    | true =>
      -- All but this one of the wanted tokens are left.
      obtain ⟨copies, counted⟩ := Nat.exists_eq_succ_of_ne_zero someInsist.ne'
      have rest := filledCount_le_easyCount_add slots wanted plain copies spares
      obtain ⟨easyHere, insistingHere⟩ := counts_cons_of_easy slots plainHere
      rw [easyHere, insistingHere, counted, List.replicate_succ, List.cons_append,
        filledCount_cons_of_head (prefersHere plainHere)]
      omega
    | false =>
      have inTail : [earlier, later].Sublist slots := by
        cases inOrder with
        | cons _ inTail => exact inTail
        | cons_cons _ _ => simp [plainHere] at easy
      have rest := inductionHypothesis prefersBehind inTail
      cases wantedHere : slot.accepts wanted with
      | true =>
        obtain ⟨easyHere, insistingHere⟩ :=
          counts_cons_of_insists slots plainHere wantedHere
        rw [easyHere, insistingHere, List.replicate_succ, List.cons_append,
          filledCount_cons_of_head wantedHere]
        omega
      | false =>
        obtain ⟨easyHere, insistingHere⟩ :=
          counts_cons_of_neither slots plainHere wantedHere
        rw [easyHere, insistingHere, filledCount_cons_of_neither wantedHere plainHere]
        exact rest

/-- With the plain tokens in front, every slot that accepts one of the two is filled. -/
theorem filledCount_of_spared (prefer : Prefer slots wanted plain) :
    filledCount slots (List.replicate (easyCount plain slots) plain ++
      List.replicate (insistingCount wanted plain slots) wanted) =
        easyCount plain slots + insistingCount wanted plain slots := by
  induction slots with
  | nil => rfl
  | cons slot slots inductionHypothesis =>
    obtain ⟨prefersHere, prefersBehind⟩ := List.forall_mem_cons.mp prefer
    have rest := inductionHypothesis prefersBehind
    cases plainHere : slot.accepts plain with
    | true =>
      obtain ⟨easyHere, insistingHere⟩ := counts_cons_of_easy slots plainHere
      rw [easyHere, insistingHere, List.replicate_succ, List.cons_append,
        filledCount_cons_of_head plainHere]
      omega
    | false =>
      cases wantedHere : slot.accepts wanted with
      | true =>
        have refused : ∀ token ∈ List.replicate (easyCount plain slots) plain,
            ¬slot.accepts token = true := by
          intro token isPlain
          simp [List.eq_of_mem_replicate isPlain, plainHere]
        obtain ⟨easyHere, insistingHere⟩ :=
          counts_cons_of_insists slots plainHere wantedHere
        rw [easyHere, insistingHere, List.replicate_succ,
          filledCount_cons_of_split refused wantedHere]
        omega
      | false =>
        obtain ⟨easyHere, insistingHere⟩ :=
          counts_cons_of_neither slots plainHere wantedHere
        rw [easyHere, insistingHere, filledCount_cons_of_neither plainHere wantedHere]
        exact rest

end Waste

section Orders

variable {slot : Slot} {slots : List Slot} {text : Option String}

/-- A free word. -/
def word (text : Option String) : Token :=
  { block := .other, text, chain := 0 }

theorem accepts_word_none : slot.accepts (word none) = true ↔ slot.takesAnyWord = true := by
  simp only [accepts, takesAnyWord, word]
  split <;> simp_all [Token.kind, Block.kind]

theorem accepts_word_of_any (any : slot.takesAnyWord = true) : slot.accepts (word text) = true := by
  simp only [takesAnyWord, Bool.and_eq_true, beq_iff_eq] at any
  simp [accepts, word, any, Token.kind, Block.kind]

theorem insists_word_preset (one : slot.takesOneWord = true) :
    slot.insists (word slot.preset) (word none) = true := by
  cases preset : slot.preset with
  | none => simp [takesOneWord, preset] at one
  | some text => simp_all [takesOneWord, insists, accepts, word, Token.kind, Block.kind]

/-- With a slot for any word in front of a slot for one, some order of some tokens fills fewer slots than
another. -/
theorem exists_order_of_not_oneWordsFirst (misplaced : ¬OneWordsFirst slots) :
    ∃ tokens shuffled, tokens.Perm shuffled ∧
      filledCount slots tokens < filledCount slots shuffled := by
  simp only [OneWordsFirst, List.pairwise_iff_forall_sublist, not_forall, not_not] at misplaced
  obtain ⟨earlier, later, inOrder, anyWord, oneWord⟩ := misplaced
  have prefer : Prefer slots (word later.preset) (word none) :=
    fun slot _ easy => accepts_word_of_any (accepts_word_none.mp easy)
  have wasted := filledCount_lt_of_wasted prefer inOrder (accepts_word_none.mpr anyWord)
    (insists_word_preset oneWord)
  have spared := filledCount_of_spared prefer
  exact ⟨_, _, List.perm_append_comm, (wasted _).trans_eq spared.symm⟩

/-- The greedy filling is always one.  It is the largest, and the order of the tokens does not matter to it,
exactly where no slot for any free word stands in front of a slot for one. -/
theorem filledCount_isGreatest_iff (slots : List Slot) :
    (OneWordsFirst slots ↔
      ∀ tokens, IsGreatest {count | Fillable slots tokens count} (filledCount slots tokens)) ∧
    (OneWordsFirst slots ↔
      ∀ tokens shuffled, tokens.Perm shuffled →
        filledCount slots tokens = filledCount slots shuffled) ∧
    ∀ tokens, Fillable slots tokens (filledCount slots tokens) := by
  have yields (first : OneWordsFirst slots) : slots.Pairwise YieldsTo := first.imp yieldsTo_of_words
  refine ⟨⟨fun first => isGreatest_filledCount (yields first), fun greatest => ?_⟩,
    ⟨fun first tokens shuffled => filledCount_perm (yields first), fun unordered => ?_⟩,
    fillable_filledCount slots⟩
  · by_contra misplaced
    obtain ⟨tokens, shuffled, same, fewer⟩ := exists_order_of_not_oneWordsFirst misplaced
    have fillable := (fillable_filledCount slots shuffled).perm same.symm
    exact absurd ((greatest tokens).2 fillable) (Nat.not_le.mpr fewer)
  · by_contra misplaced
    obtain ⟨tokens, shuffled, same, fewer⟩ := exists_order_of_not_oneWordsFirst misplaced
    exact fewer.ne (unordered tokens shuffled same)

example : ∀ template ∈ Catalog.Builtin.templates .ja, OneWordsFirst template.slots := by decide

/-- A slot for any free word, and the word "about". -/
def topicFirst : List Slot :=
  [⟨.other, "topic", true, none⟩, ⟨.other, "about", false, some "about"⟩]

/-- The slot for any word takes "about", and the slot for "about" stays open; with the other word in front,
both are filled. -/
theorem not_isGreatest_of_topicFirst :
    [word (some "about"), word (some "x")].Perm [word (some "x"), word (some "about")] ∧
    filledCount topicFirst [word (some "about"), word (some "x")] = 1 ∧
    filledCount topicFirst [word (some "x"), word (some "about")] = 2 ∧
    ¬IsGreatest {count | Fillable topicFirst [word (some "about"), word (some "x")] count}
      (filledCount topicFirst [word (some "about"), word (some "x")]) := by
  have same : [word (some "about"), word (some "x")].Perm [word (some "x"), word (some "about")] :=
    List.Perm.swap _ _ []
  have wasted : filledCount topicFirst [word (some "about"), word (some "x")] = 1 := by decide
  have both : filledCount topicFirst [word (some "x"), word (some "about")] = 2 := by decide
  refine ⟨same, wasted, both, fun greatest => ?_⟩
  have fillable := (fillable_filledCount topicFirst _).perm same.symm
  have bound := greatest.2 fillable
  rw [wasted, both] at bound
  exact absurd bound (by decide)

end Orders

end PromptBlocks.Slot
