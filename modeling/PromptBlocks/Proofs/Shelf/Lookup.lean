import PromptBlocks.Proofs.Vocabulary.Ids
import PromptBlocks.Shelf.Basic

/-!
Contract: a shelf read by id.

Owns:
- what is found after a chain is saved or removed;
- the block types that are references, none of which is in the vocabulary;
- blocks that stand for themselves on a shelf.

Does not own: what a reference is expanded to.
-/

namespace PromptBlocks.Shelf

/-! ### Saved chains -/

theorem lookup_cons_ite (key other : String) (saved : BlockChain)
    (later : List (String × BlockChain)) :
    ((key, saved) :: later).lookup other =
      if other = key then some saved else later.lookup other := by
  by_cases same : other = key
  · rw [if_pos same, same, List.lookup_cons_self]
  · have apart : (other == key) = false := beq_eq_false_iff_ne.mpr same
    rw [if_neg same, List.lookup_cons, apart]

theorem lookup_insertEntry (id other : String) (chain : BlockChain)
    (entries : List (String × BlockChain)) :
    (insertEntry id chain entries).lookup other =
      if other = id then some chain else entries.lookup other := by
  induction entries with
  | nil => exact lookup_cons_ite id other chain []
  | cons first later inductionHypothesis =>
    obtain ⟨key, saved⟩ := first
    rw [insertEntry]
    split
    · exact lookup_cons_ite id other chain _
    · split
      · next replaced =>
        subst replaced
        rw [lookup_cons_ite, lookup_cons_ite]
        split <;> rfl
      · next different =>
        rw [lookup_cons_ite, lookup_cons_ite, inductionHypothesis]
        -- The saved key is another one, so the two tests may change places.
        by_cases here : other = key
        · have apart : other ≠ id := fun same => different (same.symm.trans here)
          rw [if_pos here, if_neg apart, if_pos here]
        · rw [if_neg here, if_neg here]

theorem lookup_filter_ne (id other : String) (entries : List (String × BlockChain)) :
    (entries.filter fun entry => entry.1 != id).lookup other =
      if other = id then none else entries.lookup other := by
  induction entries with
  | nil => exact (ite_self none).symm
  | cons first later inductionHypothesis =>
    obtain ⟨key, saved⟩ := first
    rw [List.filter_cons, lookup_cons_ite]
    split
    · next kept =>
      have apart : key ≠ id := bne_iff_ne.mp kept
      rw [lookup_cons_ite, inductionHypothesis]
      by_cases here : other = key
      · rw [if_pos here, if_pos here, if_neg (here ▸ apart)]
      · rw [if_neg here, if_neg here]
    · next dropped =>
      have same : key = id := by simpa using dropped
      rw [inductionHypothesis, same]
      split <;> rfl

section Registered

variable {shelf registered : Shelf} {id : String} {chain : BlockChain}

theorem get?_insert (shelf : Shelf) (id : String) (chain : BlockChain) (other : String) :
    (shelf.insert id chain).get? other = if other = id then some chain else shelf.get? other :=
  lookup_insertEntry id other chain shelf.entries

theorem get?_register (saved : shelf.register? id chain = some registered) (other : String) :
    registered.get? other = if other = id then some chain else shelf.get? other := by
  rw [register?_eq_insert] at saved
  split at saved
  · cases saved
  · obtain rfl := Option.some.inj saved
    exact get?_insert shelf id chain other

theorem get?_remove (shelf : Shelf) (id other : String) :
    (shelf.remove id).get? other = if other = id then none else shelf.get? other :=
  lookup_filter_ne id other shelf.entries

theorem get?_of_isEmpty (empty : shelf.isEmpty = true) (id : String) : shelf.get? id = none := by
  rw [get?, List.isEmpty_iff.mp empty]
  rfl

end Registered

/-! ### References -/

section References

variable {shelf : Shelf} {raw : ChainBlock} {blockType id : String} {chain : BlockChain}

theorem referredId?_eq_some_iff : referredId? blockType = some id ↔ blockType = referenceTo id :=
  Text.behind?_eq_some_iff

theorem referred?_eq_some_iff :
    shelf.referred? raw = some (id, chain) ↔
      raw.blockType = referenceTo id ∧ shelf.get? id = some chain := by
  rw [← referredId?_eq_some_iff]
  simp only [referred?, Option.bind_eq_bind, Option.bind_eq_some_iff, Option.pure_def,
    Option.some.injEq, Prod.mk.injEq]
  constructor
  · rintro ⟨_, reference, _, found, rfl, rfl⟩
    exact ⟨reference, found⟩
  · rintro ⟨reference, found⟩
    exact ⟨id, reference, chain, found, rfl, rfl⟩

/-- No block of the vocabulary is a reference, whatever the id. -/
theorem ofId?_referenceTo (id : String) : Block.ofId? (referenceTo id) = none := by
  have unmarked : ∀ block ∈ Block.all, referredId? block.id = none := by decide
  refine Block.ofId?_eq_none_iff.mpr fun block same => ?_
  have marked := referredId?_eq_some_iff.mpr same
  rw [unmarked block (Block.mem_all block)] at marked
  cases marked

theorem token?_referenceTo (chain : Nat) (id : String) (text : Option String) :
    ChainBlock.token? chain { blockType := referenceTo id, text } = none := by
  rw [ChainBlock.token?, ofId?_referenceTo]
  rfl

/-! ### Blocks that stand for themselves -/

/-- The block refers to no chain on the shelf. -/
def Settled (shelf : Shelf) (raw : ChainBlock) : Prop :=
  ∀ id, shelf.contains id = true → raw.blockType ≠ referenceTo id

theorem settled_iff : shelf.Settled raw ↔ shelf.referred? raw = none := by
  constructor
  · intro settled
    refine Option.eq_none_iff_forall_ne_some.mpr fun (id, chain) known => ?_
    obtain ⟨refers, found⟩ := referred?_eq_some_iff.mp known
    exact settled id (Option.isSome_of_eq_some found) refers
  · intro unknown id present refers
    obtain ⟨chain, found⟩ := Option.isSome_iff_exists.mp present
    have known := referred?_eq_some_iff.mpr ⟨refers, found⟩
    rw [unknown] at known
    cases known

theorem settled_of_isEmpty (empty : shelf.isEmpty = true) (raw : ChainBlock) :
    shelf.Settled raw := by
  intro id present
  rw [contains, get?_of_isEmpty empty] at present
  cases present

end References

end PromptBlocks.Shelf
