import Mathlib.Data.List.Induction
import Mathlib.Data.List.Nodup
import PromptBlocks.Proofs.Host.Atomicity
import PromptBlocks.Proofs.Shelf.Lookup
import PromptBlocks.Proofs.Text.Encoding

/-!
Contract: a shelf is a map, whatever was saved and removed before.

Owns:
- histories of saving and removing, and the shelf that one leaves;
- what is found under an id after a history;
- the ids of a shelf, in the order of their bytes;
- shelves with the same map, which are the same shelf.

Does not own: what expansion makes of a shelf.
-/

namespace PromptBlocks

namespace Host

/-- A chain under a blank id is refused, also when there is none, and nothing is saved. -/
theorem exists_perform_saveChain_eq_error (host : Host) {id : String}
    (blank : Text.isAllBlank id = true) (value : Json) :
    ∃ fault, host.perform (.saveChain id value) = (host, .error (.invalidArguments fault)) := by
  rw [perform_saveChain]
  split
  · exact ⟨_, rfl⟩
  · exact ⟨_, if_pos blank⟩

end Host

namespace Shelf

/-- One call that changes a shelf. -/
inductive Change
  | save (id : String) (chain : BlockChain)
  | remove (id : String)

/-- The id that a call names. -/
def Change.id : Change → String
  | .save id _ | .remove id => id

/-- The shelf that a call leaves, also when it is refused. -/
def change (shelf : Shelf) : Change → Shelf
  | .save id chain => ((register id chain).run.run shelf).2
  | .remove id => ((withdraw id).run shelf).2

/-- The shelf that calls leave, from an empty one. -/
def after (history : List Change) : Shelf :=
  history.foldl change empty

/-- The calls that save chains, each under its id. -/
def savings (chains : List (String × BlockChain)) : List Change :=
  chains.map fun entry => .save entry.1 entry.2

/-- The history saves the chain under the id and is not refused, and no later call names the id. -/
def IsLastSaved (history : List Change) (id : String) (chain : BlockChain) : Prop :=
  ∃ front back, history = front ++ .save id chain :: back ∧ Text.isAllBlank id = false ∧
    ∀ later ∈ back, later.id ≠ id

/-! ### One call -/

section Calls

variable {shelf : Shelf} {id : String}

theorem change_save (shelf : Shelf) (id : String) (chain : BlockChain) :
    shelf.change (.save id chain) = if Text.isAllBlank id then shelf else shelf.insert id chain := by
  rw [change, run_register]
  split <;> rfl

theorem change_remove (shelf : Shelf) (id : String) : shelf.change (.remove id) = shelf.remove id :=
  rfl

/-- A save is refused exactly when its id is blank. -/
theorem register?_eq_change (shelf : Shelf) (id : String) (chain : BlockChain) :
    shelf.register? id chain =
      if Text.isAllBlank id then none else some (shelf.change (.save id chain)) := by
  rw [change_save, register?_eq_insert]
  split <;> rfl

theorem change_of_isAllBlank (blank : Text.isAllBlank id = true) (chain : BlockChain) :
    shelf.change (.save id chain) = shelf := by
  rw [change_save, if_pos blank]

theorem get?_change_save (notBlank : Text.isAllBlank id = false) (chain : BlockChain)
    (other : String) :
    (shelf.change (.save id chain)).get? other =
      if other = id then some chain else shelf.get? other := by
  rw [change_save, notBlank]
  exact get?_insert shelf id chain other

/-- A call that names another id leaves what is found under an id. -/
theorem get?_change_of_ne {call : Change} (apart : call.id ≠ id) :
    (shelf.change call).get? id = shelf.get? id := by
  cases call with
  | save own chain =>
    cases blank : Text.isAllBlank own with
    | true => rw [change_of_isAllBlank blank]
    | false =>
      rw [get?_change_save blank]
      exact if_neg (Ne.symm apart)
  | remove own =>
    rw [change_remove, get?_remove]
    exact if_neg (Ne.symm apart)

end Calls

/-! ### Histories -/

section Histories

variable {history : List Change} {id : String} {chain : BlockChain}

theorem after_concat (history : List Change) (call : Change) :
    after (history ++ [call]) = (after history).change call := by
  simp [after]

theorem isLastSaved_concat (call : Change) :
    IsLastSaved (history ++ [call]) id chain ↔
      call = .save id chain ∧ Text.isAllBlank id = false ∨
        call.id ≠ id ∧ IsLastSaved history id chain := by
  constructor
  · rintro ⟨front, back, split, notBlank, untouched⟩
    rcases List.eq_nil_or_concat' back with rfl | ⟨others, last, rfl⟩
    · have same := (List.append_inj' split rfl).2
      exact .inl ⟨List.singleton_inj.mp same, notBlank⟩
    · rw [← List.cons_append, ← List.append_assoc] at split
      obtain ⟨rfl, same⟩ := List.append_inj' split rfl
      obtain rfl := List.singleton_inj.mp same
      simp only [List.mem_append, List.mem_singleton] at untouched
      exact .inr ⟨untouched call (.inr rfl), front, others, rfl, notBlank,
        fun later member => untouched later (.inl member)⟩
  · rintro (⟨rfl, notBlank⟩ | ⟨apart, front, back, rfl, notBlank, untouched⟩)
    · exact ⟨history, [], rfl, notBlank, by simp⟩
    · refine ⟨front, back ++ [call], by simp, notBlank, ?_⟩
      simpa [or_imp, forall_and, apart] using untouched

/-- What is found under an id is what was saved there last, if it was not removed since. -/
theorem get?_after_eq_some_iff :
    (after history).get? id = some chain ↔ IsLastSaved history id chain := by
  induction history using List.reverseRecOn with
  | nil => simp [after, empty, get?, IsLastSaved]
  | append_singleton history call inductionHypothesis =>
    rw [after_concat, isLastSaved_concat, ← inductionHypothesis]
    by_cases apart : call.id = id
    · subst apart
      cases call with
      | save id saved =>
        cases blank : Text.isAllBlank id with
        | true =>
          have unsaved : (after history).get? id ≠ some chain := by
            intro found
            obtain ⟨-, -, -, notBlank, -⟩ := inductionHypothesis.mp found
            exact Bool.false_ne_true (notBlank.symm.trans blank)
          simpa [change_of_isAllBlank blank, Change.id, blank] using unsaved
        | false => simp [get?_change_save blank, Change.id, blank]
      | remove id => simp [change_remove, get?_remove, Change.id]
    · have unsaved : call ≠ .save id chain := by
        rintro rfl
        exact apart rfl
      simp [get?_change_of_ne apart, unsaved, apart]

/-- Saved once each, chains are found whatever the order of saving. -/
theorem get?_after_savings {chains : List (String × BlockChain)}
    (distinct : (chains.map Prod.fst).Nodup) :
    (after (savings chains)).get? id = some chain ↔
      (id, chain) ∈ chains ∧ Text.isAllBlank id = false := by
  rw [get?_after_eq_some_iff]
  constructor
  · rintro ⟨front, back, split, notBlank, -⟩
    have member : Change.save id chain ∈ savings chains := by simp [split]
    exact ⟨by simpa [savings] using member, notBlank⟩
  · rintro ⟨isSaved, notBlank⟩
    obtain ⟨front, back, rfl⟩ := List.append_of_mem isSaved
    have fresh : id ∉ back.map Prod.fst := by
      rw [List.map_append, List.nodup_append] at distinct
      exact (List.nodup_cons.mp distinct.2.1).1
    refine ⟨savings front, savings back, by simp [savings], notBlank, ?_⟩
    rintro later inBack rfl
    obtain ⟨entry, member, rfl⟩ := List.mem_map.mp inBack
    exact fresh (List.mem_map_of_mem member)

end Histories

/-! ### Ids -/

section Ids

variable {shelf : Shelf} {id : String} {chain : BlockChain} {entries : List (String × BlockChain)}

/-- Where every id stands once, what is found under it is what stands there. -/
theorem lookup_eq_some_iff_mem (distinct : (entries.map Prod.fst).Nodup) :
    entries.lookup id = some chain ↔ (id, chain) ∈ entries := by
  induction entries with
  | nil => simp
  | cons first later inductionHypothesis =>
    obtain ⟨key, saved⟩ := first
    obtain ⟨fresh, laterDistinct⟩ := List.nodup_cons.mp distinct
    rw [lookup_cons_ite, List.mem_cons, Prod.mk.injEq]
    by_cases same : id = key
    · have notLater : (id, chain) ∉ later := fun member =>
        fresh (List.mem_map.mpr ⟨(id, chain), member, same⟩)
      simp [same, same ▸ notLater, eq_comm]
    · simp [same, inductionHypothesis laterDistinct]

theorem nodup_ids (shelf : Shelf) : shelf.ids.Nodup := by
  refine List.pairwise_map.mpr (shelf.sorted.imp ?_)
  rintro left right before same
  exact String.lt_irrefl left.1 (same ▸ before)

theorem get?_eq_some_iff_mem : shelf.get? id = some chain ↔ (id, chain) ∈ shelf.entries :=
  lookup_eq_some_iff_mem shelf.nodup_ids

theorem mem_ids_iff : id ∈ shelf.ids ↔ (shelf.get? id).isSome = true := by
  simp [ids, Option.isSome_iff_exists, get?_eq_some_iff_mem]

/-- The ids are listed in the order of their bytes. -/
theorem pairwise_ids (shelf : Shelf) :
    shelf.ids.Pairwise fun left right => left.toUTF8.data.toList < right.toUTF8.data.toList :=
  List.pairwise_map.mpr (shelf.sorted.imp Text.bytes_lt_of_lt)

theorem length_ids (shelf : Shelf) : shelf.ids.length = shelf.size :=
  List.length_map _

theorem isEmpty_iff : shelf.isEmpty = true ↔ shelf.size = 0 := by
  simp [isEmpty, size]

/-- Two shelves that find the same under every id are the same. -/
theorem eq_of_get? {left right : Shelf} (same : ∀ id, left.get? id = right.get? id) :
    left = right := by
  have permuted : left.entries.Perm right.entries := by
    refine (List.perm_ext_iff_of_nodup (List.Nodup.of_map Prod.fst left.nodup_ids)
      (List.Nodup.of_map Prod.fst right.nodup_ids)).mpr fun (id, chain) => ?_
    rw [← get?_eq_some_iff_mem, same, get?_eq_some_iff_mem]
  have equal : left.entries = right.entries :=
    permuted.eq_of_pairwise
      (fun _ _ _ _ before behind => absurd behind (String.lt_asymm before)) left.sorted right.sorted
  cases left
  cases right
  simpa using equal

end Ids

/-- A shelf is a map, under any history.  Under an id it holds the chain that was saved there last and
not removed since.  A removal tells whether there was one; a blank id is refused, and the shelf stays as
it was.  The ids come in the strict order of their bytes, each id that is present and no other, and the
size counts them.  Histories that leave the same map, such as those that save under distinct ids in
different orders, leave the same ids, the same listing and the same expansion of any heads. -/
theorem history_leaves_map (history : List Change) :
    (∀ id chain, (after history).get? id = some chain ↔ IsLastSaved history id chain) ∧
      (∀ (host : Host) id, host.shelf = after history →
        host.perform (.removeChain id) =
          ({ host with shelf := after (history ++ [.remove id]) },
            .ok (.bool ((after history).get? id).isSome))) ∧
      (∀ id chain, (after history).register? id chain =
        if Text.isAllBlank id then none else some (after (history ++ [.save id chain]))) ∧
      (∀ id, Text.isAllBlank id = true →
        (∀ chain, after (history ++ [.save id chain]) = after history) ∧
          ∀ (host : Host) value, ∃ fault,
            host.perform (.saveChain id value) = (host, .error (.invalidArguments fault))) ∧
      (after history).ids.Pairwise
        (fun left right => left.toUTF8.data.toList < right.toUTF8.data.toList) ∧
      (∀ id, id ∈ (after history).ids ↔ ((after history).get? id).isSome = true) ∧
      (after history).ids.length = (after history).size ∧
      ((after history).isEmpty = true ↔ (after history).size = 0) ∧
      (∀ other : List Change, (∀ id, (after history).get? id = (after other).get? id) →
        (after history).ids = (after other).ids ∧
          (∀ left right : Host, left.shelf = after history → right.shelf = after other →
            left.answer .listChains = right.answer .listChains) ∧
          ∀ heads, (after history).expand heads = (after other).expand heads) ∧
      ∀ chains others : List (String × BlockChain), (chains.map Prod.fst).Nodup →
        chains.Perm others → ∀ id, (after (savings chains)).get? id = (after (savings others)).get? id := by
  refine ⟨fun _ _ => get?_after_eq_some_iff, ?_, ?_, ?_, pairwise_ids _, fun _ => mem_ids_iff,
    length_ids _, isEmpty_iff, ?_, ?_⟩
  · intro host id left
    rw [after_concat, ← left]
    rfl
  · intro id chain
    rw [after_concat]
    exact register?_eq_change (after history) id chain
  · intro id blank
    refine ⟨fun chain => ?_, fun host => host.exists_perform_saveChain_eq_error blank⟩
    rw [after_concat, change_of_isAllBlank blank]
  · intro other same
    rw [eq_of_get? same]
    refine ⟨rfl, fun left right isLeft isRight => ?_, fun _ => rfl⟩
    rw [Host.answer, Host.answer, isLeft, isRight]
  · intro chains others distinct permuted id
    have distinctToo : (others.map Prod.fst).Nodup := (permuted.map Prod.fst).nodup_iff.mp distinct
    ext chain
    simp only [get?_after_savings distinct, get?_after_savings distinctToo, permuted.mem_iff]

/-- Chains that were saved in two orders are one shelf, which lists them by id, gives up each of them
once, and takes none under a blank id. -/
theorem history_leaves_map_of_swapped :
    let noun : BlockChain := ⟨⟨"promps_noun", some "A"⟩, []⟩
    let verb : BlockChain := ⟨⟨"promps_verb_create", none⟩, []⟩
    let history := savings [("b", noun), ("a", verb)]
    let swapped := savings [("a", verb), ("b", noun)]
    let host : Host := ⟨Settings.standard, .builtin, after history⟩
    (after history).ids = ["a", "b"] ∧
      host.perform (.removeChain "a") =
        ({ host with shelf := after (history ++ [.remove "a"]) }, .ok (.bool true)) ∧
      after (history ++ [.save " " noun]) = after history ∧
      (after history).expand [noun] = (after swapped).expand [noun] := by
  intro noun verb history swapped host
  obtain ⟨-, removed, -, refused, -, -, -, -, same, orders⟩ := history_leaves_map history
  have swap := orders [("b", noun), ("a", verb)] _ (by decide) (List.Perm.swap _ _ [])
  obtain ⟨-, -, expanded⟩ := same swapped swap
  have present : ((after history).get? "a").isSome = true := by decide
  refine ⟨by decide, ?_, (refused " " (by decide)).1 noun, expanded [noun]⟩
  rw [removed host "a" rfl, present]

end Shelf

end PromptBlocks
