import PromptBlocks.Proofs.Shelf.History

/-!
Contract: saved chains may be held in a table without an order.

Owns:
- tables of chains by id, whose ids are sorted when they are listed;
- what saving and removing leave of a table, wherever in it the entries come to stand;
- the shelf of a table, which is the one that the same history leaves.

Does not own: how a table is laid out.
-/

namespace PromptBlocks

/-- Chains by id, every id once, in an order that means nothing. -/
structure ChainTable where
  entries : List (String × BlockChain)
  distinct : (entries.map Prod.fst).Nodup := by decide

namespace ChainTable

open PromptBlocks.Shelf (Change lookup_eq_some_iff_mem)

def empty : ChainTable :=
  { entries := [] }

def get? (table : ChainTable) (id : String) : Option BlockChain :=
  table.entries.lookup id

/-- The ids as they stand in the table, sorted afterwards. -/
def ids (table : ChainTable) : List String :=
  (table.entries.map Prod.fst).mergeSort fun left right => left ≤ right

def size (table : ChainTable) : Nat :=
  table.entries.length

def isEmpty (table : ChainTable) : Bool :=
  table.entries.isEmpty

/-- A call leaves any table that finds what the call says.  A save under a blank id is refused. -/
def Leaves (before : ChainTable) (call : Change) (after : ChainTable) : Prop :=
  match call with
  | .save id chain =>
    if Text.isAllBlank id then after = before
    else ∀ other, after.get? other = if other = id then some chain else before.get? other
  | .remove id => ∀ other, after.get? other = if other = id then none else before.get? other

/-- The tables that calls may leave, from the empty one. -/
inductive Reaches : List Change → ChainTable → Prop
  | start : Reaches [] empty
  | call {history : List Change} {before after : ChainTable} {call : Change}
      (reached : Reaches history before) (leaves : before.Leaves call after) :
      Reaches (history ++ [call]) after

/-! ### The shelf of a table -/

theorem pairwise_mergeSort_key {Item : Type} (key : Item → String) (items : List Item) :
    (items.mergeSort fun left right => key left ≤ key right).Pairwise
      fun left right => key left ≤ key right := by
  refine (List.pairwise_mergeSort ?_ ?_ items).imp of_decide_eq_true
  · intro first second third firstBefore secondBefore
    simp only [decide_eq_true_eq] at firstBefore secondBefore ⊢
    exact String.le_trans firstBefore secondBefore
  · intro first second
    simpa using String.le_total (key first) (key second)

section Listing

variable (table : ChainTable)

theorem pairwise_sorted :
    (table.entries.mergeSort fun left right => left.1 ≤ right.1).Pairwise
      fun left right => left.1 < right.1 := by
  have atMost := pairwise_mergeSort_key Prod.fst table.entries
  have distinct : ((table.entries.mergeSort fun left right => left.1 ≤ right.1).map Prod.fst).Nodup :=
    ((List.mergeSort_perm _ _).map Prod.fst).nodup_iff.mpr table.distinct
  refine (atMost.and (List.pairwise_map.mp distinct)).imp ?_
  rintro left right ⟨inOrder, different⟩
  exact String.not_le.mp fun behind => different (String.le_antisymm inOrder behind)

/-- The shelf that lists a table by id. -/
def shelf : Shelf :=
  { entries := table.entries.mergeSort fun left right => left.1 ≤ right.1
    sorted := table.pairwise_sorted }

theorem shelf_entries_perm : table.shelf.entries.Perm table.entries :=
  List.mergeSort_perm _ _

theorem get?_shelf (id : String) : table.shelf.get? id = table.get? id := by
  ext chain
  rw [Shelf.get?_eq_some_iff_mem, table.shelf_entries_perm.mem_iff, get?,
    lookup_eq_some_iff_mem table.distinct]

theorem ids_shelf : table.shelf.ids = table.ids := by
  have permuted : table.shelf.ids.Perm table.ids :=
    (table.shelf_entries_perm.map Prod.fst).trans (List.mergeSort_perm _ _).symm
  have sortedShelf : table.shelf.ids.Pairwise fun left right => left ≤ right :=
    List.pairwise_map.mpr (pairwise_mergeSort_key Prod.fst table.entries)
  have sortedIds : table.ids.Pairwise fun left right => left ≤ right :=
    pairwise_mergeSort_key (fun id => id) (table.entries.map Prod.fst)
  exact permuted.eq_of_pairwise (fun _ _ _ _ => String.le_antisymm) sortedShelf sortedIds

theorem size_shelf : table.shelf.size = table.size :=
  table.shelf_entries_perm.length_eq

theorem isEmpty_shelf : table.shelf.isEmpty = table.isEmpty :=
  table.shelf_entries_perm.isEmpty_eq

end Listing

/-! ### Histories -/

section Histories

variable {history : List Change} {before table : ChainTable} {call : Change}

/-- A call leaves a table that is listed as the shelf which the call leaves. -/
theorem get?_of_leaves (leaves : before.Leaves call table) (id : String) :
    table.get? id = (before.shelf.change call).get? id := by
  cases call with
  | save own chain =>
    rw [Leaves] at leaves
    cases blank : Text.isAllBlank own with
    | true =>
      rw [blank, if_pos rfl] at leaves
      rw [Shelf.change_of_isAllBlank blank, get?_shelf, leaves]
    | false =>
      rw [blank] at leaves
      rw [Shelf.get?_change_save blank, get?_shelf]
      exact leaves id
  | remove own =>
    rw [Shelf.change_remove, Shelf.get?_remove, get?_shelf]
    exact leaves id

theorem shelf_of_reaches (reached : Reaches history table) : table.shelf = Shelf.after history := by
  induction reached with
  | start => exact Shelf.eq_of_get? empty.get?_shelf
  | call reached leaves inductionHypothesis =>
    rw [Shelf.after_concat, ← inductionHypothesis]
    refine Shelf.eq_of_get? fun id => ?_
    rw [get?_shelf, get?_of_leaves leaves]

/-- A shelf is a table itself. -/
def ofShelf (shelf : Shelf) : ChainTable :=
  { entries := shelf.entries, distinct := shelf.nodup_ids }

theorem reaches_ofShelf (history : List Change) : Reaches history (ofShelf (Shelf.after history)) := by
  induction history using List.reverseRecOn with
  | nil => exact .start
  | append_singleton history call inductionHypothesis =>
    refine .call inductionHypothesis ?_
    rw [Shelf.after_concat]
    cases call with
    | save id chain =>
      rw [Leaves]
      split
      next blank => rw [Shelf.change_of_isAllBlank blank]
      next notBlank => exact Shelf.get?_change_save (Bool.eq_false_iff.mpr notBlank) chain
    | remove id => exact Shelf.get?_remove _ id

end Histories

/-- Chains in a table without an order are listed, found and counted as on the shelf that the same
history leaves, wherever the table put them; and every history leaves a table. -/
theorem reads_as_shelf (history : List Change) :
    (∃ table, Reaches history table) ∧
      ∀ table, Reaches history table →
        (∀ id, table.get? id = (Shelf.after history).get? id) ∧
          table.ids = (Shelf.after history).ids ∧
          table.size = (Shelf.after history).size ∧
          table.isEmpty = (Shelf.after history).isEmpty := by
  refine ⟨⟨_, reaches_ofShelf history⟩, fun table reached => ?_⟩
  rw [← shelf_of_reaches reached]
  exact ⟨fun id => (table.get?_shelf id).symm, table.ids_shelf.symm, table.size_shelf.symm,
    table.isEmpty_shelf.symm⟩

end ChainTable

end PromptBlocks
