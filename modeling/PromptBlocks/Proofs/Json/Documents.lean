import PromptBlocks.Json.Document
import Mathlib.Data.List.Perm.Basic
import Mathlib.Data.List.Nodup

/-!
Contract: documents that values make up, and values with their members in order.

Owns:
- the document of a value with containers of one origin, which holds that value again;
- setting such a document aside, which changes the origin and nothing else;
- ordering, which only moves members when their keys are distinct, and the look-up behind it;
- the arrangements of a value, as it is written and in order.

Does not own: documents of texts, which may break off.
-/

namespace PromptBlocks.Json

/-! ### Documents of values -/

mutual

/-- The document that a value makes up, its containers of one origin. -/
def documentIn (origin : Origin) : Json → Document
  | .null => .null
  | .bool value => .bool value
  | .number value => .number (some value)
  | .string value => .string (some value)
  | .array items => .array origin (itemsIn origin items)
  | .object members => .object origin (membersIn origin members)

def itemsIn (origin : Origin) : List Json → Items
  | [] => .closed
  | item :: later => .item (documentIn origin item) (itemsIn origin later)

def membersIn (origin : Origin) : List (String × Json) → Members
  | [] => .closed
  | (key, value) :: later => .member (some key) (documentIn origin value) (membersIn origin later)

end

mutual

theorem toDocument_eq (json : Json) : json.toDocument = documentIn .value json :=
  match json with
  | .null => rfl
  | .bool _ => rfl
  | .number _ => rfl
  | .string _ => rfl
  | .array items => congrArg (Document.array .value) (itemsToDocument_eq items)
  | .object members => congrArg (Document.object .value) (membersToDocument_eq members)

theorem itemsToDocument_eq (items : List Json) : itemsToDocument items = itemsIn .value items :=
  match items with
  | [] => rfl
  | item :: later => congrArg₂ Items.item (toDocument_eq item) (itemsToDocument_eq later)

theorem membersToDocument_eq (members : List (String × Json)) :
    membersToDocument members = membersIn .value members :=
  match members with
  | [] => rfl
  | (key, value) :: later =>
    congrArg₂ (Members.member (some key)) (toDocument_eq value) (membersToDocument_eq later)

end

mutual

theorem isWhole_documentIn (origin : Origin) (json : Json) :
    (documentIn origin json).isWhole = true :=
  match json with
  | .null => rfl
  | .bool _ => rfl
  | .number _ => rfl
  | .string _ => rfl
  | .array items => isWhole_itemsIn origin items
  | .object members => isWhole_membersIn origin members

theorem isWhole_itemsIn (origin : Origin) (items : List Json) :
    (itemsIn origin items).isWhole = true :=
  match items with
  | [] => rfl
  | item :: later =>
    Bool.and_eq_true_iff.mpr ⟨isWhole_documentIn origin item, isWhole_itemsIn origin later⟩

theorem isWhole_membersIn (origin : Origin) (members : List (String × Json)) :
    (membersIn origin members).isWhole = true :=
  match members with
  | [] => rfl
  | (_, value) :: later =>
    Bool.and_eq_true_iff.mpr ⟨isWhole_documentIn origin value, isWhole_membersIn origin later⟩

end

section Held

variable {origin : Origin}

mutual

theorem setAside_documentIn (held : origin.isRefused = false) (json : Json) :
    (documentIn origin json).setAside = .ok (documentIn .setAside json) := by
  cases json with
  | array items =>
    simp only [documentIn, Document.setAside, held, setAside_itemsIn held items]
    rfl
  | object members =>
    simp only [documentIn, Document.setAside, held, setAside_membersIn held members]
    rfl
  | _ => rfl

theorem setAside_itemsIn (held : origin.isRefused = false) (items : List Json) :
    (itemsIn origin items).setAside = .ok (itemsIn .setAside items) := by
  cases items with
  | nil => rfl
  | cons item later =>
    simp only [itemsIn, Items.setAside, setAside_documentIn held item, setAside_itemsIn held later]
    rfl

theorem setAside_membersIn (held : origin.isRefused = false) (members : List (String × Json)) :
    (membersIn origin members).setAside = .ok (membersIn .setAside members) := by
  cases members with
  | nil => rfl
  | cons member later =>
    simp only [membersIn, Members.setAside, setAside_documentIn held member.2,
      setAside_membersIn held later]
    rfl

end

mutual

/-- The document of a value holds that value, with the members of its objects in order. -/
theorem value_documentIn (held : origin.isRefused = false) (json : Json) :
    (documentIn origin json).value = .ok json.ordered := by
  cases json with
  | array items =>
    simp only [documentIn, Document.value, held, values_itemsIn held items]
    rfl
  | object members =>
    simp only [documentIn, Document.value, held, values_membersIn held members]
    rfl
  | _ => rfl

theorem values_itemsIn (held : origin.isRefused = false) (items : List Json) :
    (itemsIn origin items).values = .ok (orderedItems items) := by
  cases items with
  | nil => rfl
  | cons item later =>
    simp only [itemsIn, Items.values, value_documentIn held item, values_itemsIn held later]
    rfl

theorem values_membersIn (held : origin.isRefused = false) (members : List (String × Json)) :
    (membersIn origin members).values = .ok (orderedMembers members) := by
  cases members with
  | nil => rfl
  | cons member later =>
    simp only [membersIn, Members.values, value_documentIn held member.2,
      values_membersIn held later]
    rfl

end

end Held

/-! ### Members in order -/

theorem orderedItems_eq (items : List Json) : orderedItems items = items.map ordered := by
  induction items with
  | nil => rfl
  | cons item later inductionHypothesis => rw [orderedItems, inductionHypothesis, List.map_cons]

theorem orderedMembers_eq (members : List (String × Json)) :
    orderedMembers members = members.map fun (key, value) => (key, value.ordered) := by
  induction members with
  | nil => rfl
  | cons member later inductionHypothesis =>
    rw [orderedMembers, inductionHypothesis, List.map_cons]

/-- A member with a new key is put among the others, which all stay. -/
theorem insertMember_perm {key : String} (value : Json) {members : List (String × Json)}
    (fresh : key ∉ members.map Prod.fst) :
    (insertMember key value members).Perm ((key, value) :: members) := by
  induction members with
  | nil => exact .refl _
  | cons member later inductionHypothesis =>
    obtain ⟨other, held⟩ := member
    obtain ⟨differs, freshLater⟩ := not_or.mp (mt List.mem_cons.mpr fresh)
    rw [insertMember]
    by_cases before : key < other
    · rw [if_pos before]
    · rw [if_neg before, if_neg differs]
      exact ((inductionHypothesis freshLater).cons _).trans (.swap _ _ _)

theorem foldl_insertMember_perm :
    ∀ (left ordered : List (String × Json)), ((ordered ++ left).map Prod.fst).Nodup →
      (left.foldl (fun ordered (key, value) => insertMember key value ordered) ordered).Perm
        (ordered ++ left)
  | [], ordered, _ => by
    rw [List.append_nil]
    exact .refl _
  | (key, value) :: left, ordered, distinct => by
    have moved : (ordered ++ (key, value) :: left).Perm ((key, value) :: (ordered ++ left)) :=
      List.perm_middle
    have distinctMoved := (moved.map Prod.fst).nodup_iff.mp distinct
    have fresh : key ∉ ordered.map Prod.fst := fun member =>
      (List.nodup_cons.mp distinctMoved).1 (by
        rw [List.map_append]
        exact List.mem_append_left _ member)
    have inserted :
        (insertMember key value ordered ++ left).Perm ((key, value) :: (ordered ++ left)) :=
      (insertMember_perm value fresh).append_right left
    have distinctInserted := (inserted.map Prod.fst).nodup_iff.mpr distinctMoved
    exact (foldl_insertMember_perm left _ distinctInserted).trans (inserted.trans moved.symm)

/-- Members with distinct keys are moved, and none is dropped. -/
theorem orderMembers_perm {members : List (String × Json)}
    (distinct : (members.map Prod.fst).Nodup) : (orderMembers members).Perm members :=
  foldl_insertMember_perm members [] distinct

/-! ### Arrangements -/

/-- The value holds no others. -/
def isPlain : Json → Bool
  | .array _ => false
  | .object _ => false
  | _ => true

/-- A way to set a value down: plain values stay as they are, items stay in order, and members with
distinct keys may change places. -/
structure Arrangement where
  place : Json → Json
  plain : ∀ value, value.isPlain = true → place value = value
  array : ∀ items, place (.array items) = .array (items.map place)
  object : ∀ members, ∃ moved, place (.object members) = .object moved ∧
    ((members.map Prod.fst).Nodup →
      moved.Perm (members.map fun member => (member.1, place member.2)))

namespace Arrangement

/-- Values as they are written. -/
def written : Arrangement where
  place value := value
  plain _ _ := rfl
  array items := by rw [List.map_id']
  object members := ⟨members, rfl, fun _ => by rw [List.map_id']⟩

/-- Values with the members of every object in increasing order of keys. -/
def ordered : Arrangement where
  place := Json.ordered
  plain value isPlain := by
    cases value with
    | array items => cases isPlain
    | object members => cases isPlain
    | _ => rfl
  array items := by rw [Json.ordered, orderedItems_eq]
  object members := by
    refine ⟨_, by rw [Json.ordered, orderedMembers_eq], fun distinct => orderMembers_perm ?_⟩
    rw [List.map_map]
    exact distinct

variable (arrangement : Arrangement)

/-- Members with their values set down. -/
def members (members : List (String × Json)) : List (String × Json) :=
  members.map fun member => (member.1, arrangement.place member.2)

theorem keys_members (members : List (String × Json)) :
    (arrangement.members members).map Prod.fst = members.map Prod.fst := by
  rw [Arrangement.members, List.map_map]
  rfl

theorem members_append (front back : List (String × Json)) :
    arrangement.members (front ++ back) = arrangement.members front ++ arrangement.members back :=
  List.map_append

theorem place_ne_null {value : Json} (notNull : value ≠ .null) : arrangement.place value ≠ .null := by
  cases value with
  | array items =>
    rw [arrangement.array]
    exact Json.noConfusion
  | object members =>
    obtain ⟨moved, placed, -⟩ := arrangement.object members
    rw [placed]
    exact Json.noConfusion
  | _ =>
    rw [arrangement.plain _ rfl]
    exact notNull

end Arrangement

/-! ### Look-up -/

theorem find?_nil (key : String) : find? key [] = none :=
  rfl

theorem find?_cons (key other : String) (value : Json) (later : List (String × Json)) :
    find? key ((other, value) :: later) = if key = other then some value else find? key later := by
  by_cases same : key = other
  · simp [find?, same]
  · have apart : (key == other) = false := beq_eq_false_iff_ne.mpr same
    simp [find?, List.lookup_cons, same, apart]

theorem find?_append (key : String) (front back : List (String × Json)) :
    find? key (front ++ back) = (find? key front).or (find? key back) :=
  List.lookup_append

theorem find?_insertMember (key other : String) (value : Json) (members : List (String × Json)) :
    find? key (insertMember other value members) =
      if key = other then some value else find? key members := by
  induction members with
  | nil => exact find?_cons key other value []
  | cons member later inductionHypothesis =>
    obtain ⟨first, held⟩ := member
    rw [insertMember]
    split_ifs with before same
    all_goals grind [find?_cons]

/-- Among members in order a key has the value of its last member. -/
theorem find?_orderMembers (key : String) (members : List (String × Json)) :
    find? key (orderMembers members) = find? key members.reverse := by
  have step (left : List (String × Json)) (ordered : List (String × Json)) :
      find? key (left.foldl (fun ordered (key, value) => insertMember key value ordered) ordered) =
        (find? key left.reverse).or (find? key ordered) := by
    induction left generalizing ordered with
    | nil => rfl
    | cons member later inductionHypothesis =>
      rw [List.foldl_cons, inductionHypothesis, List.reverse_cons, find?_append, Option.or_assoc,
        find?_insertMember, find?_cons]
      split <;> rfl
  rw [orderMembers, step]
  exact Option.or_none

end PromptBlocks.Json
