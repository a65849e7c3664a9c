import PromptBlocks.Proofs.Json.Documents
import PromptBlocks.Proofs.Outcomes
import PromptBlocks.Record.Codec

/-!
Contract: the reading of a record as a walk over the members of a value.

Owns:
- the draft that members leave, one member after the other;
- keys that are no field's, whose members leave no trace;
- records that are given back when their members stand in any order.

Does not own: records read from arrays, and documents of texts.
-/

namespace PromptBlocks

open Json (Document Origin Fault Arrangement documentIn membersIn)

namespace RecordCodec

variable {σ α β : Type} {codec : RecordCodec σ α} {origin : Origin}

/-! ### Drafts -/

/-- Take in one member; a key of no field changes nothing. -/
def take (codec : RecordCodec σ α) (origin : Origin) (draft : codec.Draft)
    (member : String × Json) : Except Fault codec.Draft :=
  match codec.accept member.1 draft with
  | some readValue => readValue (documentIn origin member.2)
  | none => .ok draft

/-- The draft that members leave, taken in one after the other. -/
def absorb (codec : RecordCodec σ α) (origin : Origin) (draft : codec.Draft)
    (members : List (String × Json)) : Except Fault codec.Draft :=
  members.foldlM (codec.take origin) draft

theorem absorb_cons (draft : codec.Draft) (member : String × Json)
    (later : List (String × Json)) :
    codec.absorb origin draft (member :: later) =
      (codec.take origin draft member).bind fun grown => codec.absorb origin grown later :=
  rfl

theorem readMembers_membersIn (draft : codec.Draft) (members : List (String × Json)) :
    codec.readMembers draft (membersIn origin members) =
      (codec.absorb origin draft members).bind codec.finish := by
  induction members generalizing draft with
  | nil => rfl
  | cons member later inductionHypothesis =>
    obtain ⟨key, value⟩ := member
    rw [membersIn, readMembers, absorb_cons, take]
    cases codec.accept key draft with
    | none =>
      show (if (documentIn origin value).isWhole then _ else _) = _
      rw [if_pos (Json.isWhole_documentIn origin value), inductionHypothesis]
      rfl
    | some readValue =>
      cases taken : readValue (documentIn origin value) with
      | error fault => simp only [taken]; rfl
      | ok grown =>
        simp only [taken]
        exact inductionHypothesis grown

theorem absorb_append (draft : codec.Draft) (front back : List (String × Json)) :
    codec.absorb origin draft (front ++ back) =
      (codec.absorb origin draft front).bind fun grown => codec.absorb origin grown back :=
  List.foldlM_append

/-! ### Keys of no field -/

/-- The key is no field's. -/
def Skips (codec : RecordCodec σ α) (key : String) : Prop :=
  ∀ draft, codec.accept key draft = none

/-- Every key but these is no field's. -/
def FieldsAmong (codec : RecordCodec σ α) (names : List String) : Prop :=
  ∀ key, key ∉ names → codec.Skips key

theorem fieldsAmong_build (value : α) : (build value : RecordCodec σ α).FieldsAmong [] :=
  fun _ _ _ => rfl

theorem take_of_skips {member : String × Json} (skips : codec.Skips member.1)
    (draft : codec.Draft) : codec.take origin draft member = .ok draft := by
  rw [take, skips draft]

/-- Members under keys of no field can be left out. -/
theorem absorb_filter {isKept : String → Bool}
    (skips : ∀ key, isKept key = false → codec.Skips key) (draft : codec.Draft)
    (members : List (String × Json)) :
    codec.absorb origin draft (members.filter fun member => isKept member.1) =
      codec.absorb origin draft members := by
  induction members generalizing draft with
  | nil => rfl
  | cons member later inductionHypothesis =>
    cases kept : isKept member.1 with
    | true =>
      have staying : (member :: later).filter (fun member => isKept member.1) =
          member :: later.filter fun member => isKept member.1 := List.filter_cons_of_pos kept
      rw [staying, absorb_cons, absorb_cons]
      exact congrArg _ (funext fun grown => inductionHypothesis grown)
    | false =>
      have gone : (member :: later).filter (fun member => isKept member.1) =
          later.filter fun member => isKept member.1 :=
        List.filter_cons_of_neg (Bool.eq_false_iff.mp kept)
      rw [gone, absorb_cons, take_of_skips (skips member.1 kept), inductionHypothesis]
      rfl

theorem readMembers_filter {isKept : String → Bool}
    (skips : ∀ key, isKept key = false → codec.Skips key) (members : List (String × Json)) :
    codec.readMembers codec.start
        (membersIn origin (members.filter fun member => isKept member.1)) =
      codec.readMembers codec.start (membersIn origin members) := by
  rw [readMembers_membersIn, readMembers_membersIn, absorb_filter skips]

/-! ### Fields -/

section Fields

variable {codec : RecordCodec σ (α → β)} {name : String} {read : Document → Except Fault α}
  {default : Option α} {written : σ → Option Json}

/-- A draft of the other fields, with what was found of this one. -/
def fieldDraft (draft : codec.Draft) (found : Option α) :
    (codec.field name read default written).Draft :=
  (draft, found)

theorem accept_field_self (draft : codec.Draft) :
    (codec.field name read default written).accept name (fieldDraft draft none) =
      some fun document => (read document).map fun value => fieldDraft draft (some value) :=
  if_pos (beq_self_eq_true name)

theorem accept_field_again (draft : codec.Draft) (value : α) :
    (codec.field name read default written).accept name (fieldDraft draft (some value)) =
      some fun _ => .error (.duplicateField name) :=
  if_pos (beq_self_eq_true name)

theorem accept_field_of_ne {key : String} (differs : key ≠ name) (draft : codec.Draft)
    (found : Option α) :
    (codec.field name read default written).accept key (fieldDraft draft found) =
      (codec.accept key draft).map fun readOther document =>
        (readOther document).map fun grown => fieldDraft grown found :=
  if_neg (by simpa using differs)

theorem FieldsAmong.field {names : List String} (among : codec.FieldsAmong names) :
    (codec.field name read default written).FieldsAmong (name :: names) := by
  rintro key other ⟨draft, found⟩
  obtain ⟨differs, otherNames⟩ := not_or.mp (mt List.mem_cons.mpr other)
  refine (accept_field_of_ne differs draft found).trans ?_
  rw [among key otherNames draft]
  rfl

theorem take_field_self (draft : codec.Draft) (value : Json) :
    (codec.field name read default written).take origin (fieldDraft draft none) (name, value) =
      (read (documentIn origin value)).map fun value => fieldDraft draft (some value) := by
  rw [take, accept_field_self]

theorem take_field_of_ne {member : String × Json} (differs : member.1 ≠ name)
    (draft : codec.Draft) (found : Option α) :
    (codec.field name read default written).take origin (fieldDraft draft found) member =
      (codec.take origin draft member).map fun grown => fieldDraft grown found := by
  rw [take, take, accept_field_of_ne differs]
  cases codec.accept member.1 draft with
  | none => rfl
  | some readValue => rfl

theorem absorb_field_of_forall_ne {members : List (String × Json)}
    (others : ∀ member ∈ members, member.1 ≠ name) (draft : codec.Draft) (found : Option α) :
    (codec.field name read default written).absorb origin (fieldDraft draft found) members =
      (codec.absorb origin draft members).map fun grown => fieldDraft grown found := by
  induction members generalizing draft with
  | nil => rfl
  | cons member later inductionHypothesis =>
    obtain ⟨differs, otherLater⟩ := List.forall_mem_cons.mp others
    rw [absorb_cons, absorb_cons, take_field_of_ne differs]
    cases codec.take origin draft member with
    | error fault => rfl
    | ok grown => exact inductionHypothesis otherLater grown

/-- The member of a field may stand anywhere among the others. -/
theorem absorb_field_member {front back : List (String × Json)} {value : Json} {found : α}
    {draft final : codec.Draft} (others : ∀ member ∈ front ++ back, member.1 ≠ name)
    (reads : read (documentIn origin value) = .ok found)
    (absorbed : codec.absorb origin draft (front ++ back) = .ok final) :
    (codec.field name read default written).absorb origin (fieldDraft draft none)
        (front ++ (name, value) :: back) = .ok (fieldDraft final (some found)) := by
  obtain ⟨otherFront, otherBack⟩ := List.forall_mem_append.mp others
  rw [absorb_append] at absorbed ⊢
  obtain ⟨grown, behindFront, behindBack⟩ := exists_of_bind_eq_ok absorbed
  rw [absorb_field_of_forall_ne otherFront, behindFront]
  show (codec.field name read default written).absorb origin (fieldDraft grown none)
    ((name, value) :: back) = _
  rw [absorb_cons, take_field_self, reads]
  show (codec.field name read default written).absorb origin (fieldDraft grown (some found))
    back = _
  rw [absorb_field_of_forall_ne otherBack, behindBack]
  rfl

theorem finish_fieldDraft {draft : codec.Draft} {make : α → β} {found : Option α} {value : α}
    (finished : codec.finish draft = .ok make) (given : found.or default = some value) :
    (codec.field name read default written).finish (fieldDraft draft found) =
      .ok (make value) := by
  simp only [field, fieldDraft, finished, given]
  rfl

end Fields

/-! ### Records that are given back -/

/-- What a codec writes of a record, under some of these names, is read as `result`, however the values
are arranged and in whatever order the members stand. -/
structure Restores (codec : RecordCodec σ α) (names : List String) (record : σ) (result : α) :
    Prop where
  distinct : ((codec.members record).map Prod.fst).Nodup
  named : (codec.members record).map Prod.fst ⊆ names
  absorbed : ∀ (arrangement : Arrangement) origin members, origin.isRefused = false →
    members.Perm (arrangement.members (codec.members record)) →
      ∃ draft, codec.absorb origin codec.start members = .ok draft ∧
        codec.finish draft = .ok result

theorem restores_build (record : σ) (value : α) :
    (build value : RecordCodec σ α).Restores [] record value where
  distinct := List.nodup_nil
  named := List.Subset.refl _
  absorbed _ origin members _ moved := by
    obtain rfl := moved.eq_nil
    exact ⟨(), rfl, rfl⟩

theorem Restores.forall_ne {names : List String} {name : String} {record : σ} {result : α}
    (restores : codec.Restores names record result) (fresh : name ∉ names)
    {arrangement : Arrangement} {members : List (String × Json)}
    (moved : members.Perm (arrangement.members (codec.members record))) :
    ∀ member ∈ members, member.1 ≠ name := by
  intro member isMember same
  have isKey : member.1 ∈ (arrangement.members (codec.members record)).map Prod.fst :=
    List.mem_map_of_mem (moved.mem_iff.mp isMember)
  rw [arrangement.keys_members, same] at isKey
  exact fresh (restores.named isKey)

section Restores

variable {codec : RecordCodec σ (α → β)} {name : String} {names : List String} {record : σ}
  {make : α → β} {read : Document → Except Fault α} {default : Option α}
  {written : σ → Option Json} {value : α}

/-- A field that is not written leaves its default. -/
theorem Restores.field_of_eq_none (restores : codec.Restores names record make)
    (fresh : name ∉ names) (isWritten : written record = none)
    (isDefault : default = some value) :
    (codec.field name read default written).Restores (name :: names) record (make value) := by
  have sameMembers : (codec.field name read default written).members record =
      codec.members record := by
    show codec.members record ++ ((written record).map fun value => (name, value)).toList = _
    rw [isWritten]
    exact List.append_nil _
  constructor
  · rw [sameMembers]
    exact restores.distinct
  · rw [sameMembers]
    exact List.subset_cons_of_subset name restores.named
  · rw [sameMembers]
    intro arrangement origin members held moved
    obtain ⟨draft, absorbed, finished⟩ := restores.absorbed arrangement origin members held moved
    refine ⟨fieldDraft draft none, ?_, finish_fieldDraft finished isDefault⟩
    show (codec.field name read default written).absorb origin (fieldDraft codec.start none)
      members = _
    rw [absorb_field_of_forall_ne (restores.forall_ne fresh moved), absorbed]
    rfl

/-- A field that is written is found wherever its member stands. -/
theorem Restores.field_of_eq_some {json : Json} (restores : codec.Restores names record make)
    (fresh : name ∉ names) (isWritten : written record = some json)
    (reads : ∀ (arrangement : Arrangement) origin, origin.isRefused = false →
      read (documentIn origin (arrangement.place json)) = .ok value) :
    (codec.field name read default written).Restores (name :: names) record (make value) := by
  have moreMembers : (codec.field name read default written).members record =
      codec.members record ++ [(name, json)] := by
    show codec.members record ++ ((written record).map fun value => (name, value)).toList = _
    rw [isWritten]
    rfl
  have moreKeys : (((codec.field name read default written).members record).map Prod.fst).Perm
      (name :: (codec.members record).map Prod.fst) := by
    rw [moreMembers, List.map_append]
    exact List.perm_append_comm
  constructor
  · rw [moreKeys.nodup_iff]
    exact List.nodup_cons.mpr ⟨fun member => fresh (restores.named member), restores.distinct⟩
  · exact List.Subset.trans moreKeys.subset (List.cons_subset_cons name restores.named)
  · intro arrangement origin members held moved
    rw [moreMembers, arrangement.members_append] at moved
    -- The field's member splits the others, which keep the order among themselves.
    obtain ⟨front, back, rfl⟩ := List.append_of_mem
      (moved.mem_iff.mpr (List.mem_append_right _ (List.mem_singleton.mpr rfl)))
    have movedOthers : (front ++ back).Perm (arrangement.members (codec.members record)) :=
      (List.perm_middle.symm.trans (moved.trans List.perm_append_comm)).cons_inv
    obtain ⟨draft, absorbed, finished⟩ := restores.absorbed arrangement origin _ held movedOthers
    exact ⟨fieldDraft draft (some value),
      absorb_field_member (restores.forall_ne fresh movedOthers) (reads arrangement origin held)
        absorbed,
      finish_fieldDraft finished rfl⟩

end Restores

variable {names : List String} {record : σ} {result : α}

theorem Restores.readMembers (restores : codec.Restores names record result)
    (arrangement : Arrangement) (held : origin.isRefused = false) {members : List (String × Json)}
    (moved : members.Perm (arrangement.members (codec.members record))) :
    codec.readMembers codec.start (membersIn origin members) = .ok result := by
  obtain ⟨draft, absorbed, finished⟩ := restores.absorbed arrangement origin members held moved
  rw [readMembers_membersIn, absorbed]
  exact finished

/-- A record is given back however its value was arranged. -/
theorem Restores.read (restores : codec.Restores names record result) (arrangement : Arrangement)
    (held : origin.isRefused = false) :
    codec.read (documentIn origin (arrangement.place (codec.write record))) = .ok result := by
  obtain ⟨moved, placed, moves⟩ := arrangement.object (codec.members record)
  rw [write, placed]
  show (if origin.isRefused then _ else codec.readMembers codec.start
    (membersIn origin moved)) = _
  rw [held, if_neg Bool.false_ne_true]
  exact restores.readMembers arrangement held (moves restores.distinct)

end RecordCodec

end PromptBlocks
