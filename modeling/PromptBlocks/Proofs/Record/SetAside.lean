import PromptBlocks.Proofs.Record.Members

/-!
Contract: values that are set aside are read as before.

Owns:
- readers that read a value alike before and after it is set aside;
- free values, texts, names and optional values;
- the fields of a record and its members.

Does not own: values that cannot be read where they stand but can once they are set aside, such as a
name written as an object that holds an empty object.
-/

namespace PromptBlocks

open Json (Document Fault documentIn membersIn)

variable {σ α β : Type}

/-- What a value is read as, it is read as after it was set aside. -/
def Json.Keeps (value : Json) (read : Document → Except Fault α) : Prop :=
  ∀ result, read (documentIn .value value) = .ok result →
    read (documentIn .setAside value) = .ok result

namespace Wire

theorem keeps_free (value : Json) : value.Keeps (read : Document → Except Fault Json) := by
  intro result reads
  have ordered : read (documentIn .value value) = .ok value.ordered :=
    Json.value_documentIn rfl value
  rw [ordered] at reads
  exact (Json.value_documentIn rfl value).trans reads

theorem keeps_text (value : Json) : value.Keeps (read : Document → Except Fault String) := by
  intro result reads
  cases value with
  | array items => cases reads
  | object members => cases reads
  | _ => exact reads

/-- A name with null behind it, held in an object of its own, is set aside with it. -/
theorem readKeyed_setAside [Enumerated α] {members : List (String × Json)} {result : α}
    (reads : readKeyed .value (membersIn .value members) = .ok result) :
    readKeyed .setAside (membersIn .setAside members) = .ok result := by
  match members with
  | [] => cases reads
  | _ :: _ :: _ => cases reads
  | [(name, value)] =>
    obtain ⟨named, known, behind⟩ := exists_of_bind_eq_ok reads
    cases value with
    | null =>
      show (ofName name).bind _ = _
      rw [known]
      exact behind
    | _ => cases behind

theorem keeps_named [Enumerated α] (value : Json) :
    value.Keeps (readNamed : Document → Except Fault α) := by
  intro result reads
  cases value with
  | object members => exact readKeyed_setAside reads
  | _ => exact reads

theorem keeps_optional [Wire α] {value : Json}
    (keeps : value.Keeps (read : Document → Except Fault α)) :
    value.Keeps (read : Document → Except Fault (Option α)) := by
  intro result reads
  cases value with
  | null => exact reads
  | _ =>
    obtain ⟨given, readGiven, rfl⟩ := exists_of_map_eq_ok reads
    exact congrArg (Except.map some) (keeps given readGiven)

theorem keeps_null_optional [Wire α] :
    Json.null.Keeps (read : Document → Except Fault (Option α)) :=
  fun _ reads => reads

end Wire

namespace RecordCodec

variable {codec : RecordCodec σ α}

/-- A member leaves the same draft after it was set aside. -/
def Keeps (codec : RecordCodec σ α) (member : String × Json) : Prop :=
  ∀ draft grown, codec.take .value draft member = .ok grown →
    codec.take .setAside draft member = .ok grown

theorem keeps_build (value : α) (member : String × Json) :
    (build value : RecordCodec σ α).Keeps member :=
  fun _ _ taken => taken

theorem Keeps.field {codec : RecordCodec σ (α → β)} {name key : String} {value : Json}
    {read : Document → Except Fault α} {default : Option α} {written : σ → Option Json}
    (keeps : codec.Keeps (key, value)) (kept : key = name → value.Keeps read) :
    (codec.field name read default written).Keeps (key, value) := by
  rintro ⟨draft, found⟩ grown taken
  by_cases own : key = name
  · subst own
    cases found with
    | some earlier =>
      have again : (codec.field key read default written).take .value
          (fieldDraft draft (some earlier)) (key, value) = .error (.duplicateField key) := by
        rw [take, accept_field_again]
      cases again.symm.trans taken
    | none =>
      have here := (take_field_self draft value).symm.trans taken
      obtain ⟨result, reads, rfl⟩ := exists_of_map_eq_ok here
      refine (take_field_self draft value).trans ?_
      rw [kept rfl result reads]
      rfl
  · have differs : (key, value).1 ≠ name := own
    have there := (take_field_of_ne differs draft found).symm.trans taken
    obtain ⟨others, takenOthers, rfl⟩ := exists_of_map_eq_ok there
    refine (take_field_of_ne differs draft found).trans ?_
    rw [keeps draft others takenOthers]
    rfl

theorem absorb_setAside {members : List (String × Json)}
    (keeps : ∀ member ∈ members, codec.Keeps member) {draft final : codec.Draft}
    (absorbed : codec.absorb .value draft members = .ok final) :
    codec.absorb .setAside draft members = .ok final := by
  induction members generalizing draft with
  | nil => exact absorbed
  | cons member later inductionHypothesis =>
    obtain ⟨first, others⟩ := List.forall_mem_cons.mp keeps
    rw [absorb_cons] at absorbed ⊢
    obtain ⟨grown, taken, behind⟩ := exists_of_bind_eq_ok absorbed
    rw [first draft grown taken]
    exact inductionHypothesis others behind

theorem readMembers_setAside {members : List (String × Json)}
    (keeps : ∀ member ∈ members, codec.Keeps member) {result : α}
    (reads : codec.readMembers codec.start (membersIn .value members) = .ok result) :
    codec.readMembers codec.start (membersIn .setAside members) = .ok result := by
  rw [readMembers_membersIn] at reads ⊢
  obtain ⟨draft, absorbed, finished⟩ := exists_of_bind_eq_ok reads
  rw [absorb_setAside keeps absorbed]
  exact finished

end RecordCodec

end PromptBlocks
