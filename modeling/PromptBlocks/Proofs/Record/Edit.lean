import PromptBlocks.Proofs.Record.Grammar
import PromptBlocks.Record.Edit

/-!
Contract: steps, plans and requests for plans are read back.

Owns:
- the reading of what was written of them, and how deep it nests;
- the tag of a request, wherever it stands among the members;
- the record behind the tag, whose members are set aside.

Does not own: the answer to a request.
-/

namespace PromptBlocks

open Json (Origin Fault Arrangement documentIn membersIn)
open RecordCodec

/-! ### Steps and plans -/

instance : Enumerated.Lawful StepOperation :=
  ⟨fun operation => by cases operation <;> rfl⟩

theorem Step.restores (step : Step) :
    Step.codec.Restores ["text", "anchorPosition", "blockType", "operation"] step step :=
  (restores_build step Step.mk)
    |>.required (by decide) (Wire.returns_named step.operation)
    |>.required (by decide) (Wire.returns_block step.block)
    |>.required (by decide) (Wire.returns_natural step.anchor)
    |>.optional (by decide) (fun text _ => ⟨Json.noConfusion, Wire.returns_text text⟩)

theorem Step.returns (step : Step) : Wire.Returns step :=
  fun arrangement _ held => step.restores.read arrangement held

theorem Step.nesting_write (step : Step) : (Wire.write step).nesting ≤ 1 :=
  ((each_build _ step Step.mk)
    |>.required (Nat.zero_le 0)
    |>.required (Nat.zero_le 0)
    |>.required (Nat.zero_le 0)
    |>.optional (fun _ _ => Nat.zero_le 0)).nesting_write_le

theorem Plan.restores (plan : Plan) : Plan.codec.Restores ["steps"] plan plan :=
  (restores_build plan Plan.mk)
    |>.required (by decide) (Wire.returns_list fun step _ => step.returns)

theorem Plan.returns (plan : Plan) : Wire.Returns plan :=
  fun arrangement _ held => plan.restores.read arrangement held

theorem Plan.nesting_write (plan : Plan) : (Wire.write plan).nesting ≤ 3 :=
  ((each_build _ plan Plan.mk)
    |>.required (Wire.nesting_list_le fun step _ => step.nesting_write)).nesting_write_le

/-! ### Requests -/

namespace PlanRequest

instance : Enumerated.Lawful Tag :=
  ⟨fun tag => by cases tag <;> rfl⟩

theorem readTag_id (tag : Tag) : readTag (.string (some (Enumerated.id tag))) = .ok tag := by
  rw [readTag, Wire.ofName, Enumerated.Lawful.ofId?_id]

section Members

variable {origin : Origin} {front back others moved : List (String × Json)} {tag : Tag}

/-- A member beside the tag is set aside. -/
theorem splitTag_member_of_ne (held : origin.isRefused = false) {member : String × Json}
    (differs : member.1 ≠ tagName) (found : Option Tag) (later : List (String × Json)) :
    splitTag found (membersIn origin (member :: later)) =
      (splitTag found (membersIn origin later)).map fun (found, others) =>
        (found, .member (some member.1) (documentIn .setAside member.2) others) := by
  obtain ⟨key, value⟩ := member
  have notTag : ¬(key == tagName) = true := by simpa using differs
  rw [membersIn, splitTag.eq_def]
  simp only [if_neg notTag, Json.setAside_documentIn held]
  rfl

theorem splitTag_others (held : origin.isRefused = false) {members : List (String × Json)}
    (apart : ∀ member ∈ members, member.1 ≠ tagName) (found : Option Tag) :
    splitTag found (membersIn origin members) = .ok (found, membersIn .setAside members) := by
  induction members with
  | nil => rfl
  | cons member later inductionHypothesis =>
    obtain ⟨differs, apartLater⟩ := List.forall_mem_cons.mp apart
    rw [splitTag_member_of_ne held differs, inductionHypothesis apartLater]
    rfl

/-- The tag is found wherever it stands. -/
theorem splitTag_tagged (held : origin.isRefused = false)
    (apart : ∀ member ∈ front ++ back, member.1 ≠ tagName) :
    splitTag none
        (membersIn origin (front ++ (tagName, .string (Enumerated.id tag)) :: back)) =
      .ok (some tag, membersIn .setAside (front ++ back)) := by
  induction front with
  | nil =>
    rw [List.nil_append, membersIn, splitTag, if_pos (beq_self_eq_true tagName), documentIn]
    show (readTag (.string (some (Enumerated.id tag)))).bind
      (fun found => splitTag (some found) (membersIn origin back)) = _
    rw [readTag_id]
    exact splitTag_others held apart (some tag)
  | cons member later inductionHypothesis =>
    obtain ⟨differs, apartLater⟩ := List.forall_mem_cons.mp apart
    rw [List.cons_append, splitTag_member_of_ne held differs, inductionHypothesis apartLater]
    rfl

/-- A request is read from what stands beside its tag, in the order in which it stands there. -/
theorem read_tagged (held : origin.isRefused = false)
    (apart : ∀ member ∈ others, member.1 ≠ tagName)
    (aroundTag : moved.Perm ((tagName, .string (Enumerated.id tag)) :: others)) :
    ∃ beside : List (String × Json), beside.Perm others ∧
      read (.object origin (membersIn origin moved)) =
        readBehind tag (.object .setAside (membersIn .setAside beside)) := by
  obtain ⟨front, back, rfl⟩ := List.append_of_mem
    (aroundTag.mem_iff.mpr List.mem_cons_self)
  have stays : (front ++ back).Perm others := (List.perm_middle.symm.trans aroundTag).cons_inv
  refine ⟨front ++ back, stays, ?_⟩
  rw [read, if_neg (by rw [held]; exact Bool.false_ne_true),
    splitTag_tagged held fun member isMember => apart member (stays.mem_iff.mp isMember)]
  rfl

end Members

/-- A request is read back when the record behind its tag is. -/
theorem read_of_restores {α : Type} {codec : RecordCodec α α} {names : List String} {value : α}
    (restores : codec.Restores names value value) (apart : tagName ∉ names) {tag : Tag}
    {make : α → PlanRequest}
    (behind : ∀ document, readBehind tag document = (codec.read document).map make)
    (arrangement : Arrangement) {origin : Origin} (held : origin.isRefused = false) :
    read (documentIn origin (arrangement.place
        (.object ((tagName, .string (Enumerated.id tag)) :: codec.members value)))) =
      .ok (make value) := by
  have distinct : (((tagName, Json.string (Enumerated.id tag)) ::
      codec.members value).map Prod.fst).Nodup := by
    rw [List.map_cons, List.nodup_cons]
    exact ⟨fun member => apart (restores.named member), restores.distinct⟩
  obtain ⟨moved, placed, moves⟩ := arrangement.object
    ((tagName, .string (Enumerated.id tag)) :: codec.members value)
  have aroundTag : moved.Perm ((tagName, .string (Enumerated.id tag)) ::
      arrangement.members (codec.members value)) := by
    rw [← arrangement.plain (.string (Enumerated.id tag)) rfl]
    exact moves distinct
  obtain ⟨beside, stays, reads⟩ :=
    read_tagged held (restores.forall_ne apart (.refl _)) aroundTag
  rw [placed, documentIn, reads, behind]
  show (codec.readMembers codec.start (membersIn .setAside beside)).map make = _
  rw [restores.readMembers arrangement rfl stays]
  rfl

theorem restores_fix (wanted : Fix) : fixCodec.Restores ["autofix"] wanted wanted :=
  (restores_build wanted fun fix => fix) |>.required (by decide) wanted.returns

theorem restores_pattern (id : String) : patternCodec.Restores ["patternId"] id id :=
  (restores_build id fun id => id) |>.required (by decide) (Wire.returns_text id)

theorem returns (request : PlanRequest) : Wire.Returns request := by
  intro arrangement origin held
  cases request with
  | fix wanted =>
    exact read_of_restores (restores_fix wanted) (by decide) (fun _ => rfl) arrangement held
  | applyPattern id =>
    exact read_of_restores (restores_pattern id) (by decide) (fun _ => rfl) arrangement held
  | completePattern id =>
    exact read_of_restores (restores_pattern id) (by decide) (fun _ => rfl) arrangement held

theorem nesting_write (request : PlanRequest) : (Wire.write request).nesting ≤ 2 := by
  apply Nat.add_le_add_right (k := 1)
  cases request with
  | fix wanted =>
    exact Nat.max_le.mpr ⟨Nat.zero_le 1, Nat.max_le.mpr ⟨wanted.nesting_write, Nat.zero_le 1⟩⟩
  | applyPattern id => exact Nat.zero_le 1
  | completePattern id => exact Nat.zero_le 1

end PlanRequest

end PromptBlocks
