import PromptBlocks.Pattern.Match
import Mathlib.Data.List.Nodup

/-!
Contract: which catalogs are accepted.

Owns:
- well-formed catalogs: at least one template, each with slots, told apart by their ids;
- a list of templates makes a catalog exactly when that is well-formed;
- the fault of any other list: that of its first template behind which the list is not sound;
- look-up by id in a well-formed catalog.

Does not own: catalog files.
-/

namespace PromptBlocks.Catalog

/-- There is a template, every template has a slot, and no two have the same id. -/
structure WellFormed (catalog : Catalog) : Prop where
  nonempty : catalog.templates ≠ []
  slots_ne_nil : ∀ template ∈ catalog.templates, template.slots ≠ []
  nodup_ids : (catalog.templates.map Template.id).Nodup

theorem fault?_eq_none_iff {seen : List String} {templates : List Template} :
    fault? seen templates = none ↔
      (∀ template ∈ templates, template.slots ≠ []) ∧ (templates.map Template.id).Nodup ∧
        ∀ template ∈ templates, template.id ∉ seen := by
  induction templates generalizing seen with
  | nil => simp [fault?]
  | cons template later inductionHypothesis =>
    rw [fault?, List.forall_mem_cons, List.forall_mem_cons, List.map_cons, List.nodup_cons]
    by_cases empty : template.slots.isEmpty = true
    · simp [List.isEmpty_iff.mp empty]
    · by_cases repeated : seen.contains template.id = true
      · have known : template.id ∈ seen := by simpa using repeated
        simp [empty, known]
      · have fresh : template.id ∉ seen := by simpa using repeated
        have someSlots : template.slots ≠ [] := fun none => empty (by rw [none]; rfl)
        rw [if_neg empty, if_neg repeated, inductionHypothesis]
        constructor
        · rintro ⟨slots, distinct, apart⟩
          have differs : template.id ∉ later.map Template.id := by
            intro member
            obtain ⟨other, inLater, same⟩ := List.mem_map.mp member
            exact apart other inLater (same ▸ List.mem_cons_self)
          exact ⟨⟨someSlots, slots⟩, ⟨differs, distinct⟩, fresh,
            fun other member => List.not_mem_of_not_mem_cons (apart other member)⟩
        · rintro ⟨⟨-, slots⟩, ⟨differs, distinct⟩, -, apart⟩
          refine ⟨slots, distinct, fun other member => ?_⟩
          have new : other.id ≠ template.id := fun same =>
            differs (same ▸ List.mem_map_of_mem member)
          exact List.not_mem_cons_of_ne_of_not_mem new (apart other member)

/-- A list of templates makes a catalog exactly when the catalog is well-formed. -/
theorem ofTemplates_eq_ok_iff {templates : List Template} {catalog : Catalog} :
    ofTemplates templates = .ok catalog ↔ catalog = ⟨templates⟩ ∧ catalog.WellFormed := by
  have accepts : ∀ templates : List Template, (⟨templates⟩ : Catalog).WellFormed ↔
      templates.isEmpty = false ∧ fault? [] templates = none := by
    intro templates
    rw [fault?_eq_none_iff, List.isEmpty_eq_false_iff]
    constructor
    · rintro ⟨nonempty, slots, distinct⟩
      exact ⟨nonempty, slots, distinct, fun _ _ => List.not_mem_nil⟩
    · rintro ⟨nonempty, slots, distinct, -⟩
      exact ⟨nonempty, slots, distinct⟩
  unfold ofTemplates
  constructor
  · intro made
    cases empty : templates.isEmpty with
    | true =>
      rw [empty, if_pos rfl] at made
      cases made
    | false =>
      rw [empty, if_neg Bool.false_ne_true] at made
      cases faulty : fault? [] templates with
      | some fault =>
        rw [faulty] at made
        cases made
      | none =>
        rw [faulty] at made
        cases made
        exact ⟨rfl, (accepts templates).mpr ⟨empty, faulty⟩⟩
  · rintro ⟨rfl, wellFormed⟩
    obtain ⟨nonempty, noFault⟩ := (accepts templates).mp wellFormed
    rw [nonempty, if_neg Bool.false_ne_true, noFault]

/-! ### Faults -/

/-- Every template has a slot, and no two have the same id. -/
structure Sound (templates : List Template) : Prop where
  slots_ne_nil : ∀ template ∈ templates, template.slots ≠ []
  nodup_ids : (templates.map Template.id).Nodup

theorem wellFormed_iff {templates : List Template} :
    (⟨templates⟩ : Catalog).WellFormed ↔ templates ≠ [] ∧ Sound templates :=
  ⟨fun ⟨nonempty, slots, distinct⟩ => ⟨nonempty, slots, distinct⟩,
    fun ⟨nonempty, slots, distinct⟩ => ⟨nonempty, slots, distinct⟩⟩

theorem fault?_nil_eq_none_iff {templates : List Template} :
    fault? [] templates = none ↔ Sound templates := by
  rw [fault?_eq_none_iff]
  exact ⟨fun ⟨slots, distinct, _⟩ => ⟨slots, distinct⟩,
    fun ⟨slots, distinct⟩ => ⟨slots, distinct, fun _ _ => List.not_mem_nil⟩⟩

theorem fault?_append (seen : List String) (front back : List Template) :
    fault? seen (front ++ back) =
      (fault? seen front).or (fault? ((front.map Template.id).reverse ++ seen) back) := by
  induction front generalizing seen with
  | nil => rfl
  | cons template later inductionHypothesis =>
    rw [List.cons_append, fault?, fault?, inductionHypothesis, List.map_cons, List.reverse_cons,
      List.append_assoc]
    split_ifs <;> rfl

/-- A faulty list is sound up to the template whose fault it has. -/
theorem exists_of_fault? {seen : List String} {templates : List Template} {fault : CatalogFault}
    (faulty : fault? seen templates = some fault) :
    ∃ front template back, templates = front ++ template :: back ∧ fault? seen front = none ∧
      fault? ((front.map Template.id).reverse ++ seen) [template] = some fault := by
  induction templates generalizing seen with
  | nil => cases faulty
  | cons template later inductionHypothesis =>
    have parts := fault?_append seen [template] later
    cases own : fault? seen [template] with
    | some found =>
      rw [own, List.singleton_append, faulty] at parts
      exact ⟨[], template, later, rfl, rfl, own.trans parts.symm⟩
    | none =>
      rw [own, List.singleton_append, faulty] at parts
      obtain ⟨front, culprit, back, rfl, soundFront, found⟩ := inductionHypothesis parts.symm
      refine ⟨template :: front, culprit, back, rfl, ?_, ?_⟩
      · rw [← List.singleton_append, fault?_append, own]
        exact soundFront
      · rw [List.map_cons, List.reverse_cons, List.append_assoc]
        exact found

/-- The list has the fault of the first template behind which it is not sound. -/
theorem fault?_nil_eq_some_iff {templates : List Template} {fault : CatalogFault} :
    fault? [] templates = some fault ↔
      ∃ front template back, templates = front ++ template :: back ∧ Sound front ∧
        fault? (front.map Template.id).reverse [template] = some fault := by
  simp only [← fault?_nil_eq_none_iff]
  constructor
  · intro faulty
    obtain ⟨front, template, back, split, soundFront, found⟩ := exists_of_fault? faulty
    exact ⟨front, template, back, split, soundFront, by simpa using found⟩
  · rintro ⟨front, template, back, rfl, soundFront, found⟩
    rw [fault?_append, soundFront, List.append_nil, Option.none_or, ← List.singleton_append,
      fault?_append, found, Option.some_or]

theorem fault?_singleton_eq_noSlots_iff {seen : List String} {template : Template} {id : String} :
    fault? seen [template] = some (.noSlots id) ↔ template.slots = [] ∧ template.id = id := by
  rw [fault?, fault?]
  split_ifs with empty repeated <;> simp_all

theorem fault?_singleton_eq_duplicateId_iff {seen : List String} {template : Template}
    {id : String} :
    fault? seen [template] = some (.duplicateId id) ↔
      template.slots ≠ [] ∧ template.id = id ∧ id ∈ seen := by
  rw [fault?, fault?]
  split_ifs with empty repeated <;> grind [List.isEmpty_iff]

theorem ofTemplates_eq_error_iff {templates : List Template} (nonempty : templates ≠ [])
    {fault : CatalogFault} :
    ofTemplates templates = .error fault ↔ fault? [] templates = some fault := by
  rw [ofTemplates, if_neg (by simpa using nonempty)]
  cases fault? [] templates <;> simp

theorem ofTemplates_eq_noTemplates_iff {templates : List Template} :
    ofTemplates templates = .error .noTemplates ↔ templates = [] := by
  constructor
  · intro faulty
    by_contra nonempty
    have found := (ofTemplates_eq_error_iff nonempty).mp faulty
    obtain ⟨front, template, back, -, -, own⟩ := fault?_nil_eq_some_iff.mp found
    rw [fault?, fault?] at own
    split_ifs at own <;> cases own
  · intro empty
    rw [empty]
    rfl

/-- Any other fault is that of the template at which the list stops being sound. -/
theorem ofTemplates_eq_error_iff_exists {templates : List Template} {fault : CatalogFault}
    (ofTemplate : fault ≠ .noTemplates) :
    ofTemplates templates = .error fault ↔
      ∃ front template back, templates = front ++ template :: back ∧ Sound front ∧
        fault? (front.map Template.id).reverse [template] = some fault := by
  rw [← fault?_nil_eq_some_iff]
  by_cases empty : templates = []
  · rw [empty]
    simp [ofTemplates, fault?, ofTemplate.symm]
  · exact ofTemplates_eq_error_iff empty

theorem ofTemplates_eq_noSlots_iff {templates : List Template} {id : String} :
    ofTemplates templates = .error (.noSlots id) ↔
      ∃ front template back, templates = front ++ template :: back ∧ Sound front ∧
        template.slots = [] ∧ template.id = id := by
  rw [ofTemplates_eq_error_iff_exists CatalogFault.noConfusion]
  simp only [fault?_singleton_eq_noSlots_iff]

theorem ofTemplates_eq_duplicateId_iff {templates : List Template} {id : String} :
    ofTemplates templates = .error (.duplicateId id) ↔
      ∃ front template back, templates = front ++ template :: back ∧ Sound front ∧
        template.slots ≠ [] ∧ template.id = id ∧ id ∈ front.map Template.id := by
  rw [ofTemplates_eq_error_iff_exists CatalogFault.noConfusion]
  simp only [fault?_singleton_eq_duplicateId_iff, List.mem_reverse]

/-! ### Look-up -/

theorem get?_eq_some_iff {catalog : Catalog} (wellFormed : catalog.WellFormed) {id : String}
    {template : Template} :
    catalog.get? id = some template ↔ template ∈ catalog.templates ∧ template.id = id := by
  constructor
  · intro found
    exact ⟨List.mem_of_find?_eq_some found, by simpa using List.find?_some found⟩
  · rintro ⟨member, rfl⟩
    obtain ⟨other, found⟩ : ∃ other, catalog.get? template.id = some other :=
      Option.isSome_iff_exists.mp
        (List.find?_isSome.mpr ⟨template, member, beq_self_eq_true template.id⟩)
    have same : other.id = template.id := by simpa using List.find?_some found
    have distinct := List.inj_on_of_nodup_map wellFormed.nodup_ids
    rw [found, distinct (List.mem_of_find?_eq_some found) member same]

theorem get?_eq_none_iff {catalog : Catalog} {id : String} :
    catalog.get? id = none ↔ ∀ template ∈ catalog.templates, template.id ≠ id := by
  rw [get?, List.find?_eq_none]
  simp

end PromptBlocks.Catalog
