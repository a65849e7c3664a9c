import PromptBlocks.Proofs.Pattern.Catalog
import PromptBlocks.Proofs.Record.Pattern

/-!
Contract: catalogs are made of exactly the right lists of templates, and come back from their texts.

Owns:
- which lists of templates are accepted, and the fault of each other list;
- look-up in an accepted catalog;
- the texts of an accepted catalog.

Does not own: catalog files.
-/

namespace PromptBlocks.Catalog

/-- Templates that make a catalog do so again when they come from a text. -/
theorem ofText_eq_ok {catalog : Catalog} {text : String}
    (made : ofTemplates catalog.templates = .ok catalog)
    (spelled : Json.readText Wire.read text = .ok catalog.templates) : ofText text = .ok catalog := by
  rw [ofText, spelled, ofRead, made]
  rfl

/-- A list makes a catalog exactly when it is not empty and sound.  The fault of any other list is
that of the first template with which the list is no longer sound, where the lack of slots comes
before a repeated id.  A catalog that was made finds each of its templates under its id and no other,
and is made again from its texts. -/
theorem construction_exact (templates : List Template) :
    (∀ catalog, ofTemplates templates = .ok catalog ↔
      catalog = ⟨templates⟩ ∧ templates ≠ [] ∧ Sound templates) ∧
    (ofTemplates templates = .error .noTemplates ↔ templates = []) ∧
    (∀ id, ofTemplates templates = .error (.noSlots id) ↔
      ∃ front template back, templates = front ++ template :: back ∧ Sound front ∧
        template.slots = [] ∧ template.id = id) ∧
    (∀ id, ofTemplates templates = .error (.duplicateId id) ↔
      ∃ front template back, templates = front ++ template :: back ∧ Sound front ∧
        template.slots ≠ [] ∧ template.id = id ∧ id ∈ front.map Template.id) ∧
    ∀ catalog, ofTemplates templates = .ok catalog →
      (∀ id template, catalog.get? id = some template ↔ template ∈ templates ∧ template.id = id) ∧
      (∀ id, catalog.get? id = none ↔ ∀ template ∈ templates, template.id ≠ id) ∧
      ofText catalog.toJson.compact = .ok catalog ∧ ofText catalog.toJson.pretty = .ok catalog := by
  refine ⟨fun catalog => ?_, ofTemplates_eq_noTemplates_iff, fun id => ofTemplates_eq_noSlots_iff,
    fun id => ofTemplates_eq_duplicateId_iff, fun catalog made => ?_⟩
  · rw [ofTemplates_eq_ok_iff]
    apply and_congr_right
    intro same
    rw [same, wellFormed_iff]
  · obtain ⟨rfl, wellFormed⟩ := ofTemplates_eq_ok_iff.mp made
    have back := Template.comesBack_list templates
    exact ⟨fun id template => get?_eq_some_iff wellFormed, fun id => get?_eq_none_iff,
      ofText_eq_ok made back.compact, ofText_eq_ok made back.pretty⟩

/-- The built-in catalog is made from its templates, and again from its text. -/
theorem construction_exact_of_builtin :
    ofTemplates (Builtin.templates .en) = .ok (builtin .en) ∧
      ofText (builtin .en).toJson.compact = .ok (builtin .en) := by
  have made : ofTemplates (Builtin.templates .en) = .ok (builtin .en) := by decide +kernel
  exact ⟨made, ((construction_exact (Builtin.templates .en)).2.2.2.2 _ made).2.2.1⟩

end PromptBlocks.Catalog
