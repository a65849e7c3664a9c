import PromptBlocks.Proofs.Edit.Completion

/-!
Contract: what the plan of a template makes.

Owns:
- the steps of the plan: a new start, and steps behind the last token;
- the sequence they make of any sequence, which is the instance of the template;
- the match of the instance with the template.

Does not own: a template that another one with its id hides in its catalog.
-/

namespace PromptBlocks

/-- The token of a slot is in chain zero. -/
theorem Slot.tokenIn_zero : tokenIn 0 = token :=
  rfl

namespace Template

variable {template : Template} {catalog : Catalog} {first : Slot} {rest : List Slot}

/-- The first slot starts over, and every other one comes behind the slots before it. -/
theorem forTemplate_of_cons (split : template.slots = first :: rest) :
    Plan.forTemplate template =
      ⟨[{ operation := .replaceAll, block := first.block, anchor := 0, text := first.preset }] ++
        (rest.zipIdx 1).map fun (slot, index) => Plan.appendStep slot.block index slot.preset⟩ := by
  rw [Plan.forTemplate, split, List.zipIdx_cons, List.map_cons]
  refine congrArg Plan.mk (congrArg (List.cons _) (List.map_congr_left fun (slot, index) member => ?_))
  -- Places behind the first one are positive.
  obtain ⟨last, rfl⟩ := Nat.exists_eq_add_of_le' (List.mem_zipIdx member).1
  rfl

/-- Whatever the sequence was, the plan of a template leaves the template's instance. -/
theorem apply_forTemplate (slots : template.slots ≠ []) (sequence : Sequence) :
    (Plan.forTemplate template).apply sequence = template.instantiate := by
  obtain ⟨first, rest, split⟩ := List.exists_cons_of_ne_nil slots
  rw [forTemplate_of_cons split, Plan.apply_append]
  calc Plan.apply ⟨(rest.zipIdx 1).map fun (slot, index) =>
          Plan.appendStep slot.block index slot.preset⟩ ⟨[first.token]⟩
      = ⟨[first.token] ++ rest.map (Slot.tokenIn 0)⟩ :=
        Plan.apply_appendSteps rest ⟨[first.token]⟩
    _ = template.instantiate := by
        rw [instantiate, split, List.map_cons, List.singleton_append, Slot.tokenIn_zero]

/-- The instance spells out its template: every slot takes the token it makes. -/
theorem spelledBy_instantiate (template : Template) : template.SpelledBy template.instantiate :=
  Slot.spelled_tokenIn template.slots 0

/-- Applying a template yields its instance, whatever the sequence was: the tokens of the slots in their
order, placed from zero on and all in chain zero, and a complete match of the template. -/
theorem application_instantiates (slots : template.slots ≠ [])
    (found : catalog.get? template.id = some template) (sequence : Sequence) :
    let applied := (Plan.forRequest sequence catalog (.applyPattern template.id)).apply sequence
    applied = template.instantiate ∧
      applied.placed = (template.slots.zipIdx.map fun (slot, position) =>
        { token := slot.token, position }) ∧
      (∀ token ∈ applied.tokens, token.chain = 0) ∧
      (∀ other, (Plan.forRequest other catalog (.applyPattern template.id)).apply other = applied) ∧
      template.matchOf applied =
        { templateId := template.id, templateName := template.name, score := 1, missing := []
          isComplete := true } := by
  have instantiates (other : Sequence) :
      (Plan.forRequest other catalog (.applyPattern template.id)).apply other =
        template.instantiate := by
    rw [Plan.forRequest, found]
    exact apply_forTemplate slots other
  intro applied
  have same : applied = template.instantiate := instantiates sequence
  rw [same]
  refine ⟨rfl, ?_, ?_, instantiates,
    matchOf_eq_of_spelledBy template.spelledBy_instantiate slots⟩
  · simp only [instantiate, Sequence.placed, List.zipIdx_map, List.map_map]
    rfl
  · intro token member
    obtain ⟨slot, -, rfl⟩ := List.mem_map.mp member
    rfl

/-- A topic sentence in place of a noun of another chain: the fixed word comes with its text, and the noun
has none. -/
theorem application_instantiates_over_noun :
    let topic := (Catalog.Builtin.templates .ja)[2]
    let sequence : Sequence := ⟨[⟨.noun, some "Doc", 7⟩]⟩
    topic.slots ≠ [] ∧ (Catalog.builtin .ja).get? topic.id = some topic ∧
      (Plan.forRequest sequence (Catalog.builtin .ja) (.applyPattern "topic_about")).apply sequence =
        ⟨[⟨.noun, some "", 0⟩, ⟨.other, some "について", 0⟩, ⟨.verb .analyze, none, 0⟩]⟩ := by
  intro topic sequence
  have slots : topic.slots ≠ [] := by decide
  have found : (Catalog.builtin .ja).get? topic.id = some topic := by decide
  exact ⟨slots, found, (application_instantiates slots found sequence).1⟩

end Template

end PromptBlocks
