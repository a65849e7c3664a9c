import PromptBlocks.Proofs.Host.Settings
import PromptBlocks.Proofs.Record.Chain
import PromptBlocks.Proofs.Record.Edit
import PromptBlocks.Proofs.Record.Pattern

/-!
Contract: all records survive the way to a client and back.

Owns:
- types whose values come back whenever their whole numbers fit 64 bits;
- the records of sequences, findings, plans, patterns, settings and chains, all together.

Does not own: how each record is read.
-/

namespace PromptBlocks

open RecordCodec

theorem PlacedToken.nesting_write (placed : PlacedToken) : (Wire.write placed).nesting ≤ 1 :=
  ((each_build _ placed fun block text position chain =>
      ({ token := { block, text, chain }, position } : PlacedToken))
    |>.required (Nat.zero_le 0)
    |>.optional (fun _ _ => Nat.zero_le 0)
    |>.defaulted (Nat.zero_le 0)
    |>.defaulted (Nat.zero_le 0)).nesting_write_le

theorem Sequence.nesting_write (sequence : Sequence) : (Wire.write sequence).nesting ≤ 2 :=
  Wire.nesting_list_le fun placed _ => placed.nesting_write

namespace Wire

/-- Every value of the type whose whole numbers fit 64 bits comes back. -/
def Faithful (α : Type) [Wire α] : Prop :=
  ∀ value : α, (write value).fitsWords = true → ComesBack value

theorem faithful_of_nesting_le {α : Type} [Wire α] {room : Nat}
    (returns : ∀ value : α, Returns value) (shallow : ∀ value : α, (write value).nesting ≤ room)
    (fits : room ≤ Json.Reading.depthLimit) : Faithful α :=
  fun value words => (returns value).comesBack words ((shallow value).trans fits)

/-- Every record comes back from its JSON as the value that it was: where its JSON is held as a value,
with its members in any order, and from its texts.  Whole numbers are of 64 bits, and the catalog of
settings has a path that is text.  The text of a chain holds a container for each block, and is refused
where there are more than texts may nest. -/
theorem records_come_back :
    (Faithful Sequence ∧ Faithful PlacedToken) ∧
    (Faithful Fix ∧ Faithful Finding ∧ Faithful Report) ∧
    (Faithful Step ∧ Faithful Plan ∧ Faithful PlanRequest) ∧
    ((∀ slot : Slot, ComesBack slot) ∧ ∀ template : Template, ComesBack template) ∧
    (∀ settings : Settings, settings.isSpelled = true → (write settings).fitsWords = true →
      ComesBack settings) ∧
    ∀ chain : BlockChain, Returns chain ∧
      Json.readText read (write chain).compact =
        (if chain.length ≤ Json.Reading.depthLimit then .ok chain else .error .malformed) ∧
      Json.readText read (write chain).pretty =
        (if chain.length ≤ Json.Reading.depthLimit then .ok chain else .error .malformed) := by
  have sequences : Faithful Sequence :=
    faithful_of_nesting_le Sequence.returns Sequence.nesting_write (by decide)
  have tokens : Faithful PlacedToken :=
    faithful_of_nesting_le PlacedToken.returns PlacedToken.nesting_write (by decide)
  have fixes : Faithful Fix := faithful_of_nesting_le Fix.returns Fix.nesting_write (by decide)
  have findings : Faithful Finding :=
    faithful_of_nesting_le Finding.returns Finding.nesting_write (by decide)
  have reports : Faithful Report :=
    faithful_of_nesting_le Report.returns Report.nesting_write (by decide)
  have steps : Faithful Step := faithful_of_nesting_le Step.returns Step.nesting_write (by decide)
  have plans : Faithful Plan := faithful_of_nesting_le Plan.returns Plan.nesting_write (by decide)
  have requests : Faithful PlanRequest :=
    faithful_of_nesting_le PlanRequest.returns PlanRequest.nesting_write (by decide)
  have settings (settings : Settings) (spelled : settings.isSpelled = true)
      (words : (write settings).fitsWords = true) : ComesBack settings :=
    (Settings.returns spelled).comesBack words (settings.nesting_write.trans (by decide))
  have chains (chain : BlockChain) := And.intro chain.returns
    (And.intro chain.readText_compact chain.readText_pretty)
  exact ⟨⟨sequences, tokens⟩, ⟨fixes, findings, reports⟩, ⟨steps, plans, requests⟩,
    ⟨Slot.comesBack, Template.comesBack⟩, settings, chains⟩

/-- A request to fix the last place that there can be, with a label full of marks. -/
theorem records_come_back_of_last_target :
    ComesBack (PlanRequest.fix
      { action := .insertAfter, blockType := "promps_particle_wo", target := Number.naturalBound - 1,
        label := "\"を\"\n" }) :=
  records_come_back.2.2.1.2.2 _ (by decide +kernel)

end Wire

end PromptBlocks
