import PromptBlocks.Proofs.Record.Extent
import PromptBlocks.Record.Pattern

/-!
Contract: slots and templates come back from their texts.

Owns:
- the reading of what was written of them, and how deep it nests;
- lists of templates.

Does not own: which lists of templates make a catalog.
-/

namespace PromptBlocks

open RecordCodec

theorem Slot.restores (slot : Slot) :
    Slot.codec.Restores ["defaultValue", "isPlaceholder", "label", "blockType"] slot slot :=
  (restores_build slot Slot.mk)
    |>.required (by decide) (Wire.returns_block slot.block)
    |>.required (by decide) (Wire.returns_text slot.label)
    |>.required (by decide) (Wire.returns_flag slot.isPlaceholder)
    |>.optional (by decide) (fun text _ => ⟨Json.noConfusion, Wire.returns_text text⟩)

theorem Slot.returns (slot : Slot) : Wire.Returns slot :=
  fun arrangement _ held => slot.restores.read arrangement held

theorem Slot.nesting_write (slot : Slot) : (Wire.write slot).nesting ≤ 1 :=
  ((each_build _ slot Slot.mk)
    |>.required (Nat.zero_le 0)
    |>.required (Nat.zero_le 0)
    |>.required (Nat.zero_le 0)
    |>.optional (fun _ _ => Nat.zero_le 0)).nesting_write_le

theorem Slot.fitsWords_write (slot : Slot) : (Wire.write slot).fitsWords = true :=
  ((each_build (fun value => value.fitsWords = true) slot Slot.mk)
    |>.required rfl
    |>.required rfl
    |>.required rfl
    |>.optional (fun _ _ => rfl)).fitsWords_write

theorem Template.restores (template : Template) :
    Template.codec.Restores
      ["blocks", "example", "structure", "description", "name", "id"] template template :=
  (restores_build template Template.mk)
    |>.required (by decide) (Wire.returns_text template.id)
    |>.required (by decide) (Wire.returns_text template.name)
    |>.required (by decide) (Wire.returns_text template.description)
    |>.required (by decide) (Wire.returns_text template.outline)
    |>.required (by decide) (Wire.returns_text template.sample)
    |>.required (by decide) (Wire.returns_list fun slot _ => slot.returns)

theorem Template.returns (template : Template) : Wire.Returns template :=
  fun arrangement _ held => template.restores.read arrangement held

theorem Template.nesting_write (template : Template) : (Wire.write template).nesting ≤ 3 :=
  ((each_build _ template Template.mk)
    |>.required (Nat.zero_le 2)
    |>.required (Nat.zero_le 2)
    |>.required (Nat.zero_le 2)
    |>.required (Nat.zero_le 2)
    |>.required (Nat.zero_le 2)
    |>.required (Wire.nesting_list_le fun slot _ => slot.nesting_write)).nesting_write_le

theorem Template.fitsWords_write (template : Template) :
    (Wire.write template).fitsWords = true :=
  ((each_build (fun value => value.fitsWords = true) template Template.mk)
    |>.required rfl
    |>.required rfl
    |>.required rfl
    |>.required rfl
    |>.required rfl
    |>.required (Wire.fitsWords_list fun slot _ => slot.fitsWords_write)).fitsWords_write

theorem Slot.comesBack (slot : Slot) : Wire.ComesBack slot :=
  slot.returns.comesBack slot.fitsWords_write (slot.nesting_write.trans (by decide))

theorem Template.comesBack (template : Template) : Wire.ComesBack template :=
  template.returns.comesBack template.fitsWords_write (template.nesting_write.trans (by decide))

theorem Template.comesBack_list (templates : List Template) : Wire.ComesBack templates :=
  (Wire.returns_list fun template _ => template.returns).comesBack
    (Wire.fitsWords_list fun template _ => template.fitsWords_write)
    ((Wire.nesting_list_le fun template _ => template.nesting_write).trans (by decide))

end PromptBlocks
