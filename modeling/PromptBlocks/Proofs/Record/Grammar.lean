import PromptBlocks.Proofs.Record.Extent
import PromptBlocks.Record.Grammar

/-!
Contract: fixes, findings and reports are read back.

Owns: the reading of what was written of them, and how deep it nests.

Does not own: the checks that make findings.
-/

namespace PromptBlocks

open RecordCodec

instance : Enumerated.Lawful Severity :=
  ⟨fun severity => by cases severity <;> rfl⟩

instance : Enumerated.Lawful FindingCode :=
  ⟨fun code => by cases code <;> rfl⟩

instance : Enumerated.Lawful FixAction :=
  ⟨fun action => by cases action <;> rfl⟩

theorem Fix.restores (fix : Fix) :
    Fix.codec.Restores ["label", "targetPosition", "blockType", "actionType"] fix fix :=
  (restores_build fix Fix.mk)
    |>.required (by decide) (Wire.returns_named fix.action)
    |>.required (by decide) (Wire.returns_text fix.blockType)
    |>.required (by decide) (Wire.returns_natural fix.target)
    |>.required (by decide) (Wire.returns_text fix.label)

theorem Fix.returns (fix : Fix) : Wire.Returns fix :=
  fun arrangement _ held => fix.restores.read arrangement held

theorem Fix.nesting_write (fix : Fix) : (Wire.write fix).nesting ≤ 1 :=
  ((each_build _ fix Fix.mk)
    |>.required (Nat.zero_le 0)
    |>.required (Nat.zero_le 0)
    |>.required (Nat.zero_le 0)
    |>.required (Nat.zero_le 0)).nesting_write_le

theorem Finding.restores (finding : Finding) :
    Finding.codec.Restores
      ["autofix", "suggestion", "severity", "position", "message", "code"] finding finding :=
  (restores_build finding Finding.mk)
    |>.required (by decide) (Wire.returns_named finding.code)
    |>.required (by decide) (Wire.returns_text finding.message)
    |>.required (by decide) (Wire.returns_natural finding.position)
    |>.required (by decide) (Wire.returns_named finding.severity)
    |>.optional (by decide) (fun text _ => ⟨Json.noConfusion, Wire.returns_text text⟩)
    |>.optional (by decide) (fun fix _ => ⟨Json.noConfusion, fix.returns⟩)

theorem Finding.returns (finding : Finding) : Wire.Returns finding :=
  fun arrangement _ held => finding.restores.read arrangement held

theorem Finding.nesting_write (finding : Finding) : (Wire.write finding).nesting ≤ 2 :=
  ((each_build _ finding Finding.mk)
    |>.required (Nat.zero_le 1)
    |>.required (Nat.zero_le 1)
    |>.required (Nat.zero_le 1)
    |>.required (Nat.zero_le 1)
    |>.optional (fun _ _ => Nat.zero_le 1)
    |>.optional (fun fix _ => fix.nesting_write)).nesting_write_le

theorem Report.restores (report : Report) :
    Report.codec.Restores ["warningCount", "errorCount", "errors", "isValid"] report report :=
  (restores_build report Report.mk)
    |>.required (by decide) (Wire.returns_flag report.isValid)
    |>.required (by decide) (Wire.returns_list fun finding _ => finding.returns)
    |>.required (by decide) (Wire.returns_natural report.errorCount)
    |>.required (by decide) (Wire.returns_natural report.warningCount)

theorem Report.returns (report : Report) : Wire.Returns report :=
  fun arrangement _ held => report.restores.read arrangement held

theorem Report.nesting_write (report : Report) : (Wire.write report).nesting ≤ 4 :=
  ((each_build _ report Report.mk)
    |>.required (Nat.zero_le 3)
    |>.required (Wire.nesting_list_le fun finding _ => finding.nesting_write)
    |>.required (Nat.zero_le 3)
    |>.required (Nat.zero_le 3)).nesting_write_le

end PromptBlocks
