import PromptBlocks.Grammar.Report
import PromptBlocks.Record.Codec

/-!
Contract: findings and reports as JSON.

Owns: the fields of fixes, findings and reports.

Does not own: the counts of a report that is read, which are taken as they stand.
-/

namespace PromptBlocks

instance : Wire Severity := Wire.named Severity

instance : Wire FindingCode := Wire.named FindingCode

instance : Wire FixAction := Wire.named FixAction

def Fix.codec : RecordCodec Fix Fix :=
  RecordCodec.build Fix.mk
    |>.required "actionType" Fix.action
    |>.required "blockType" Fix.blockType
    |>.required "targetPosition" Fix.target
    |>.required "label" Fix.label

instance : Wire Fix := Fix.codec.wire

def Finding.codec : RecordCodec Finding Finding :=
  RecordCodec.build Finding.mk
    |>.required "code" Finding.code
    |>.required "message" Finding.message
    |>.required "position" Finding.position
    |>.required "severity" Finding.severity
    |>.optional "suggestion" Finding.suggestion
    |>.optional "autofix" Finding.fix

instance : Wire Finding := Finding.codec.wire

def Report.codec : RecordCodec Report Report :=
  RecordCodec.build Report.mk
    |>.required "isValid" Report.isValid
    |>.required "errors" Report.findings
    |>.required "errorCount" Report.errorCount
    |>.required "warningCount" Report.warningCount

instance : Wire Report := Report.codec.wire

end PromptBlocks
