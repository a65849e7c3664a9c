import PromptBlocks.Proofs.Json.RoundTrip
import PromptBlocks.Proofs.Record.Wire

/-!
Contract: values that are read back from their texts.

Owns:
- properties of every value that a record writes, field by field;
- how deep written records and lists nest;
- texts, on one line or with a line for each part, of values that nest no deeper than texts may.

Does not own: any one record.
-/

namespace PromptBlocks

namespace Json

theorem itemsNesting_le_iff {items : List Json} {room : Nat} :
    itemsNesting items ≤ room ↔ ∀ item ∈ items, nesting item ≤ room := by
  induction items with
  | nil => simp [itemsNesting]
  | cons item later inductionHypothesis =>
    rw [itemsNesting, Nat.max_le, inductionHypothesis, List.forall_mem_cons]

theorem membersNesting_le_iff {members : List (String × Json)} {room : Nat} :
    membersNesting members ≤ room ↔ ∀ member ∈ members, nesting member.2 ≤ room := by
  induction members with
  | nil => simp [membersNesting]
  | cons member later inductionHypothesis =>
    rw [membersNesting, Nat.max_le, inductionHypothesis, List.forall_mem_cons]

theorem itemsFitWords_iff {items : List Json} :
    itemsFitWords items = true ↔ ∀ item ∈ items, fitsWords item = true := by
  induction items with
  | nil => simp [itemsFitWords]
  | cons item later inductionHypothesis =>
    rw [itemsFitWords, Bool.and_eq_true, inductionHypothesis, List.forall_mem_cons]

theorem membersFitWords_iff {members : List (String × Json)} :
    membersFitWords members = true ↔ ∀ member ∈ members, fitsWords member.2 = true := by
  induction members with
  | nil => simp [membersFitWords]
  | cons member later inductionHypothesis =>
    rw [membersFitWords, Bool.and_eq_true, inductionHypothesis, List.forall_mem_cons]

end Json

namespace RecordCodec

variable {σ α β : Type} {record : σ} {holds : Json → Prop}

/-- Every value that the codec writes of the record has a property. -/
def Each (codec : RecordCodec σ α) (holds : Json → Prop) (record : σ) : Prop :=
  ∀ member ∈ codec.members record, holds member.2

theorem each_build (holds : Json → Prop) (record : σ) (value : α) :
    (build value : RecordCodec σ α).Each holds record :=
  List.forall_mem_nil _

theorem Each.field {codec : RecordCodec σ (α → β)} (each : codec.Each holds record) {name : String}
    {read : Json.Document → Except Json.Fault α} {default : Option α} {written : σ → Option Json}
    (has : ∀ value, written record = some value → holds value) :
    (codec.field name read default written).Each holds record := by
  intro member isWritten
  rcases List.mem_append.mp isWritten with before | own
  · exact each member before
  · obtain ⟨value, isValue, rfl⟩ := Option.map_eq_some_iff.mp (Option.mem_toList.mp own)
    exact has value isValue

theorem Each.required [Wire α] {codec : RecordCodec σ (α → β)} (each : codec.Each holds record)
    {name : String} {get : σ → α} (has : holds (Wire.write (get record))) :
    (codec.required name get).Each holds record :=
  each.field fun _ isValue => Option.some.inj isValue ▸ has

theorem Each.defaulted [Wire α] {codec : RecordCodec σ (α → β)} (each : codec.Each holds record)
    {name : String} {default : α} {get : σ → α} (has : holds (Wire.write (get record))) :
    (codec.defaulted name default get).Each holds record :=
  each.field fun _ isValue => Option.some.inj isValue ▸ has

theorem Each.optional [Wire α] {codec : RecordCodec σ (Option α → β)}
    (each : codec.Each holds record) {name : String} {get : σ → Option α}
    (has : ∀ value, get record = some value → holds (Wire.write value)) :
    (codec.optional name get).Each holds record := by
  apply each.field
  intro value isValue
  obtain ⟨given, isGiven, rfl⟩ := Option.map_eq_some_iff.mp isValue
  exact has given isGiven

theorem Each.nesting_write_le {codec : RecordCodec σ α} {room : Nat}
    (each : codec.Each (fun value => value.nesting ≤ room) record) :
    (codec.write record).nesting ≤ room + 1 :=
  Nat.add_le_add_right (Json.membersNesting_le_iff.mpr each) 1

theorem Each.fitsWords_write {codec : RecordCodec σ α}
    (each : codec.Each (fun value => value.fitsWords = true) record) :
    (codec.write record).fitsWords = true :=
  Json.membersFitWords_iff.mpr each

end RecordCodec

namespace Wire

variable {α : Type} [Wire α]

theorem nesting_list_le {values : List α} {room : Nat}
    (each : ∀ value ∈ values, (write value).nesting ≤ room) :
    (write values).nesting ≤ room + 1 :=
  Nat.add_le_add_right (Json.itemsNesting_le_iff.mpr (List.forall_mem_map.mpr each)) 1

theorem fitsWords_list {values : List α} (each : ∀ value ∈ values, (write value).fitsWords = true) :
    (write values).fitsWords = true :=
  Json.itemsFitWords_iff.mpr (List.forall_mem_map.mpr each)

/-- The value comes back from the texts of its JSON, on one line and with a line for each part, and
however its JSON is arranged where it is held. -/
structure ComesBack (value : α) : Prop where
  held : Returns value
  compact : Json.readText read (write value).compact = .ok value
  pretty : Json.readText read (write value).pretty = .ok value

theorem Returns.comesBack {value : α} (returns : Returns value)
    (fits : (write value).fitsWords = true)
    (shallow : (write value).nesting ≤ Json.Reading.depthLimit) : ComesBack value := by
  have spelled : read (Json.documentAt 0 (write value)) = .ok value := by
    rw [Json.documentAt_eq (write value) (by omega)]
    exact returns .written (.text false) rfl
  constructor
  · exact returns
  · rw [Json.readText_compact read fits, spelled]
  · rw [Json.readText_pretty read fits, spelled]

end Wire

end PromptBlocks
