import PromptBlocks.Proofs.Record.Members
import PromptBlocks.Proofs.Sequence.Places
import PromptBlocks.Proofs.Vocabulary.Ids
import PromptBlocks.Record.Chain

/-!
Contract: values that are written are read back, however their members are arranged.

Owns:
- texts, flags, whole numbers, names, blocks and lists;
- required, defaulted and optional fields;
- placed tokens and sequences.

Does not own: where a written value ends up among the arguments of a request.
-/

namespace PromptBlocks

open Json (Origin Fault Arrangement documentIn itemsIn)

variable {σ α β : Type}

namespace Wire

/-- Reading gives the value back, however what was written of it is arranged. -/
def Returns [Wire α] (value : α) : Prop :=
  ∀ (arrangement : Arrangement) origin, origin.isRefused = false →
    read (documentIn origin (arrangement.place (write value))) = .ok value

/-- A value that is written as a plain one is read back when it is read where it was written. -/
theorem returns_of_isPlain [Wire α] {value : α} (plain : (write value).isPlain = true)
    (reads : ∀ origin, read (documentIn origin (write value)) = .ok value) : Returns value := by
  intro arrangement origin _
  rw [arrangement.plain _ plain]
  exact reads origin

theorem returns_text (text : String) : Returns text :=
  returns_of_isPlain rfl fun _ => rfl

theorem returns_flag (flag : Bool) : Returns flag :=
  returns_of_isPlain rfl fun _ => rfl

theorem returns_natural (value : Nat) : Returns value :=
  returns_of_isPlain rfl fun _ => rfl

theorem returns_named [Enumerated α] [Enumerated.Lawful α] (value : α) :
    @Returns α (named α) value := by
  refine @returns_of_isPlain α (named α) value rfl fun origin => ?_
  show ofName (Enumerated.id value) = _
  rw [ofName, Enumerated.Lawful.ofId?_id]

theorem read_optional [Wire α] {json : Json} (notNull : json ≠ .null) (origin : Origin) :
    (read (documentIn origin json) : Except Fault (Option α)) =
      (read (documentIn origin json)).map some := by
  cases json with
  | null => exact absurd rfl notNull
  | _ => rfl

theorem returns_block (block : Block) : Returns block := by
  refine returns_of_isPlain rfl fun origin => ?_
  simp only [write, documentIn, read, ofBlockId, Block.ofId?_id]

theorem readItems_itemsIn [Wire α] (arrangement : Arrangement) {origin : Origin}
    (held : origin.isRefused = false) :
    ∀ {values : List α}, (∀ value ∈ values, Returns value) →
      readItems read (itemsIn origin ((values.map write).map arrangement.place)) = .ok values
  | [], _ => rfl
  | value :: later, returns => by
    obtain ⟨first, others⟩ := List.forall_mem_cons.mp returns
    show ((read (documentIn origin (arrangement.place (write value)))).bind fun value =>
      (readItems read (itemsIn origin ((later.map write).map arrangement.place))).bind fun others =>
        .ok (value :: others)) = _
    rw [first arrangement origin held, readItems_itemsIn arrangement held others]
    rfl

theorem returns_list [Wire α] {values : List α} (returns : ∀ value ∈ values, Returns value) :
    Returns values := by
  intro arrangement origin held
  have items : arrangement.place (write values) =
      .array ((values.map write).map arrangement.place) := arrangement.array _
  rw [items]
  show (if origin.isRefused then _ else readItems read
    (itemsIn origin ((values.map write).map arrangement.place))) = _
  rw [held, if_neg Bool.false_ne_true, readItems_itemsIn arrangement held returns]

end Wire

namespace RecordCodec

variable {names : List String} {name : String} {record : σ}

theorem Restores.required [Wire α] {codec : RecordCodec σ (α → β)} {make : α → β} {get : σ → α}
    (restores : codec.Restores names record make) (fresh : name ∉ names)
    (returns : Wire.Returns (get record)) :
    (codec.required name get).Restores (name :: names) record (make (get record)) :=
  restores.field_of_eq_some fresh rfl returns

theorem Restores.defaulted [Wire α] {codec : RecordCodec σ (α → β)} {make : α → β} {get : σ → α}
    (restores : codec.Restores names record make) (fresh : name ∉ names) (default : α)
    (returns : Wire.Returns (get record)) :
    (codec.defaulted name default get).Restores (name :: names) record (make (get record)) :=
  restores.field_of_eq_some fresh rfl returns

/-- A value is optional without loss unless it is written as null, which is no value. -/
theorem Restores.optional [Wire α] {codec : RecordCodec σ (Option α → β)} {make : Option α → β}
    {get : σ → Option α} (restores : codec.Restores names record make) (fresh : name ∉ names)
    (returns : ∀ value, get record = some value → Wire.write value ≠ .null ∧ Wire.Returns value) :
    (codec.optional name get).Restores (name :: names) record (make (get record)) := by
  cases given : get record with
  | none => exact restores.field_of_eq_none fresh (by rw [given]; rfl) rfl
  | some value =>
    obtain ⟨notNull, returned⟩ := returns value given
    refine restores.field_of_eq_some fresh (by rw [given]; rfl) fun arrangement origin held => ?_
    rw [Wire.read_optional (arrangement.place_ne_null notNull), returned arrangement origin held]
    rfl

end RecordCodec

theorem PlacedToken.restores (placed : PlacedToken) :
    PlacedToken.codec.Restores ["chain", "position", "text", "blockType"] placed placed :=
  (RecordCodec.restores_build placed _)
    |>.required (by decide) (Wire.returns_block placed.token.block)
    |>.optional (by decide) (fun text _ => ⟨Json.noConfusion, Wire.returns_text text⟩)
    |>.defaulted (by decide) 0 (Wire.returns_natural placed.position)
    |>.defaulted (by decide) 0 (Wire.returns_natural placed.token.chain)

theorem PlacedToken.returns (placed : PlacedToken) : Wire.Returns placed :=
  fun arrangement _ held => placed.restores.read arrangement held

theorem Sequence.returns (sequence : Sequence) : Wire.Returns sequence := by
  intro arrangement origin held
  have placedTokens : Wire.Returns sequence.placed :=
    Wire.returns_list fun placed _ => placed.returns
  show ((Wire.read (documentIn origin (arrangement.place (Wire.write sequence.placed))) :
    Except Fault (List PlacedToken)).map Sequence.ofPlaced) = _
  rw [placedTokens arrangement origin held]
  exact congrArg _ (Sequence.ofPlaced_placed sequence)

end PromptBlocks
