import PromptBlocks.Proofs.Json.Bounds
import PromptBlocks.Proofs.Record.Members

/-!
Contract: what holds of every record that is read.

Owns:
- properties of records that follow from properties of their fields;
- whole numbers that are read from texts, which fit 64 bits.

Does not own: documents that no text makes up.
-/

namespace PromptBlocks

open Json (Document Items Members Fault)

theorem Wire.lt_naturalBound {document : Document} (fits : document.FitsWord) {value : Nat}
    (reads : (read document : Except Fault Nat) = .ok value) : value < Number.naturalBound := by
  cases document with
  | number number =>
    match number with
    | none => cases reads
    | some (.natural given) =>
      obtain rfl := Except.ok.inj reads
      exact fits
    | some (.negative _) => cases reads
    | some (.double _) => cases reads
  | _ => cases reads

namespace RecordCodec

variable {σ α β : Type}

/-- An invariant of drafts, kept by every member whose whole numbers fit 64 bits, after which the record
has a property. -/
structure DraftInvariant (codec : RecordCodec σ α) (holds : α → Prop) where
  sound : codec.Draft → Prop
  start : sound codec.start
  kept : ∀ {key draft readValue document grown}, sound draft →
    codec.accept key draft = some readValue → Document.FitsWord document →
      readValue document = .ok grown → sound grown
  finished : ∀ {draft record}, sound draft → codec.finish draft = .ok record → holds record

/-- Every record that is read from a document whose whole numbers fit 64 bits has a property. -/
structure Yields (codec : RecordCodec σ α) (holds : α → Prop) : Prop where
  members : Nonempty (codec.DraftInvariant holds)
  items : ∀ {items record left}, Items.FitsWord items →
    codec.readFirst items = .ok (record, left) → holds record ∧ left.FitsWord

theorem yields_build {holds : α → Prop} {value : α} (has : holds value) :
    (build value : RecordCodec σ α).Yields holds where
  members :=
    ⟨{ sound := fun _ => True
       start := trivial
       kept := fun _ _ _ _ => trivial
       finished := fun _ finished => Except.ok.inj finished ▸ has }⟩
  items := by
    intro items record left fits first
    obtain ⟨rfl, rfl⟩ := Prod.mk.inj (Except.ok.inj first)
    exact ⟨has, fits⟩

section Field

variable {read : Document → Except Fault α} {default : Option α} {has : α → Prop}

theorem readItem_yields
    (reads : ∀ document value, document.FitsWord → read document = .ok value → has value)
    (absent : ∀ value, default = some value → has value) {items left : Items} {value : α}
    (fits : items.FitsWord) (first : readItem read default items = .ok (value, left)) :
    has value ∧ left.FitsWord := by
  cases items with
  | item document later =>
    obtain ⟨found, readFound, same⟩ := exists_of_map_eq_ok first
    obtain ⟨rfl, rfl⟩ := Prod.mk.inj same
    exact ⟨reads document found fits.1 readFound, fits.2⟩
  | closed =>
    cases default with
    | none => cases first
    | some given =>
      obtain ⟨rfl, rfl⟩ := Prod.mk.inj (Except.ok.inj first)
      exact ⟨absent given rfl, trivial⟩
  | broken => cases first

variable {codec : RecordCodec σ (α → β)} {holds : β → Prop} {name : String}
  {written : σ → Option Json}

/-- A draft is sound when it is so without the field, and what was found of the field has its
property. -/
def DraftInvariant.field
    (invariant : codec.DraftInvariant fun make => ∀ value, has value → holds (make value))
    (reads : ∀ document value, document.FitsWord → read document = .ok value → has value)
    (absent : ∀ value, default = some value → has value) :
    (codec.field name read default written).DraftInvariant holds where
  sound draft := invariant.sound draft.1 ∧ ∀ value, draft.2 = some value → has value
  start := ⟨invariant.start, fun _ found => by cases found⟩
  kept := by
    rintro key ⟨draft, found⟩ readValue document grown ⟨others, own⟩ accepted fits readGrown
    by_cases isName : key = name
    · subst isName
      cases found with
      | some earlier =>
        obtain rfl := Option.some.inj ((accept_field_again draft earlier).symm.trans accepted)
        cases readGrown
      | none =>
        obtain rfl := Option.some.inj ((accept_field_self draft).symm.trans accepted)
        obtain ⟨value, readOwn, rfl⟩ := exists_of_map_eq_ok readGrown
        refine ⟨others, fun given isGiven => ?_⟩
        obtain rfl := Option.some.inj isGiven
        exact reads document value fits readOwn
    · obtain ⟨readOther, acceptedOther, rfl⟩ := Option.map_eq_some_iff.mp
        ((accept_field_of_ne isName draft found).symm.trans accepted)
      obtain ⟨grownOthers, readOthers, rfl⟩ := exists_of_map_eq_ok readGrown
      exact ⟨invariant.kept others acceptedOther fits readOthers, own⟩
  finished := by
    rintro ⟨draft, found⟩ record ⟨others, own⟩ finished
    obtain ⟨make, made, behind⟩ := exists_of_bind_eq_ok finished
    have makes := invariant.finished others made
    cases given : found.or default with
    | none =>
      simp only [given] at behind
      cases behind
    | some value =>
      simp only [given] at behind
      obtain rfl := Except.ok.inj behind
      apply makes
      rcases Option.or_eq_some_iff.mp given with isFound | ⟨-, isDefault⟩
      · exact own value isFound
      · exact absent value isDefault

/-- A field whose values have a property adds it to what is known of the record. -/
theorem Yields.field (yields : codec.Yields fun make => ∀ value, has value → holds (make value))
    (reads : ∀ document value, document.FitsWord → read document = .ok value → has value)
    (absent : ∀ value, default = some value → has value) :
    (codec.field name read default written).Yields holds where
  members := yields.members.map fun invariant => invariant.field reads absent
  items := by
    intro items record left fits first
    obtain ⟨⟨make, rest⟩, readMake, behind⟩ := exists_of_bind_eq_ok first
    obtain ⟨⟨value, last⟩, readValue, same⟩ := exists_of_bind_eq_ok behind
    obtain ⟨rfl, rfl⟩ := Prod.mk.inj (Except.ok.inj same)
    obtain ⟨makes, restFits⟩ := yields.items fits readMake
    obtain ⟨hasValue, lastFits⟩ := readItem_yields reads absent restFits readValue
    exact ⟨makes value hasValue, lastFits⟩

end Field

variable {codec : RecordCodec σ α} {holds : α → Prop} {record : α}

theorem DraftInvariant.readMembers (invariant : codec.DraftInvariant holds) {draft : codec.Draft}
    (isSound : invariant.sound draft) {members : Members} (fits : members.FitsWord)
    (reads : codec.readMembers draft members = .ok record) : holds record := by
  match members with
  | .closed => exact invariant.finished isSound reads
  | .broken => cases reads
  | .member none _ _ => cases reads
  | .member (some key) value later =>
    rw [RecordCodec.readMembers] at reads
    cases accepted : codec.accept key draft with
    | none =>
      simp only [accepted] at reads
      split_ifs at reads
      exact invariant.readMembers isSound fits.2 reads
    | some readValue =>
      simp only [accepted] at reads
      obtain ⟨grown, readGrown, behind⟩ := exists_of_bind_eq_ok reads
      exact invariant.readMembers (invariant.kept isSound accepted fits.1 readGrown) fits.2 behind

theorem Yields.read (yields : codec.Yields holds) {document : Document} (fits : document.FitsWord)
    (reads : codec.read document = .ok record) : holds record := by
  cases document with
  | object origin members =>
    rw [RecordCodec.read] at reads
    split_ifs at reads
    obtain ⟨invariant⟩ := yields.members
    exact invariant.readMembers invariant.start fits reads
  | array origin items =>
    rw [RecordCodec.read] at reads
    split_ifs at reads
    obtain ⟨⟨value, left⟩, first, behind⟩ := exists_of_bind_eq_ok reads
    cases left with
    | closed =>
      obtain rfl := Except.ok.inj behind
      exact (yields.items fits first).1
    | _ => cases behind
  | _ => cases reads

end RecordCodec

end PromptBlocks
