import PromptBlocks.Proofs.Host.Atomicity
import PromptBlocks.Proofs.Record.SetAside
import PromptBlocks.Proofs.Record.Wire

/-!
Contract: a sequence may be given in stages or as tokens.

Owns:
- the members of arguments that give a sequence, and all others;
- the commands that read further arguments beside a sequence, and answer by it alone;
- the agreement of two requests whose sequences are the same in two forms.

Does not own: the expansion and flattening of chains, which both requests leave to the host.
-/

namespace PromptBlocks

open Json (Origin Fault membersIn)

namespace SequenceSource

open RecordCodec

/-- The names under which arguments give a sequence. -/
def isField (key : String) : Bool :=
  ["tokens", "chains", "dsl", "policy"].contains key

/-- The members that give a sequence. -/
def sourceMembers (members : List (String × Json)) : List (String × Json) :=
  members.filter fun member => isField member.1

/-- The members that hold further arguments. -/
def otherMembers (members : List (String × Json)) : List (String × Json) :=
  members.filter fun member => !isField member.1

theorem codec_fieldsAmong : codec.FieldsAmong ["policy", "dsl", "chains", "tokens"] :=
  (fieldsAmong_build SequenceSource.mk).field.field.field.field

theorem codec_skips (key : String) (other : isField key = false) : codec.Skips key := by
  refine codec_fieldsAmong key fun member => Bool.false_ne_true (other.symm.trans ?_)
  rw [isField, List.contains_iff_mem]
  exact List.mem_reverse.mp member

/-- All forms of a sequence but tokens are read alike after they were set aside. -/
theorem codec_keeps {member : String × Json} (noTokens : member.1 = "tokens" → member.2 = .null) :
    codec.Keeps member :=
  (keeps_build _ _)
    |>.field (fun isTokens => noTokens isTokens ▸ Wire.keeps_null_optional)
    |>.field (fun _ => Wire.keeps_optional (Wire.keeps_free _))
    |>.field (fun _ => Wire.keeps_optional (Wire.keeps_text _))
    |>.field (fun _ => Wire.keeps_optional (Wire.keeps_named _))

/-- The source that members give. -/
def ofMembers (origin : Origin) (members : List (String × Json)) : Except Fault SequenceSource :=
  codec.readMembers codec.start (membersIn origin members)

theorem ofMembers_sourceMembers (origin : Origin) (members : List (String × Json)) :
    ofMembers origin (sourceMembers members) = ofMembers origin members :=
  readMembers_filter codec_skips members

theorem ofMembers_setAside {members : List (String × Json)} {source : SequenceSource}
    (noTokens : ∀ value, ("tokens", value) ∈ members → value = .null)
    (reads : ofMembers .value members = .ok source) : ofMembers .setAside members = .ok source := by
  refine readMembers_setAside (fun member isMember => codec_keeps ?_) reads
  intro isTokens
  exact noTokens member.2 (isTokens ▸ isMember)

def ofTokens (sequence : Sequence) : SequenceSource :=
  { tokens := some sequence, chains := none, script := none, policy := none }

theorem restores_ofTokens (sequence : Sequence) :
    codec.Restores ["policy", "dsl", "chains", "tokens"] (ofTokens sequence) (ofTokens sequence) :=
  (restores_build (ofTokens sequence) SequenceSource.mk)
    |>.optional (by decide) (fun given isGiven => by
      obtain rfl := Option.some.inj isGiven
      exact ⟨Json.noConfusion, sequence.returns⟩)
    |>.optional (by decide) (fun _ isGiven => by cases isGiven)
    |>.optional (by decide) (fun _ isGiven => by cases isGiven)
    |>.optional (by decide) (fun _ isGiven => by cases isGiven)

/-- The tokens that a host writes are read as the sequence they were. -/
theorem ofMembers_tokens (sequence : Sequence) :
    ofMembers .setAside [("tokens", (Wire.write sequence).ordered)] = .ok (ofTokens sequence) :=
  (restores_ofTokens sequence).readMembers .ordered rfl (.refl _)

end SequenceSource

namespace CommandName

instance : Enumerated.Lawful CommandName :=
  ⟨fun name => by cases name <;> decide⟩

/-- The commands that read further arguments beside a sequence. -/
def readsSource : CommandName → Bool
  | .validate | .analyzePatterns | .suggestPatterns | .planFix => true
  | .renderPrompt | .generatePrompt | .writeScript => true
  | _ => false

/-- How a command reads its further arguments beside a source, and what it asks with both. -/
structure SourceReading (name : CommandName) where
  Extra : Type
  codec : RecordCodec Extra Extra
  names : List String
  among : codec.FieldsAmong names
  query : Extra → SequenceSource → Query
  apart : ∀ name ∈ names, SequenceSource.isField name = false := by decide
  reads : ∀ args, name.read args =
      (readWithSource codec args).map fun (extra, source) => .ask (query extra source) := by
    intro args
    rfl
  /-- The answer depends on the sequence that the source gives, and on nothing else of it. -/
  answers : ∀ (host : Host) extra (left right : SequenceSource),
      host.resolve left = host.resolve right →
        host.answer (query extra left) = host.answer (query extra right) := by
    intro host extra left right same
    simp only [Host.answer, same]

theorem SourceReading.skips {name : CommandName} (reading : SourceReading name) (key : String)
    (own : SequenceSource.isField key = true) : reading.codec.Skips key :=
  reading.among key fun member => Bool.false_ne_true ((reading.apart key member).symm.trans own)

section Extras

open RecordCodec

theorem localeCodec_fieldsAmong : localeCodec.FieldsAmong ["locale"] :=
  (fieldsAmong_build _).field

theorem validateCodec_fieldsAmong : validateCodec.FieldsAmong ["displayLocale", "locale"] :=
  (fieldsAmong_build _).field.field

theorem suggestCodec_fieldsAmong : suggestCodec.FieldsAmong ["limit", "locale"] :=
  (fieldsAmong_build _).field.field

theorem planCodec_fieldsAmong : planCodec.FieldsAmong ["request", "locale"] :=
  (fieldsAmong_build _).field.field

end Extras

theorem exists_sourceReading {name : CommandName} (takes : name.readsSource = true) :
    Nonempty (SourceReading name) := by
  cases name with
  | validate =>
    exact ⟨{ Extra := _, codec := validateCodec, names := _, among := validateCodec_fieldsAmong
             query extra source := .validate source extra.1 extra.2 }⟩
  | analyzePatterns =>
    exact ⟨{ Extra := _, codec := localeCodec, names := _, among := localeCodec_fieldsAmong
             query locale source := .analyzePatterns source locale }⟩
  | suggestPatterns =>
    exact ⟨{ Extra := _, codec := suggestCodec, names := _, among := suggestCodec_fieldsAmong
             query extra source := .suggestPatterns source extra.1 extra.2 }⟩
  | planFix =>
    exact ⟨{ Extra := _, codec := planCodec, names := _, among := planCodec_fieldsAmong
             query extra source := .planFix source extra.1 extra.2 }⟩
  | renderPrompt =>
    exact ⟨{ Extra := _, codec := localeCodec, names := _, among := localeCodec_fieldsAmong
             query locale source := .renderPrompt source locale }⟩
  | generatePrompt =>
    exact ⟨{ Extra := _, codec := localeCodec, names := _, among := localeCodec_fieldsAmong
             query locale source := .generatePrompt source locale }⟩
  | writeScript =>
    exact ⟨{ Extra := _, codec := localeCodec, names := _, among := localeCodec_fieldsAmong
             query locale source := .writeScript source locale }⟩
  | _ => cases takes

theorem readWithSource_object {Extra : Type} (codec : RecordCodec Extra Extra)
    (members : List (String × Json)) :
    readWithSource codec (.object members) =
      (codec.readMembers codec.start (membersIn .value members)).bind fun extra =>
        (SequenceSource.ofMembers .setAside members).map fun source => (extra, source) := by
  show codec.readShared SequenceSource.codec (Json.toDocument (.object members)) = _
  rw [Json.toDocument_eq]
  show (codec.readMembers codec.start (membersIn .value members)).bind (fun first =>
    ((membersIn .value members).setAside).bind fun kept =>
      (SequenceSource.codec.readMembers SequenceSource.codec.start kept).bind fun second =>
        .ok (first, second)) = _
  rw [Json.setAside_membersIn rfl]
  rfl

end CommandName

namespace Host

open CommandName SequenceSource

variable {host : Host}

theorem commandOf_object (name : CommandName) (id : Json) (members : List (String × Json)) :
    commandOf { id, command := Enumerated.id name, args := .object members } =
      (name.read (.object members)).mapError fun fault => .invalidArguments (.record fault) := by
  unfold commandOf
  rw [Enumerated.Lawful.ofId?_id]

/-- Tokens that a host gives were written from the sequence that the arguments give. -/
theorem exists_of_linearized {id tokens : Json} {members : List (String × Json)}
    (linearized : (host.serve
        { id, command := Enumerated.id CommandName.linearize, args := .object members }).2.toJson =
      .object [("id", id), ("ok", .bool true), ("result", tokens)]) :
    ∃ source sequence, ofMembers .value members = .ok source ∧
      host.resolve source = .ok sequence ∧ tokens = (Wire.write sequence).ordered := by
  rcases host.serve_cases _ with
    ⟨command, changed, result, asked, performed, outcome⟩ | ⟨error, outcome⟩
  · rw [outcome, Response.toJson_success] at linearized
    rw [commandOf_object] at asked
    obtain ⟨source, reads, rfl⟩ := exists_of_map_eq_ok (eq_ok_of_mapError_eq_ok asked)
    obtain ⟨-, answered⟩ := Prod.mk.inj performed
    obtain ⟨sequence, resolved, written⟩ := exists_of_bind_eq_ok answered
    refine ⟨source, sequence, ?_, resolved, ?_⟩
    · rw [Json.toDocument_eq] at reads
      exact reads
    · obtain rfl := Except.ok.inj written
      have shown := Json.object.inj linearized
      simp only [List.cons.injEq, Prod.mk.injEq] at shown
      exact shown.2.2.1.2.symm
  · rw [outcome, Response.toJson_failure] at linearized
    cases linearized

/-- Requests with the same further arguments are served alike when their sources give one
sequence. -/
theorem serve_eq_of_resolve_eq {name : CommandName} (reading : SourceReading name) (id : Json)
    {left right : List (String × Json)} {leftSource rightSource : SequenceSource}
    (sameOthers : otherMembers left = otherMembers right)
    (leftReads : ofMembers .setAside left = .ok leftSource)
    (rightReads : ofMembers .setAside right = .ok rightSource)
    (sameResolved : host.resolve leftSource = host.resolve rightSource) :
    host.serve { id, command := Enumerated.id name, args := .object left } =
      host.serve { id, command := Enumerated.id name, args := .object right } := by
  have skips : ∀ key, (!isField key) = false → reading.codec.Skips key := fun key own =>
    reading.skips key (by simpa using own)
  have sameExtra : reading.codec.readMembers reading.codec.start (membersIn .value left) =
      reading.codec.readMembers reading.codec.start (membersIn .value right) := by
    rw [← RecordCodec.readMembers_filter skips left, ← RecordCodec.readMembers_filter skips right]
    exact congrArg (fun others => reading.codec.readMembers _ (membersIn .value others)) sameOthers
  have sameRun :
      host.after (Request.run { id, command := Enumerated.id name, args := .object left }) =
        host.after (Request.run { id, command := Enumerated.id name, args := .object right }) := by
    rw [after_run, after_run, commandOf_object, commandOf_object, reading.reads, reading.reads,
      readWithSource_object, readWithSource_object, sameExtra, leftReads, rightReads]
    cases reading.codec.readMembers reading.codec.start (membersIn .value right) with
    | error fault => rfl
    | ok extra =>
      show host.perform (.ask (reading.query extra leftSource)) =
        host.perform (.ask (reading.query extra rightSource))
      rw [perform_ask, perform_ask, reading.answers host extra _ _ sameResolved]
  unfold serve
  rw [sameRun]

/-- A request is served alike, in success and in failure, when its sequence comes in stages and when
it comes as the tokens that the host makes of these stages.  `staged` gives it as chains with a policy
or as a script, `direct` as tokens, and both hold the same further arguments. -/
theorem staged_eq_direct (host : Host) (name : CommandName) (takes : name.readsSource = true)
    (id askedId tokens : Json) (asked staged direct : List (String × Json))
    (noTokens : ∀ value, ("tokens", value) ∈ staged → value = .null)
    (sameSource : sourceMembers asked = sourceMembers staged)
    (linearized : (host.serve
        { id := askedId
          command := Enumerated.id CommandName.linearize
          args := .object asked }).2.toJson =
      .object [("id", askedId), ("ok", .bool true), ("result", tokens)])
    (replaced : sourceMembers direct = [("tokens", tokens)])
    (sameOthers : otherMembers staged = otherMembers direct) :
    host.serve { id, command := Enumerated.id name, args := .object staged } =
      host.serve { id, command := Enumerated.id name, args := .object direct } := by
  obtain ⟨reading⟩ := exists_sourceReading takes
  obtain ⟨source, sequence, reads, resolved, rfl⟩ := exists_of_linearized linearized
  have stagedReads : ofMembers .setAside staged = .ok source := by
    refine ofMembers_setAside noTokens ?_
    rw [← ofMembers_sourceMembers, ← sameSource, ofMembers_sourceMembers, reads]
  have directReads : ofMembers .setAside direct = .ok (ofTokens sequence) := by
    rw [← ofMembers_sourceMembers, replaced, ofMembers_tokens]
  exact serve_eq_of_resolve_eq reading id sameOthers stagedReads directReads resolved

/-- The second head is isolated and does not count; positions and chains come with the tokens. -/
theorem staged_eq_direct_of_connected_heads :
    ((⟨Settings.standard, .builtin, Shelf.empty⟩ : Host).serve
        { id := .null
          command := "linearize"
          args := .object
            [("chains", .array
                [.object
                  [("next", .object [("type", .string "promps_verb_create")]),
                    ("text", .string "cat"), ("type", .string "promps_noun")],
                  .object [("type", .string "promps_noun")]]),
              ("policy", .string "connectedOnly")] }).2.toJson =
        .object
          [("id", .null), ("ok", .bool true),
            ("result", .array
              [.object
                [("blockType", .string "promps_noun"), ("chain", .natural 0),
                  ("position", .natural 0), ("text", .string "cat")],
                .object
                  [("blockType", .string "promps_verb_create"), ("chain", .natural 0),
                    ("position", .natural 1)]])] ∧
      (⟨Settings.standard, .builtin, Shelf.empty⟩ : Host).serve
          { id := .natural 1
            command := "to_dsl"
            args := .object
              [("chains", .array
                  [.object
                    [("next", .object [("type", .string "promps_verb_create")]),
                      ("text", .string "cat"), ("type", .string "promps_noun")],
                    .object [("type", .string "promps_noun")]]),
                ("locale", .string "en"), ("policy", .string "connectedOnly")] } =
        (⟨Settings.standard, .builtin, Shelf.empty⟩ : Host).serve
          { id := .natural 1
            command := "to_dsl"
            args := .object
              [("locale", .string "en"),
                ("tokens", .array
                  [.object
                    [("blockType", .string "promps_noun"), ("chain", .natural 0),
                      ("position", .natural 0), ("text", .string "cat")],
                    .object
                      [("blockType", .string "promps_verb_create"), ("chain", .natural 0),
                        ("position", .natural 1)]])] } := by
  refine (fun linearized => And.intro linearized
    (staged_eq_direct _ .writeScript rfl _ .null _ _ _ _ ?_ ?_ linearized ?_ ?_)) rfl
  · simp
  · rfl
  · rfl
  · rfl

end Host

end PromptBlocks
