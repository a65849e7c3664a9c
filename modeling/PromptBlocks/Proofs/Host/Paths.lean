import PromptBlocks.Host.Files
import PromptBlocks.Proofs.Text.Encoding

/-!
Contract: what directories and the paths within them have in common.

Owns:
- the directory of an absolute path is absolute, and so is what lies within it;
- the parts of a path, which make it up again;
- the directory of a path that is text is text, and so are the texts within it.

Does not own: what is found at a path.
-/

namespace PromptBlocks.FilePath

open Text (IsEncoding isEncoding_append_cons)

/-! ### Absolute paths -/

section Absolute

variable {path directory : FilePath} {names : List (List UInt8)}

theorem isAbsolute_append {front : List UInt8} (absolute : isAbsolute { bytes := front } = true)
    (back : List UInt8) : isAbsolute { bytes := front ++ back } = true := by
  cases front with
  | nil => cases absolute
  | cons byte rest => exact absolute

theorem isAbsolute_ofParts_nil_cons (someNames : names ≠ []) :
    (ofParts ([] :: names)).isAbsolute = true := by
  obtain ⟨name, later, rfl⟩ := List.exists_cons_of_ne_nil someNames
  rw [isAbsolute, ofParts, List.intercalate_cons_cons]
  rfl

theorem isAbsolute_directoryBelowRoot (lies : directoryBelowRoot? names = some directory) :
    directory.isAbsolute = true := by
  rw [directoryBelowRoot?] at lies
  split at lies
  · cases lies
  · split at lies
    · obtain rfl := Option.some.inj lies
      rfl
    next someNames =>
      obtain rfl := Option.some.inj lies
      exact isAbsolute_ofParts_nil_cons someNames

/-- What lies below the root lies in a directory whose path starts at the root. -/
theorem isAbsolute_of_directory? (absolute : path.isAbsolute = true)
    (lies : path.directory? = some directory) : directory.isAbsolute = true := by
  rw [directory?] at lies
  split at lies
  · cases lies
  · rw [if_pos absolute] at lies
    exact isAbsolute_directoryBelowRoot lies

theorem isAbsolute_within (absolute : directory.isAbsolute = true) (path : FilePath) :
    (directory.within path).isAbsolute = true := by
  rw [within]
  split_ifs with isRoot atSlash
  · exact isRoot
  · exact isAbsolute_append absolute path.bytes
  · exact isAbsolute_append absolute (slash :: path.bytes)

theorem within_of_isAbsolute (absolute : path.isAbsolute = true) (directory : FilePath) :
    directory.within path = path :=
  if_pos absolute

end Absolute

/-! ### Parts -/

section Parts

variable {names : List (List UInt8)} {name : List UInt8}

theorem parts_ne_nil (bytes : List UInt8) : parts bytes ≠ [] := by
  cases bytes with
  | nil => simp [parts]
  | cons byte rest =>
    rw [parts]
    split
    · simp
    · split <;> simp

/-- The parts of a path with slashes between them are the path. -/
theorem intercalate_parts (bytes : List UInt8) : List.intercalate [slash] (parts bytes) = bytes := by
  induction bytes with
  | nil => rfl
  | cons byte rest inductionHypothesis =>
    obtain ⟨part, later, split⟩ := List.exists_cons_of_ne_nil (parts_ne_nil rest)
    rw [split] at inductionHypothesis
    rw [parts, split]
    by_cases isSlash : byte = slash
    · simp [isSlash, inductionHypothesis]
    · simp only [beq_iff_eq, isSlash, if_false]
      cases later with
      | nil => simpa using inductionHypothesis
      | cons next others => simpa using inductionHypothesis

theorem mem_of_mem_dropIdle (member : name ∈ dropIdle names) : name ∈ names := by
  rw [dropIdle, List.mem_reverse] at member
  exact List.mem_reverse.mp ((List.dropWhile_sublist _).mem member)

end Parts

/-! ### Paths that are texts -/

section Spelled

variable {path directory : FilePath} {names : List (List UInt8)}

theorem isSome_text?_iff : path.text?.isSome = true ↔ IsEncoding path.bytes :=
  Text.isSome_ofBytes?_iff

theorem text?_ofText (text : String) : (ofText text).text? = some text :=
  Text.ofBytes?_eq_some_iff.mpr rfl

theorem ofText_display (spelled : path.text?.isSome = true) : ofText path.display = path := by
  obtain ⟨text, isText⟩ := Option.isSome_iff_exists.mp spelled
  rw [display, Text.shown_of_ofBytes?_eq_some isText, ofText, Text.ofBytes?_eq_some_iff.mp isText]

/-- Slashes divide texts into texts. -/
theorem isEncoding_intercalate_iff :
    IsEncoding (List.intercalate [slash] names) ↔ ∀ name ∈ names, IsEncoding name := by
  induction names with
  | nil => simpa using ⟨[], rfl⟩
  | cons name later inductionHypothesis =>
    cases later with
    | nil => simp
    | cons next others =>
      rw [List.intercalate_cons_cons, List.append_assoc, List.singleton_append,
        isEncoding_append_cons (by decide), inductionHypothesis]
      simp

theorem isEncoding_ofParts (spelled : ∀ name ∈ names, IsEncoding name) :
    IsEncoding (ofParts names).bytes :=
  isEncoding_intercalate_iff.mpr spelled

theorem isEncoding_directoryBelowRoot (spelled : ∀ name ∈ names, IsEncoding name)
    (lies : directoryBelowRoot? names = some directory) : IsEncoding directory.bytes := by
  rw [directoryBelowRoot?] at lies
  split at lies
  · cases lies
  · split at lies
    · obtain rfl := Option.some.inj lies
      exact ⟨['/'], rfl⟩
    · obtain rfl := Option.some.inj lies
      refine isEncoding_ofParts (List.forall_mem_cons.mpr ⟨⟨[], rfl⟩, fun name member => ?_⟩)
      exact spelled name (mem_of_mem_dropIdle ((List.dropLast_sublist _).mem (mem_of_mem_dropIdle member)))

theorem isEncoding_directoryOfRelative (spelled : ∀ name ∈ names, IsEncoding name)
    (lies : directoryOfRelative? names = some directory) : IsEncoding directory.bytes := by
  simp only [directoryOfRelative?] at lies
  split at lies
  · split at lies
    · cases lies
    · obtain rfl := Option.some.inj lies
      exact ⟨[], rfl⟩
  · obtain rfl := Option.some.inj lies
    refine isEncoding_ofParts (List.forall_mem_append.mpr ⟨fun name member => ?_, fun name member => ?_⟩)
    · exact spelled name ((List.takeWhile_sublist _).mem (List.mem_of_mem_take member))
    · exact spelled name (List.mem_of_mem_drop
        (mem_of_mem_dropIdle ((List.dropLast_sublist _).mem (mem_of_mem_dropIdle member))))

/-- A path that is text lies in a directory that is. -/
theorem isEncoding_directory (spelled : IsEncoding path.bytes)
    (lies : path.directory? = some directory) : IsEncoding directory.bytes := by
  have spelledParts : ∀ name ∈ parts path.bytes, IsEncoding name := by
    rwa [← isEncoding_intercalate_iff, intercalate_parts]
  rw [directory?] at lies
  split at lies
  · cases lies
  next first later split =>
    rw [split] at spelledParts
    split at lies
    · exact isEncoding_directoryBelowRoot (List.forall_mem_cons.mp spelledParts).2 lies
    · exact isEncoding_directoryOfRelative spelledParts lies

theorem isEncoding_within (isDirectory : IsEncoding directory.bytes) (isPath : IsEncoding path.bytes) :
    IsEncoding (directory.within path).bytes := by
  rw [within]
  split_ifs
  · exact isPath
  · exact isDirectory.append isPath
  · exact (isEncoding_append_cons (by decide)).mpr ⟨isDirectory, isPath⟩

end Spelled

end PromptBlocks.FilePath
