import PromptBlocks.Host.Settings
import PromptBlocks.Proofs.Host.Paths
import PromptBlocks.Proofs.Record.Extent
import PromptBlocks.Proofs.Record.Yields

/-!
Contract: settings that were loaded stay as they are when they are saved and loaded again.

Owns:
- the reading of written settings, and how deep they nest;
- what is known of settings that were read: their whole number fits 64 bits, and they have a text;
- the catalog of settings in a file below the root, whose path starts at the root;
- what saving does, and the file of loaded settings wherever it is saved.

Does not own: the catalog itself, and settings that were never loaded.
-/

namespace PromptBlocks

open RecordCodec

/-! ### Settings as records -/

instance : Enumerated.Lawful Locale :=
  ⟨fun locale => by cases locale <;> rfl⟩

instance : Enumerated.Lawful HeadPolicy :=
  ⟨fun policy => by cases policy <;> rfl⟩

theorem FilePath.returns {path : FilePath} (spelled : path.text?.isSome = true) : Wire.Returns path :=
  Wire.returns_of_isPlain rfl fun _ => congrArg Except.ok (FilePath.ofText_display spelled)

/-- A path that is read is the path of a text. -/
theorem FilePath.isSome_text?_of_read {document : Json.Document} {path : FilePath}
    (reads : (Wire.read document : Except Json.Fault FilePath) = .ok path) :
    path.text?.isSome = true := by
  obtain ⟨text, -, rfl⟩ := exists_of_map_eq_ok reads
  rw [FilePath.text?_ofText]
  rfl

/-- What programs rely on in a system of files: what was written at a path is found and read there, and
neither the root nor the empty path is a file. -/
structure FileSystem.Lawful {State : Type} (system : FileSystem State) : Prop where
  written : ∀ {before after path text}, (system.write path text).run.run before = (.ok (), after) →
    (system.files after).isThere path = true ∧ (system.files after).read path = .ok text
  noFile : ∀ {state path text}, path.directory? = none → (system.files state).read path ≠ .ok text

namespace Settings

variable {settings : Settings} {path : FilePath}

theorem isSpelled_iff :
    settings.isSpelled = true ↔
      ∀ catalog, settings.catalogPath = some catalog → catalog.text?.isSome = true := by
  rw [isSpelled]
  cases settings.catalogPath <;> simp

theorem restores (spelled : settings.isSpelled = true) :
    codec.Restores ["patternCatalog", "maxSuggestions", "linearizePolicy", "defaultLocale"]
      settings settings :=
  (restores_build settings Settings.mk)
    |>.defaulted (by decide) _ (Wire.returns_named settings.defaultLocale)
    |>.defaulted (by decide) _ (Wire.returns_named settings.headPolicy)
    |>.defaulted (by decide) _ (Wire.returns_natural settings.maxSuggestions)
    |>.optional (by decide) (fun catalog isCatalog =>
      ⟨Json.noConfusion, FilePath.returns (isSpelled_iff.mp spelled catalog isCatalog)⟩)

theorem returns (spelled : settings.isSpelled = true) : Wire.Returns settings :=
  fun arrangement _ held => (restores spelled).read arrangement held

theorem nesting_write (settings : Settings) : (Wire.write settings).nesting ≤ 1 :=
  ((each_build _ settings Settings.mk)
    |>.defaulted (Nat.zero_le 0)
    |>.defaulted (Nat.zero_le 0)
    |>.defaulted (Nat.zero_le 0)
    |>.optional (fun _ _ => Nat.zero_le 0)).nesting_write_le

theorem fitsWords_write (fits : settings.maxSuggestions < Number.naturalBound) :
    (Wire.write settings).fitsWords = true := by
  have suggestions : (Wire.write settings.maxSuggestions).fitsWords = true := decide_eq_true fits
  exact ((each_build (fun value => value.fitsWords = true) settings Settings.mk)
    |>.defaulted rfl
    |>.defaulted rfl
    |>.defaulted suggestions
    |>.optional (fun _ _ => rfl)).fitsWords_write

theorem readText_text (spelled : settings.isSpelled = true)
    (fits : settings.maxSuggestions < Number.naturalBound) :
    Json.readText Wire.read settings.text = .ok settings :=
  ((returns spelled).comesBack (fitsWords_write fits)
    (settings.nesting_write.trans (by decide))).pretty

/-- What is known of settings that were read: their whole number fits 64 bits, and the path of their
catalog is a text. -/
structure IsRead (settings : Settings) : Prop where
  fits : settings.maxSuggestions < Number.naturalBound
  spelled : settings.isSpelled = true

/-- Of the fields of settings only the number of suggestions and the path matter. -/
theorem yields_mk :
    (build Settings.mk : RecordCodec Settings _).Yields fun make =>
      ∀ locale, True → ∀ policy, True → ∀ count, count < Number.naturalBound →
        ∀ catalog : Option FilePath, (catalog.all fun path => path.text?.isSome) = true →
          (make locale policy count catalog).IsRead :=
  yields_build fun _ _ _ _ _ fits _ spelled => ⟨fits, spelled⟩

theorem isSpelled_of_read {document : Json.Document} {catalog : Option FilePath}
    (reads : (Wire.read document : Except Json.Fault (Option FilePath)) = .ok catalog) :
    (catalog.all fun path => path.text?.isSome) = true := by
  cases document with
  | null =>
    obtain rfl := Except.ok.inj reads
    rfl
  | _ =>
    obtain ⟨path, readPath, rfl⟩ := exists_of_map_eq_ok reads
    exact FilePath.isSome_text?_of_read readPath

theorem codec_yields : codec.Yields IsRead :=
  yields_mk
    |>.field (fun _ _ _ _ => trivial) (fun _ _ => trivial)
    |>.field (fun _ _ _ _ => trivial) (fun _ _ => trivial)
    |>.field (fun _ _ fits => Wire.lt_naturalBound fits) (fun _ isDefault => by
      obtain rfl := Option.some.inj isDefault
      decide)
    |>.field (fun _ _ _ => isSpelled_of_read) (fun _ isDefault => by
      obtain rfl := Option.some.inj isDefault
      rfl)

theorem isRead_of_readText {text : String} (reads : Json.readText Wire.read text = .ok settings) :
    settings.IsRead := by
  obtain ⟨document, fits, readDocument⟩ := Json.exists_of_readText reads
  exact codec_yields.read fits readDocument

/-! ### Loading -/

/-- Settings with no catalog, or with one whose path starts at the root. -/
def IsLocated (settings : Settings) : Prop :=
  ∀ catalog, settings.catalogPath = some catalog → catalog.isAbsolute = true

theorem locatedAt_of_isLocated (located : settings.IsLocated) (path : FilePath) :
    settings.locatedAt path = settings := by
  rw [locatedAt]
  split
  next catalog directory isCatalog _ =>
    rw [FilePath.within_of_isAbsolute (located catalog isCatalog), ← isCatalog]
  next => rfl

theorem catalogPath_locatedAt {directory : FilePath} (lies : path.directory? = some directory) :
    (settings.locatedAt path).catalogPath = settings.catalogPath.map directory.within := by
  rw [locatedAt, lies]
  cases named : settings.catalogPath with
  | none => exact named
  | some catalog => rfl

theorem isLocated_locatedAt (settings : Settings) {directory : FilePath}
    (absolute : path.isAbsolute = true) (lies : path.directory? = some directory) :
    (settings.locatedAt path).IsLocated := by
  intro catalog isCatalog
  rw [catalogPath_locatedAt lies] at isCatalog
  obtain ⟨relative, -, rfl⟩ := Option.map_eq_some_iff.mp isCatalog
  exact FilePath.isAbsolute_within (FilePath.isAbsolute_of_directory? absolute lies) relative

theorem isSpelled_locatedAt {directory : FilePath} (lies : path.directory? = some directory)
    (spelled : settings.isSpelled = true) (isText : path.text?.isSome = true) :
    (settings.locatedAt path).isSpelled = true := by
  refine isSpelled_iff.mpr fun catalog isCatalog => ?_
  rw [catalogPath_locatedAt lies] at isCatalog
  obtain ⟨relative, isRelative, rfl⟩ := Option.map_eq_some_iff.mp isCatalog
  have relativeText := FilePath.isSome_text?_iff.mp (isSpelled_iff.mp spelled relative isRelative)
  have directoryText := FilePath.isEncoding_directory (FilePath.isSome_text?_iff.mp isText) lies
  exact FilePath.isSome_text?_iff.mpr (FilePath.isEncoding_within directoryText relativeText)

theorem maxSuggestions_locatedAt (settings : Settings) (path : FilePath) :
    (settings.locatedAt path).maxSuggestions = settings.maxSuggestions := by
  rw [locatedAt]
  split <;> rfl

theorem ofText_text (located : settings.IsLocated) (isRead : settings.IsRead) (path : FilePath) :
    ofText path settings.text = .ok settings := by
  rw [ofText, readText_text isRead.spelled isRead.fits]
  exact congrArg Except.ok (locatedAt_of_isLocated located path)

/-- Loaded settings are those of a text, seen from the path of its file. -/
theorem exists_of_load {files : Files} (loaded : load files path = .ok settings) :
    ∃ (text : String) (raw : Settings), files.read path = .ok text ∧
      Json.readText Wire.read text = .ok raw ∧ raw.locatedAt path = settings := by
  rw [load] at loaded
  cases given : files.read path with
  | error fault =>
    rw [given] at loaded
    cases loaded
  | ok text =>
    rw [given] at loaded
    obtain ⟨raw, reads, located⟩ := exists_of_map_eq_ok (eq_ok_of_mapError_eq_ok loaded)
    exact ⟨text, raw, rfl, reads, located⟩

/-! ### Saving -/

section Saving

variable {State : Type} {system : FileSystem State}

theorem save_of_isSpelled (spelled : settings.isSpelled = true) (path : FilePath) :
    settings.save system path = (system.put path settings.text).adapt .file := by
  rw [FileSystem.put, adapt_bind, save, spelled]
  rfl

/-- Settings that no text tells are not saved, though their directory is made. -/
theorem save_of_not_isSpelled (unspelled : settings.isSpelled = false) (path : FilePath) :
    settings.save system path =
      (system.makeRoom path).adapt .file >>= fun () => throw .unspelled := by
  rw [save, unspelled]
  rfl

/-- Settings that were saved have a text, and it was written at last. -/
theorem exists_of_save {before after : State}
    (saved : (settings.save system path).run.run before = (.ok (), after)) :
    settings.isSpelled = true ∧
      ∃ ready, (system.write path settings.text).run.run ready = (.ok (), after) := by
  cases spelled : settings.isSpelled with
  | false =>
    rw [save_of_not_isSpelled spelled, run_bind] at saved
    split at saved
    · cases saved
    · cases saved
  | true =>
    refine ⟨rfl, ?_⟩
    rw [save_of_isSpelled spelled] at saved
    have written := run_eq_ok_of_adapt _ saved
    rw [FileSystem.put, run_bind] at written
    split at written
    next ready _ => exact ⟨ready, written⟩
    · cases written

end Saving

/-- Settings from a file below the root are the same after they were saved anywhere and loaded from
there, and their catalog, if they name one, is named from the root.  Where they have a text, saving them
is to make the directory and write the text, and fails only as these do; they have one when the path of
their own file is a text.  Settings whose catalog has a path that is none are never saved. -/
theorem reload_stable {State : Type} (system : FileSystem State) (lawful : system.Lawful)
    (found : State) (path : FilePath) (settings : Settings) (absolute : path.isAbsolute = true)
    (loaded : load (system.files found) path = .ok settings) :
    (∀ before after saved, (settings.save system saved).run.run before = (.ok (), after) →
      load (system.files after) saved = .ok settings ∧
        loadOrStandard (system.files after) saved = .ok settings) ∧
      (settings.isSpelled = true → ∀ saved,
        settings.save system saved = (system.put saved settings.text).adapt .file) ∧
      (path.text?.isSome = true → settings.isSpelled = true) ∧
      (settings.isSpelled = false → ∀ saved,
        settings.save system saved =
          (system.makeRoom saved).adapt .file >>= fun () => throw .unspelled) ∧
      (∀ catalog, settings.catalogPath = some catalog → catalog.isAbsolute = true) ∧
      ∀ elsewhere, settings.locatedAt elsewhere = settings := by
  obtain ⟨text, raw, given, reads, rfl⟩ := exists_of_load loaded
  have inDirectory : path.directory? ≠ none := fun isRoot => lawful.noFile isRoot given
  obtain ⟨directory, lies⟩ := Option.ne_none_iff_exists'.mp inDirectory
  have rawRead : raw.IsRead := isRead_of_readText reads
  have located : (raw.locatedAt path).IsLocated := raw.isLocated_locatedAt absolute lies
  have fits : (raw.locatedAt path).maxSuggestions < Number.naturalBound := by
    rw [maxSuggestions_locatedAt]
    exact rawRead.fits
  refine ⟨?_, fun spelled saved => save_of_isSpelled spelled saved,
    isSpelled_locatedAt lies rawRead.spelled,
    fun unspelled saved => save_of_not_isSpelled unspelled saved, located,
    locatedAt_of_isLocated located⟩
  intro before after saved succeeded
  obtain ⟨spelled, ready, wrote⟩ := exists_of_save succeeded
  obtain ⟨isThere, read⟩ := lawful.written wrote
  have again : load (system.files after) saved = .ok (raw.locatedAt path) := by
    rw [load, read]
    exact congrArg (Except.mapError LoadFault.text) (ofText_text located ⟨fits, spelled⟩ saved)
  refine ⟨again, ?_⟩
  rw [loadOrStandard, if_pos isThere, again]

/-- Files held by their paths, where every directory can be made. -/
def inMemory : FileSystem (FilePath → Option String) where
  files held :=
    { isThere := fun path => path.directory?.isNone || (held path).isSome
      read := fun path =>
        if path.directory?.isNone then .error .isDirectory
        else ((held path).map Except.ok).getD (.error .notFound) }
  makeDirectory _ := pure ()
  write path text :=
    if path.directory?.isNone then throw .isDirectory
    else modify fun held other => if other = path then some text else held other

theorem inMemory_lawful : inMemory.Lawful where
  written := by
    intro before after path text wrote
    cases lies : path.directory? with
    | none =>
      simp only [inMemory, lies, Option.isNone_none, if_true] at wrote
      cases wrote
    | some directory =>
      simp only [inMemory, lies, Option.isNone_some, Bool.false_eq_true, if_false] at wrote
      obtain ⟨-, rfl⟩ := Prod.mk.inj wrote
      simp [inMemory, lies]
  noFile := by
    intro held path text isRoot
    simp [inMemory, isRoot]

/-- A relative catalog is named from the root once it is loaded, and stays so in a copy. -/
theorem reload_stable_of_relative_catalog :
    let home : FilePath → Option String := fun path =>
      if path = "/etc/promps.json" then some "\x7b\"patternCatalog\": \"patterns.json\"\x7d" else none
    let settings := { standard with catalogPath := some "/etc/patterns.json" }
    load (inMemory.files home) "/etc/promps.json" = .ok settings ∧
      ∃ after, (settings.save inMemory "copies/promps.json").run.run home = (.ok (), after) ∧
        load (inMemory.files after) "copies/promps.json" = .ok settings := by
  intro home settings
  have loaded : load (inMemory.files home) "/etc/promps.json" = .ok settings := by decide +kernel
  obtain ⟨reloaded, -⟩ := reload_stable inMemory inMemory_lawful home _ settings (by decide) loaded
  have saved : ((settings.save inMemory "copies/promps.json").run.run home).1 = .ok () := by
    decide +kernel
  exact ⟨loaded, _, Prod.ext saved rfl, (reloaded home _ _ (Prod.ext saved rfl)).1⟩

/-- A relative catalog beside settings in a directory whose name is no text. -/
example :
    (load { isThere := fun _ => true, read := fun _ => .ok "\x7b\"patternCatalog\": \"a.json\"\x7d" }
      { bytes := [0x2f, 0xff, 0x2f, 0x63] }).map isSpelled = .ok false := by
  decide +kernel

end Settings

end PromptBlocks
