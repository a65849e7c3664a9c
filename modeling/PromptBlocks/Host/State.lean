import PromptBlocks.Host.Settings
import PromptBlocks.Record.Pattern
import PromptBlocks.Shelf.Expansion

/-!
Contract: what a host holds between requests.

Owns:
- where templates come from, and the loading of a catalog file, which never stops a host;
- the state of a host: settings, catalog and saved chains.

Does not own: requests.
-/

namespace PromptBlocks

inductive CatalogSource
  /-- The built-in catalog, in the language of the request. -/
  | builtin
  | custom (catalog : Catalog)
  /-- The catalog file could not be loaded, for this reason. -/
  | unavailable (reason : String)
  deriving Repr

namespace CatalogSource

/-- The catalog in a file; one that cannot be loaded is unavailable. -/
def load (files : Files) (path : FilePath) : CatalogSource :=
  match files.read path with
  | .error fault => .unavailable (path.display ++ ": I/O error: " ++ fault.message)
  | .ok text =>
    match Catalog.ofText text with
    | .error fault => .unavailable (path.display ++ ": " ++ fault.message)
    | .ok catalog => .custom catalog

end CatalogSource

structure Host where
  settings : Settings
  catalog : CatalogSource
  shelf : Shelf

namespace Host

/-- The state of a host that starts with settings: their catalog, and no saved chain. -/
def start (files : Files) (settings : Settings) : Host :=
  { settings
    catalog :=
      match settings.catalogPath with
      | none => .builtin
      | some path => CatalogSource.load files path
    shelf := Shelf.empty }

def localeOf (host : Host) (requested : Option Locale) : Locale :=
  requested.getD host.settings.defaultLocale

/-- The catalog for a language, or the reason why there is none. -/
def catalogFor (host : Host) (locale : Locale) : Except String Catalog :=
  match host.catalog with
  | .builtin => .ok (Catalog.builtin locale)
  | .custom catalog => .ok catalog
  | .unavailable reason => .error reason

end Host

end PromptBlocks
