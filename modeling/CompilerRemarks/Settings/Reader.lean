/-
  CompilerRemarks.Settings.Reader

  Reading settings from a configuration file. Settings that are left out
  have their defaults, unknown ones are ignored, and one of the wrong type
  spoils the whole configuration.
-/
import CompilerRemarks.Settings.Basic
import CompilerRemarks.Toml.Reader
import CompilerRemarks.Json.Basic
import CompilerRemarks.Failure

namespace CompilerRemarks

/-- How the values of a configuration format are read. -/
structure Settings.Format (α : Type) where
  string? : α → Option String
  natural? : α → Option Nat
  items? : α → Option (List α)
  /-- The name picked out of an enumeration. -/
  choice? : α → Option String
  /-- Whether the value stands for a setting that is switched off. -/
  isOff : α → Bool

namespace Settings

/-! ## One setting -/

/-- The value of a setting, or its default. -/
def valueOr {α β : Type} (read? : α → Option β) (default : β) : Option α → Option β
  | none => some default
  | some v => read? v

namespace Format

variable {α : Type} (f : Format α)

/-- A list of strings. -/
def strings? (v : α) : Option (List String) :=
  (f.items? v).bind (·.mapM f.string?)

/-- A value that may be switched off. -/
def orOff {β : Type} (read? : α → Option β) (v : α) : Option (Option β) :=
  if f.isOff v then some none else (read? v).map some

end Format

/-! ## All settings -/

/-- The settings of a configuration, given its value for each name. -/
def ofLookup? {α : Type} (f : Format α) (get? : String → Option α) : Option Settings := do
  let default : Settings := {}
  return {
    shell := ← valueOr f.string? default.shell (get? "shell")
    recordFlags := ← valueOr f.strings? default.recordFlags (get? "record_flags")
    timeout := ← valueOr (f.orOff f.natural?) default.timeout (get? "timeout_secs")
    buildMarkers := ← valueOr f.strings? default.buildMarkers (get? "build_dir_markers")
    databaseDirectory :=
      ← valueOr (f.orOff fun v => (f.string? v).map Path.mk) default.databaseDirectory
        (get? "compile_commands_dir")
    sourceEndings := ← valueOr f.strings? default.sourceEndings (get? "source_extensions")
    locator :=
      ← valueOr (fun v => (f.choice? v).bind Locator.ofName?) default.locator (get? "locator")
    astTool := ← valueOr f.string? default.astTool (get? "ast_tool") }

/-- TOML has no way to switch a setting off. -/
def tomlFormat : Format Toml :=
  ⟨Toml.string?, Toml.natural?, Toml.array?, Toml.choice?, fun _ => false⟩

/-- The name that a JSON value picks: a string, or the only member of an
    object where that member is `null`. -/
def jsonChoice? : Json → Option String
  | .string s => some s
  | .object [(name, .null)] => some name
  | _ => none

/-- In JSON, `null` switches a setting off. -/
def jsonFormat : Format Json :=
  ⟨Json.string?, Json.natural?, Json.array?, jsonChoice?, Json.isNull⟩

/-- The settings of a TOML document. -/
def ofToml? (t : Toml) : Option Settings :=
  ofLookup? tomlFormat t.get?

/-- The names of the settings, in order. -/
def names : List String :=
  ["shell", "record_flags", "timeout_secs", "build_dir_markers", "compile_commands_dir",
    "source_extensions", "locator", "ast_tool"]

/-- The settings of a JSON value: an object, or a list of values in the order
    of the names. -/
def ofJson? (j : Json) : Option Settings :=
  match j with
  | .object _ => ofLookup? jsonFormat j.get?
  | .array items =>
    if items.length ≤ names.length then
      ofLookup? jsonFormat fun name => (names.zip items).lookup name
    else none
  | _ => none

/-- The settings as a JSON object. -/
def toJson (s : Settings) : Json :=
  let strings (items : List String) : Json := .array (items.map .string)
  .object [
    ("shell", .string s.shell),
    ("record_flags", strings s.recordFlags),
    ("timeout_secs", (s.timeout.map Json.nat).getD .null),
    ("build_dir_markers", strings s.buildMarkers),
    ("compile_commands_dir", (s.databaseDirectory.map fun p => Json.string p.text).getD .null),
    ("source_extensions", strings s.sourceEndings),
    ("locator", .string s.locator.name),
    ("ast_tool", .string s.astTool)]

/-! ## Files -/

/-- The settings in a file. -/
def load (files : Files) (p : Path) : Except Failure Settings :=
  match files.readText p with
  | .error e => .error (.file e)
  | .ok text =>
    match (Toml.ofChars? text).bind ofToml? with
    | none => .error .toml
    | some s =>
      match s.problem? with
      | some why => .error (.settings why)
      | none => .ok s

/-- The name of the configuration file of a workspace. -/
def fileName : Path := ⟨".optinfo.toml"⟩

/-- The settings of a workspace: those in its configuration file, or the
    defaults where it has none. -/
def loadWorkspace (files : Files) (root : Path) : Except Failure Settings :=
  let p := root.join fileName
  if files.isFile p then load files p else .ok {}

end Settings

end CompilerRemarks
