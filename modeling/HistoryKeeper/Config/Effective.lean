import HistoryKeeper.Config.Merge
import HistoryKeeper.Config.Settings
import HistoryKeeper.Number.Digits
import HistoryKeeper.Text.Blank
import HistoryKeeper.Text.Pieces
import HistoryKeeper.Text.Sha256
import HistoryKeeper.Toml.Document

/-!
# Effective configuration

A configuration is merged from up to four layers, the later ones over the earlier: the defaults, a
TOML file, the environment and the command line. It keeps where each layer came from.
-/

namespace HistoryKeeper

inductive Layer.Origin where
  | builtin
  | file
  | environment
  | commandLine
  deriving DecidableEq, Repr

/-- Where a layer came from: the path or the name of the variable, and the digest of a file. -/
structure Layer.Source where
  origin : Layer.Origin
  path : Option String
  digest : Option String
  deriving DecidableEq, Repr

structure Layer where
  value : Json
  source : Layer.Source
  deriving Repr

/-- What a configuration is built from. -/
structure ConfigInputs where
  /-- The configuration file to read. -/
  file : Option Path
  /-- The value of the environment variable `unlockIntervalVariable`, if it is set. -/
  environment : Option String
  /-- The layer of the command line, if there is one. -/
  overrides : Option Json
  deriving Repr

structure Config where
  value : Json
  sources : List Layer.Source
  deriving Repr

namespace Layer

def builtin : Layer :=
  { value := Settings.defaultLayer
    source := { origin := .builtin, path := none, digest := none } }

/-- The layer of a file's content. -/
def ofContent (path : Path) (content : Bytes) : Except ConfigError Layer :=
  match Utf8.decode content with
  | .error fault => .error (.notUtf8 fault)
  | .ok text =>
    match Toml.parse text with
    | none => .error .notToml
    | some v =>
      .ok
        { value := v.toJson
          source :=
            { origin := .file
              path := some path.text
              digest := some (Sha256.hex content) } }

def ofFile (path : Path) (d : Disk) : Except ConfigError Layer :=
  match d.read path with
  | .error fault => .error (.unreadable path fault)
  | .ok content => ofContent path content

/-- The layer that sets only the unlock interval. -/
def unlockInterval (millis : Nat) : Json :=
  .object [("actor", .object [("unlock_interval_ms", .ofNat millis)])]

/-- The layer of the environment variable; blanks around its number do not matter. -/
def ofVariable (raw : String) : Except ConfigError Layer :=
  match Digits.natural64? (Text.trimChars raw.toList) with
  | none => .error (.badVariable raw)
  | some millis =>
    .ok
      { value := unlockInterval millis
        source := { origin := .environment, path := some unlockIntervalVariable, digest := none } }

def ofOverrides (value : Json) : Layer :=
  { value
    source := { origin := .commandLine, path := none, digest := none } }

end Layer

namespace Config

/-- What every configuration has to keep to, as far as the settings have their types. -/
def validate (value : Json) : Except ConfigError Unit := do
  let setting (name : String) : Option Json := (value.get? "actor").bind (·.get? name)
  if let some millis := (setting "unlock_interval_ms").bind Json.natural? then
    if longestUnlockInterval < millis then throw .unlockIntervalTooLong
  if let some millis := (setting "lock_timeout_ms").bind Json.natural? then
    if millis = 0 then throw .lockTimeoutZero
  if let some name := (setting "thread_name").bind Json.string? then
    if Text.isBlankText name then throw .threadNameBlank

/-- The layers in order. The file is read before the variable is looked at. -/
def layers (inputs : ConfigInputs) (d : Disk) : Except ConfigError (List Layer) := do
  let file ←
    match inputs.file with
    | some path => pure [← Layer.ofFile path d]
    | none => pure []
  let environment ←
    match inputs.environment with
    | some raw => pure [← Layer.ofVariable raw]
    | none => pure []
  let commandLine := inputs.overrides.toList.map Layer.ofOverrides
  return [Layer.builtin] ++ file ++ environment ++ commandLine

def build (inputs : ConfigInputs) (d : Disk) : Except ConfigError Config := do
  let layers ← layers inputs d
  let value := Json.mergeLayers (layers.map (·.value))
  validate value
  return { value, sources := layers.map (·.source) }

/-- The settings of the `actor` table. -/
def settings (c : Config) : Except ConfigError Settings :=
  match Settings.ofJson ((c.value.get? "actor").getD .null) with
  | .ok s => .ok s
  | .error fault => .error (.badActorTable fault)

/-- The value at a path of names with dots between them. -/
def get? (c : Config) (path : String) : Option Json :=
  c.value.getPath? ((Text.pieces '.' path.toList).map String.ofList)

end Config

end HistoryKeeper
