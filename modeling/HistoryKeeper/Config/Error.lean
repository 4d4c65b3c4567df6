import HistoryKeeper.Disk.Basic
import HistoryKeeper.Json.Fault

/-!
# Configuration errors

Why a configuration cannot be used. Each cause is of one of three kinds, which begin its message.
-/

namespace HistoryKeeper

/-- The environment variable that sets the unlock interval, in milliseconds. -/
def unlockIntervalVariable : String := "HISTORY_CACHE_UNLOCK_INTERVAL_MS"

/-- The longest unlock interval that is accepted, in milliseconds: one hour. -/
def longestUnlockInterval : Nat := 3600000

namespace ConfigError

inductive Kind where
  | io
  | parse
  | validation
  deriving DecidableEq, Repr

def Kind.label : Kind → String
  | io => "IO error: "
  | parse => "Parse error: "
  | validation => "Validation error: "

end ConfigError

inductive ConfigError where
  | unreadable (path : Path) (fault : IoFault)
  | notUtf8 (fault : Utf8.Fault)
  | notToml
  | badVariable (raw : String)
  | badActorTable (fault : Json.Fault)
  | unlockIntervalTooLong
  | lockTimeoutZero
  | threadNameBlank
  | other (kind : ConfigError.Kind) (detail : String)
  deriving DecidableEq, Repr

namespace ConfigError

def kind : ConfigError → Kind
  | unreadable _ _ => .io
  | notUtf8 _ | notToml | badVariable _ | badActorTable _ => .parse
  | unlockIntervalTooLong | lockTimeoutZero | threadNameBlank => .validation
  | other kind _ => kind

def detail : ConfigError → String
  | unreadable path fault => path.text ++ ": " ++ fault.message
  | notUtf8 fault => "Invalid UTF-8: " ++ fault.message
  | notToml => "TOML parse error"
  | badVariable raw =>
    unlockIntervalVariable ++ " must be an integer, got " ++ Text.Quoted.text raw
  | badActorTable fault => "invalid [actor] table: " ++ fault.message
  | unlockIntervalTooLong =>
    "unlock_interval_ms must be at most " ++
      String.ofList (Decimal.digits longestUnlockInterval)
  | lockTimeoutZero => "lock_timeout_ms must be greater than 0"
  | threadNameBlank => "thread_name must not be empty"
  | other _ detail => detail

def message (e : ConfigError) : String :=
  e.kind.label ++ e.detail

end ConfigError

end HistoryKeeper
