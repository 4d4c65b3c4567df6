import HistoryKeeper.CommandLine.Arguments

/-!
# Help

The pages that explain the program and its commands. Names stand in a column with their explanation
beside them. The options of the program have long names, so their explanations stand below.
-/

namespace HistoryKeeper.CommandLine

/-- An entry of a section: what is explained, and how. -/
structure Entry where
  term : String
  explanation : String

/-- Entries in two columns. -/
def columns (entries : List Entry) : List String :=
  let width := entries.foldl (fun w e => max w e.term.length) 0
  entries.map fun e =>
    let gap := String.ofList (List.replicate (width + 2 - e.term.length) ' ')
    "  " ++ e.term ++ gap ++ e.explanation

/-- Entries with the explanation on a line of its own. -/
def stacked (entries : List Entry) : List String :=
  entries.flatMap fun e => ["  " ++ e.term, "          " ++ e.explanation]

namespace Topic

def about : Topic → String
  | program => "Inspect and hold a task history cache"
  | get => "Print a value; exits with status 2 when the key is absent"
  | put => "Store a value"
  | remove => "Remove a key"
  | hold => "Keep the store open and idle so the lock release can be observed"
  | help => "Print this message or the help of the given subcommand(s)"

def usage : Topic → String
  | program => "history-cache [OPTIONS] <COMMAND>"
  | hold => "history-cache hold [OPTIONS]"
  | help => "history-cache help [COMMAND]..."
  | t => "history-cache " ++ t.name ++ String.join (t.values.map fun v => " <" ++ v ++ ">")

def helpEntry : Entry := ⟨"-h, --help", "Print help"⟩

/-- The sections of a page, each with its heading. -/
def sections : Topic → List (List String)
  | program =>
    ["Commands:" :: columns (all.map fun t => ⟨t.name, t.about⟩),
     "Options:" :: stacked
      [⟨"-d, --dir <DIR>", "Store directory [default: .history]"⟩,
       ⟨"-c, --config <CONFIG>", "Path to a TOML config file"⟩,
       ⟨"    --unlock-interval-ms <UNLOCK_INTERVAL_MS>",
        "Override the idle time before the store lock is released"⟩,
       ⟨"    --stats", "Print the actor summary when done"⟩,
       ⟨"-v, --verbose", "Debug logging (ignored when RUST_LOG is set)"⟩,
       helpEntry,
       ⟨"-V, --version", "Print version"⟩]]
  | hold =>
    ["Options:" :: columns [⟨"    --seconds <SECONDS>", "[default: 10]"⟩, helpEntry]]
  | help => ["Arguments:" :: columns [⟨"[COMMAND]...", "Print help for the subcommand(s)"⟩]]
  | t =>
    ["Arguments:" :: columns (t.values.map fun v => ⟨"<" ++ v ++ ">", ""⟩),
     "Options:" :: columns [helpEntry]]

/-- The page of a topic. -/
def page (t : Topic) : String :=
  let lines := [t.about, "", "Usage: " ++ t.usage] ++ t.sections.flatMap ("" :: ·)
  String.join (lines.map (· ++ "\n"))

end Topic

def versionLine : String := "history-cache 0.1.0\n"

end HistoryKeeper.CommandLine
