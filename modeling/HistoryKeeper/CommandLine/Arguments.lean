import HistoryKeeper.Disk.Path
import HistoryKeeper.Number.Digits

/-!
# Arguments

The arguments of the command line: options of the program, the name of a command, options and values
of the command. `Invocation.parse` reads them, or says why it does not come to that: someone asked
for help or for the version, or the arguments are wrong.

An option has a long name, a short one, or both, and is given once at most. Its value is attached to
it or is the next argument. Short options can be joined, up to one that takes the rest as its value.
After two dashes every argument is a value of the command, whatever it looks like.

A value that was given as an argument of its own is only looked at when the next option is read, or
at the end; so a question for help that comes with the command goes before a wrong value.
-/

namespace HistoryKeeper

namespace CommandLine

/-- What there is help about. -/
inductive Topic where
  | program
  | get
  | put
  | remove
  | hold
  | help
  deriving DecidableEq, Repr

/-- Why nothing is run. -/
inductive Refusal where
  | usage
  | help (topic : Topic)
  | version
  deriving DecidableEq, Repr

inductive Flag where
  | dir
  | config
  | unlockInterval
  | stats
  | verbose
  | seconds
  | help
  | version
  deriving DecidableEq, Repr

namespace Flag

def takesValue : Flag → Bool
  | dir | config | unlockInterval | seconds => true
  | _ => false

/-- Whether a text can be the flag's value. -/
def admits : Flag → String → Bool
  | dir, s | config, s => !s.isEmpty
  | unlockInterval, s | seconds, s => (Digits.natural64? s.toList).isSome
  | _, _ => true

end Flag

namespace Topic

def all : List Topic :=
  [get, put, remove, hold, help]

def name : Topic → String
  | program => "history-cache"
  | get => "get"
  | put => "put"
  | remove => "remove"
  | hold => "hold"
  | help => "help"

/-- The command of a name. -/
def ofName? (s : String) : Option Topic :=
  all.find? (·.name = s)

/-- The values that a command takes. -/
def values : Topic → List String
  | get | remove => ["CACHE", "KEY"]
  | put => ["CACHE", "KEY", "VALUE"]
  | _ => []

/-- Long and short names of the options. -/
def options : Topic → List (String × Option Char × Flag)
  | program =>
    [("dir", some 'd', .dir),
     ("config", some 'c', .config),
     ("unlock-interval-ms", none, .unlockInterval),
     ("stats", none, .stats),
     ("verbose", some 'v', .verbose),
     ("help", some 'h', .help),
     ("version", some 'V', .version)]
  | hold => [("seconds", none, .seconds), ("help", some 'h', .help)]
  | _ => [("help", some 'h', .help)]

def long? (t : Topic) (name : String) : Option Flag :=
  (t.options.find? (·.1 = name)).map (·.2.2)

def short? (t : Topic) (c : Char) : Option Flag :=
  (t.options.find? (·.2.1 = some c)).map (·.2.2)

end Topic

/-! ### Options -/

/-- The options that were given so far. -/
structure Given where
  settled : List (Flag × String)
  /-- The last option, if its value was not attached to it, with the value once it is there. -/
  pending : Option (Flag × Option String)

namespace Given

def none : Given :=
  { settled := [], pending := .none }

/-- The value of an option. -/
def value? (g : Given) (flag : Flag) : Option String :=
  g.settled.lookup flag

/-- Take an option in: it must be new, and its value one that it admits. -/
def place (g : Given) (flag : Flag) (value : String) : Except Refusal Given :=
  if (g.value? flag).isSome || !flag.admits value then .error .usage
  else .ok { g with settled := g.settled ++ [(flag, value)] }

/-- Look at the last option. -/
def settle (g : Given) : Except Refusal Given :=
  match g.pending with
  | .none => .ok g
  | some (_, .none) => .error .usage
  | some (flag, some value) => { g with pending := .none }.place flag value

/-- Whether the last option still waits for its value. -/
def awaitsValue (g : Given) : Bool :=
  match g.pending with
  | some (_, .none) => true
  | _ => false

def giveValue (g : Given) (value : String) : Given :=
  { g with pending := g.pending.map fun (flag, _) => (flag, some value) }

/-- An option that needs no more. Help and version are answered at once. -/
def accept (t : Topic) (g : Given) (flag : Flag) (value : String) : Except Refusal Given := do
  let g ← g.settle
  match flag with
  | .help => throw (.help t)
  | .version => throw .version
  | flag => g.place flag value

/-- An option whose value is attached or still to come. -/
def acceptValued (t : Topic) (g : Given) (flag : Flag) (attached : Option String) :
    Except Refusal Given :=
  match attached with
  | some value => g.accept t flag value
  | .none => do return { (← g.settle) with pending := some (flag, .none) }

/-- An argument that begins with two dashes, which are left out here. -/
def acceptLong (t : Topic) (g : Given) (body : List Char) : Except Refusal Given :=
  let name := String.ofList (body.takeWhile (· ≠ '='))
  let attached :=
    match body.dropWhile (· ≠ '=') with
    | [] => Option.none
    | _ :: value => some (String.ofList value)
  match t.long? name with
  | .none => .error .usage
  | some flag =>
    if flag.takesValue then g.acceptValued t flag attached
    else if attached.isSome then .error .usage
    else g.accept t flag ""

/-- An argument that begins with one dash, which is left out here. -/
def acceptShort (t : Topic) : Given → List Char → Except Refusal Given
  | g, [] => .ok g
  | g, c :: cs =>
    match t.short? c with
    | .none => .error .usage
    | some flag =>
      if flag.takesValue then
        let attached :=
          match cs with
          | [] => Option.none
          | '=' :: value => some (String.ofList value)
          | value => some (String.ofList value)
        g.acceptValued t flag attached
      else do acceptShort t (← g.accept t flag "") cs

end Given

/-! ### Whole command lines -/

/-- The arguments after a command: its options and its values. -/
def readCommand (t : Topic) :
    (trailing : Bool) → Given → List String → List String → Except Refusal (Given × List String)
  | _, g, values, [] => do
    let g ← g.settle
    if values.length = t.values.length then return (g, values) else throw .usage
  | trailing, g, values, arg :: args =>
    match trailing, arg.toList with
    | false, ['-', '-'] => readCommand t true g values args
    | false, '-' :: '-' :: body => do readCommand t false (← g.acceptLong t body) values args
    | false, '-' :: c :: cs => do readCommand t false (← g.acceptShort t (c :: cs)) values args
    | _, _ =>
      if !trailing && g.awaitsValue then readCommand t trailing (g.giveValue arg) values args
      else if values.length < t.values.length then
        readCommand t trailing g (values ++ [arg]) args
      else .error .usage

/-- The arguments before the command, its name included. -/
def readProgram : Given → List String → Except Refusal (Given × Topic × List String)
  | _, [] => .error .usage
  | g, arg :: args =>
    match arg.toList, g.awaitsValue, Topic.ofName? arg with
    | _, false, some t => .ok (g, t, args)
    | ['-', '-'], _, _ => .error .usage
    | '-' :: '-' :: body, _, _ => do readProgram (← g.acceptLong .program body) args
    | '-' :: c :: cs, _, _ => do readProgram (← g.acceptShort .program (c :: cs)) args
    | _, true, _ => readProgram (g.giveValue arg) args
    | _, false, none => .error .usage

/-- What help is asked for after the word `help`. -/
def readHelp : List String → Refusal
  | [] => .help .program
  | [name] =>
    match Topic.ofName? name with
    | some t => .help t
    | none => .usage
  | _ => .usage

inductive Command where
  | get (cache key : String)
  | put (cache key value : String)
  | remove (cache key : String)
  /-- Stay idle for some seconds. -/
  | hold (seconds : UInt64)
  deriving DecidableEq, Repr

/-- A command and the options of the program. -/
structure Invocation where
  dir : Path
  config : Option Path
  /-- In milliseconds. -/
  unlockInterval : Option Nat
  stats : Bool
  verbose : Bool
  command : Command
  deriving DecidableEq, Repr

namespace Invocation

def defaultDir : Path := ⟨".history"⟩

def defaultSeconds : Nat := 10

def number? (g : Given) (flag : Flag) : Option Nat :=
  (g.value? flag).bind (Digits.natural64? ·.toList)

def commandOf (t : Topic) (g : Given) (values : List String) : Except Refusal Command :=
  match t, values with
  | .get, [cache, key] => .ok (.get cache key)
  | .put, [cache, key, value] => .ok (.put cache key value)
  | .remove, [cache, key] => .ok (.remove cache key)
  | .hold, [] => .ok (.hold ((number? g .seconds).getD defaultSeconds).toUInt64)
  | _, _ => .error .usage

def parse (args : List String) : Except Refusal Invocation := do
  let (g, t, rest) ← readProgram .none args
  if t = .help then throw (readHelp rest)
  let (own, values) ← readCommand t false .none [] rest
  let g ← g.settle
  return {
    dir := ((g.value? .dir).map Path.mk).getD defaultDir
    config := (g.value? .config).map Path.mk
    unlockInterval := number? g .unlockInterval
    stats := (g.value? .stats).isSome
    verbose := (g.value? .verbose).isSome
    command := ← commandOf t own values }

end Invocation

end CommandLine

end HistoryKeeper
