import HistoryKeeper.Json.Reader
import HistoryKeeper.Store.Basic
import HistoryKeeper.Text.Base64

/-!
# Cache files

One cache is one file, a small JSON document with a version and the entries, values in base64:
`CacheFile.encode` and `CacheFile.decode` are the format. A cache file is loaded when it is first
used and written back when it is dirty. It is written beside its place first and then renamed, so
the file has its old or its new content at any time.
-/

namespace HistoryKeeper

/-- The entries of a cache. -/
abbrev Entries := Table String Bytes

structure CacheFile where
  path : Path
  /-- None until it is loaded. -/
  entries : Option Entries
  /-- The entries differ from the file. -/
  dirty : Bool
  deriving DecidableEq, Repr

namespace CacheFile

/-- The version of the format. -/
def version : Nat := 1

/-! ### The document -/

/-- A document as it is read; the values are still text. -/
structure Document where
  version : Nat
  values : Table String String
  deriving Repr

open Json (Reader)
open Json.Reader

def readVersion : Reader Nat :=
  natural Word.size32 "u32"

def readValues : Reader (Table String String) :=
  table (Json.Reader.string "a string") "a map"

/-- One field of a document, those read before it given. Other fields are passed over. -/
def readField (key : String) (seen : Option Nat × Option (Table String String)) :
    Reader (Option Nat × Option (Table String String)) := do
  let (version, values) := seen
  if key = "version" then
    if version.isSome then fail (.duplicateField key)
    colon
    return (some (← readVersion), values)
  else if key = "entries" then
    if values.isSome then fail (.duplicateField key)
    colon
    return (version, some (← readValues))
  else
    colon
    skipValue
    return seen

/-- A document is an object, or an array of the version and the entries. -/
def readDocument : Reader Document := do
  match ← head with
  | .openObject =>
    let (version, values) ← objectBody readField (none, none)
    let some version := version | fail (.missingField "version")
    let some values := values | fail (.missingField "entries")
    closeObject
    return { version, values }
  | .openArray =>
    let expected := "struct CacheFileContents with 2 elements"
    if !(← moreItems true) then fail (.invalidLength 0 expected)
    let version ← readVersion
    if !(← moreItems false) then fail (.invalidLength 1 expected)
    let values ← readValues
    closeArray
    return { version, values }
  | h => wrongType h "struct CacheFileContents"

/-- The values as bytes; the first one that is no base64 is the fault. -/
def decodeValues : Table String String → Except String Entries
  | [] => .ok []
  | (key, value) :: rest =>
    match Base64.decode (Utf8.encode value) with
    | .error fault => .error fault.message
    | .ok bytes => do
      let entries ← decodeValues rest
      return (key, bytes) :: entries

/-- The entries in the content of a file, or why it is corrupt. -/
def decode (content : Bytes) : Except String Entries :=
  match readDocument.readAll content with
  | .error fault => .error fault.message
  | .ok document =>
    if document.version ≠ version then
      .error ("unsupported version " ++ String.ofList (Decimal.digits document.version))
    else decodeValues document.values

/-- The content of the file that keeps these entries. -/
def encode (entries : Entries) : Bytes :=
  let values := entries.map fun (key, value) =>
    (key, Json.string (String.ofList (Base64.encode value)))
  (Json.object [("version", .ofNat version), ("entries", .object values)]).toBytes

/-! ### Loading and writing back -/

def new (path : Path) : CacheFile :=
  { path, entries := none, dirty := false }

/-- The entries that the disk has for a cache; none if there is no file. -/
def load (path : Path) (d : Disk) : Except StoreError Entries :=
  if !d.pathExists path then .ok []
  else match d.read path with
  | .error fault => .error (.io fault)
  | .ok content =>
    match decode content with
    | .ok entries => .ok entries
    | .error reason => .error (.corrupt path reason)

/-- The file as it is used: with its entries, loaded if they were not. -/
def loaded (f : CacheFile) (d : Disk) : Except StoreError (CacheFile × Entries) :=
  match f.entries with
  | some entries => .ok (f, entries)
  | none => do
    let entries ← load f.path d
    return ({ f with entries := some entries }, entries)

/-- Where new content is written before it takes the place of the file. -/
def temporary (path : Path) (processId : Nat) : Path :=
  let name := path.fileName?.getD "cache"
  path.withFileName ("." ++ name ++ ".tmp." ++ String.ofList (Decimal.digits processId))

/-- Write beside the file and rename. On a failure the temporary file is removed again. -/
def replace (path : Path) (content : Bytes) : DiskOp Unit := fun d =>
  let temp := temporary path d.processId
  let discard (d : Disk) : Disk :=
    match d.remove temp with
    | .ok d => d
    | .error _ => d
  match d.write temp content with
  | .error fault => .error fault (discard d)
  | .ok d =>
    match d.rename temp path with
    | .error fault => .error fault (discard d)
    | .ok d => .ok () d

/-- Write the content of a file, making the directories above it as needed. -/
def save (path : Path) (content : Bytes) : DiskOp Unit := do
  if let some parent := path.parent? then Disk.createDirs parent
  replace path content

/-- Write the entries back if they are dirty. The file is clean afterwards, unless that failed. -/
def flush (f : CacheFile) : DiskOp CacheFile := do
  if !f.dirty then return f
  match f.entries with
  | none => return f
  | some entries =>
    save f.path (encode entries)
    return { f with dirty := false }

end CacheFile

end HistoryKeeper
