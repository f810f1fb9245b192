import HxdNg.Lib.SortedMap
import HxdNg.Lib.Sorting
import HxdNg.Files.Path

/-!
# Files listed in a manifest

`HttpManifestSource.fromJson` reads a manifest's records into three tables: the objects, files as the
records have them and the folders they are in; how many entries each folder has; and each folder's
listing. What the URL parser, the JSON reader and the HTTP client make of their inputs is `Crates`.
-/

namespace HxdNg.Files

structure Record where
  path : String
  size : Nat
  mediaType : Option String
  etag : Option String
  ranges : Bool
  created : Option Nat
  modified : Option Nat
  comment : Option String
  deriving DecidableEq

structure Manifest where
  version : Nat
  files : List Record

structure ManifestLimits where
  maxFileSize : Nat
  maxEntries : Nat
  maxConcurrent : Nat

structure Url where
  scheme : String
  host : Option String
  username : String
  password : Option String
  path : String
  query : Option String
  fragment : Option String
  deriving DecidableEq

inductive FileKind where
  | file
  | folder
  deriving DecidableEq

structure FileInfo where
  path : FilePath
  kind : FileKind
  size : Nat
  resourceSize : Nat := 0
  mediaType : Option String := none
  created : Option Nat := none
  modified : Option Nat := none
  comment : Option String := none
  deriving DecidableEq

structure FileEntry where
  name : String
  kind : FileKind
  size : Nat
  mediaType : Option String
  modified : Option Nat
  deriving DecidableEq

structure Object where
  info : FileInfo
  etag : Option String := none
  ranges : Bool := false
  deriving DecidableEq

abbrev Objects := SortedMap FilePath Object
abbrev Folders := SortedMap FilePath Unit

structure HttpManifestSource where
  origin : Url
  objects : Objects
  children : SortedMap FilePath (List FileEntry)
  permits : Nat

/-- What others make of texts and bytes. The JSON reader hands the text of a size to the one it is
given. -/
structure Crates where
  parseUrl : String → Except String Url
  fromSlice : (String → Except String Nat) → List UInt8 → Except String Manifest
  headerValue : String → Bool
  client : Except String Unit

/-- A size: decimal digits, with no zero before others. -/
def decimalU64 (value : String) : Except String Nat :=
  if value.isEmpty ∨ (1 < value.utf8ByteSize ∧ value.toList.head? = some '0') ∨
      ¬value.toList.all Char.isDigit = true then .error "u64 is not in canonical decimal form"
  else
    let n := value.toList.foldl (fun n c => 10 * n + (c.toNat - '0'.toNat)) 0
    if n < 2 ^ 64 then .ok n else .error "number too large to fit in target type"

/-! ## The records -/

def Object.file (path : FilePath) (r : Record) : Object where
  info := { path, kind := .file, size := r.size, mediaType := r.mediaType, created := r.created,
            modified := r.modified, comment := r.comment }
  etag := r.etag
  ranges := r.ranges

def Object.folder (path : FilePath) : Object where
  info := { path, kind := .folder, size := 0 }

/-- The folders a file is in, none of them a file. -/
def addFolders (objects : Objects) : Folders → List FilePath → Except FileError Folders
  | folders, [] => .ok folders
  | folders, folder :: above =>
    if objects.contains folder then
      .error (.unavailable ("manifest file is used as a folder: " ++ folder.display))
    else addFolders objects (folders.insert folder ()) above

variable (C : Crates)

def addRecord (limits : ManifestLimits) (objects : Objects) (folders : Folders) (record : Record) :
    Except FileError (Objects × Folders) :=
  if record.mediaType.any (! C.headerValue ·) then
    .error (.unavailable ("manifest path " ++ record.path ++ " has an invalid media type"))
  else
    match FilePath.parse record.path with
    | .error e => .error e
    | .ok path =>
      if path.isRoot ∨ record.size > limits.maxFileSize then
        .error (if record.size > limits.maxFileSize then .tooLarge else .invalidPath)
      else if objects.contains path then
        .error (.unavailable ("duplicate manifest path " ++ path.display))
      else if folders.contains path then
        .error (.unavailable ("manifest path is both a file and folder: " ++ path.display))
      else
        match addFolders objects folders path.above with
        | .error e => .error e
        | .ok folders => .ok (objects.insert path (.file path record), folders)

def addRecords (limits : ManifestLimits) (objects : Objects) (folders : Folders) :
    List Record → Except FileError (Objects × Folders)
  | [] => .ok (objects, folders)
  | record :: records =>
    match addRecord C limits objects folders record with
    | .error e => .error e
    | .ok (objects, folders) => addRecords limits objects folders records

/-! ## The tables -/

def withFolders (objects : Objects) (folders : List FilePath) : Objects :=
  folders.foldl (fun objects folder =>
    if objects.contains folder then objects else objects.insert folder (.folder folder)) objects

/-- How many are right below each folder. -/
def countChildren (objects : Objects) : SortedMap FilePath Nat :=
  SortedMap.gather FilePath.parent (fun _ n => n + 1) 0 (objects.keys.filter (! ·.isRoot)) .empty

/-- A folder's size is how many it holds. -/
def settle (counts : SortedMap FilePath Nat) (objects : Objects) : Objects :=
  objects.mapVals fun path object =>
    if object.info.kind = .folder then
      { object with info := { object.info with size := (counts.get path).getD 0 } }
    else object

def Object.entry (object : Object) (name : String) : FileEntry where
  name := name
  kind := object.info.kind
  size := object.info.size
  mediaType := object.info.mediaType
  modified := object.info.modified

/-- An object's entry in its folder's listing. -/
def entryAt (objects : Objects) (path : FilePath) : Option FileEntry :=
  (objects.get path).bind fun object => path.name.map object.entry

def listChildren (objects : Objects) : SortedMap FilePath (List FileEntry) :=
  (SortedMap.gather FilePath.parent (fun path entries => entries ++ (entryAt objects path).toList) []
    (objects.keys.filter (! ·.isRoot)) .empty).mapVals fun _ entries => sortBy FileEntry.name entries

def checkOrigin (origin : Url) : Except FileError Url :=
  if ¬(origin.scheme = "http" ∨ origin.scheme = "https") ∨ origin.host.isNone ∨ ¬origin.username.isEmpty ∨
      origin.password.isSome ∨ origin.query.isSome ∨ origin.fragment.isSome then
    .error (.unavailable "origin must be an http(s) base URL without credentials, query, or fragment")
  else if origin.path.toList.getLast? = some '/' then .ok origin
  else .ok { origin with path := origin.path ++ "/" }

/-- The manifest's own checks, and its tables. -/
def readManifest (limits : ManifestLimits) (manifest : Manifest) :
    Except FileError (Objects × SortedMap FilePath (List FileEntry)) :=
  if manifest.version ≠ 1 then
    .error (.unavailable ("unsupported files manifest version " ++ toString manifest.version))
  else if manifest.files.length > limits.maxEntries then
    .error (.unavailable "files manifest has too many entries")
  else
    match addRecords C limits .empty (SortedMap.empty.insert .root ()) manifest.files with
    | .error e => .error e
    | .ok (files, folders) =>
      let objects := withFolders files folders.keys
      let objects := settle (countChildren objects) objects
      .ok (objects, listChildren objects)

def HttpManifestSource.fromJson (origin : String) (manifestJson : List UInt8) (limits : ManifestLimits) :
    Except FileError HttpManifestSource :=
  if limits.maxEntries = 0 ∨ limits.maxConcurrent = 0 then
    .error (.unavailable "entry and concurrency limits must be non-zero")
  else
    match C.parseUrl origin with
    | .error e => .error (.unavailable ("invalid origin URL: " ++ e))
    | .ok url =>
      match checkOrigin url with
      | .error e => .error e
      | .ok origin =>
        match C.fromSlice decimalU64 manifestJson with
        | .error e => .error (.unavailable ("invalid files manifest: " ++ e))
        | .ok manifest =>
          match readManifest C limits manifest with
          | .error e => .error e
          | .ok (objects, children) =>
            match C.client with
            | .error e => .error (.unavailable ("HTTP client: " ++ e))
            | .ok () => .ok { origin, objects, children, permits := limits.maxConcurrent }

def HttpManifestSource.list (s : HttpManifestSource) (path : FilePath) : Except FileError (List FileEntry) :=
  match s.objects.get path with
  | none => .error .notFound
  | some object =>
    if object.info.kind ≠ .folder then .error .notFolder else .ok ((s.children.get path).getD [])

def HttpManifestSource.info (s : HttpManifestSource) (path : FilePath) : Except FileError FileInfo :=
  match s.objects.get path with
  | none => .error .notFound
  | some object => .ok object.info

end HxdNg.Files
