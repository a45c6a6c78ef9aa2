import ResultCache.Assoc
import ResultCache.Store.Basic
import ResultCache.Text.Utf8

/-!
# A store in a directory

One file a record.  Its name is the key in hexadecimal digits with `.rec` after it, so that any key makes a name; a
record is first written to a file ending in `.tmp`, which is then renamed.  Files and folders with other names may
stand beside the records and are left alone.  A name longer than the file system allows makes a call fail.
-/

namespace ResultCache

/-- What may stand in a directory. -/
inductive Node where
  | file (content : Bytes)
  | folder

/-- What stands in the place of a directory. -/
inductive Place where
  | missing
  /-- A file, where no directory can be made. -/
  | occupied
  | folder (nodes : List (String × Node))

/-- A directory of a file system with names of at most `nameLimit` bytes, if there is a limit. -/
structure Directory where
  place : Place
  nameLimit : Option Nat

namespace Directory

def empty (nameLimit : Option Nat) : Directory :=
  ⟨.folder [], nameLimit⟩

/-- Whether the file system allows a name. -/
def allows (d : Directory) (name : String) : Bool :=
  match d.nameLimit with
  | none => true
  | some limit => Text.byteLength name ≤ limit

/-- The name of a key in hexadecimal digits. -/
def stem (key : String) : String :=
  String.ofList (Text.hexEncode (Text.utf8 key))

/-- The name of the file of a record. -/
def recordName (key : String) : String :=
  stem key ++ ".rec"

/-- The name of the file that a record is first written to.  A name that is only an ending is kept whole. -/
def temporaryName (key : String) : String :=
  if key.isEmpty then ".rec.tmp" else stem key ++ ".tmp"

/-- The key of a file name, if it is the name of a record. -/
def keyOfName? (name : String) : Option String :=
  match Text.splitLast? '.' name.toList with
  | none => none
  | some (stem, ending) =>
    if stem.isEmpty || ending != ['r', 'e', 'c'] then none
    else (Text.hexDecode? stem).bind Text.ofUtf8?

/-- Makes the directory unless it is there. -/
def openAt (d : Directory) : Except StoreError Directory :=
  match d.place with
  | .missing => .ok { d with place := .folder [] }
  | .occupied => .error .unavailable
  | .folder _ => .ok d

/-- Writes a record to its temporary file and renames that. -/
def put (key : String) (record : Bytes) (d : Directory) : Except StoreError Unit × Directory :=
  match d.place with
  | .folder nodes =>
    if !(d.allows (temporaryName key) && d.allows (recordName key)) then (.error .unavailable, d)
    else
      match nodes.lookup (temporaryName key), nodes.lookup (recordName key) with
      | some .folder, _ => (.error .unavailable, d)
      | _, some .folder =>
        -- the temporary file was written and cannot take the place of a folder
        (.error .unavailable, { d with place := .folder (Assoc.insert (temporaryName key) (.file record) nodes) })
      | _, _ =>
        (.ok (), { d with
          place := .folder (Assoc.insert (recordName key) (.file record) (Assoc.erase (temporaryName key) nodes)) })
  | _ => (.error .unavailable, d)

def get (key : String) (d : Directory) : Except StoreError (Option Bytes) :=
  match d.place with
  | .missing => .ok none
  | .occupied => .error .unavailable
  | .folder nodes =>
    if !d.allows (recordName key) then .error .unavailable
    else
      match nodes.lookup (recordName key) with
      | none => .ok none
      | some (.file content) => .ok (some content)
      | some .folder => .error .unavailable

def delete (key : String) (d : Directory) : Except StoreError Unit × Directory :=
  match d.place with
  | .missing => (.ok (), d)
  | .occupied => (.error .unavailable, d)
  | .folder nodes =>
    if !d.allows (recordName key) then (.error .unavailable, d)
    else
      match nodes.lookup (recordName key) with
      | none => (.ok (), d)
      | some (.file _) => (.ok (), { d with place := .folder (Assoc.erase (recordName key) nodes) })
      | some .folder => (.error .unavailable, d)

def list (start : String) (d : Directory) : Except StoreError (List String) :=
  match d.place with
  | .folder nodes =>
    .ok (((nodes.filterMap fun n => keyOfName? n.1).filter (beginsWith start)).mergeSort (· ≤ ·))
  | _ => .error .unavailable

/-- The calls on a directory. -/
def store : Store Directory :=
  { put, get, delete, list }

/-! What others do to the directory. -/

/-- Whether a text can name something in a directory. -/
def isName (name : String) : Bool :=
  name != "" && name != "." && name != ".." && !name.toList.contains '/' && !name.toList.contains '\x00'

/-- Writes a file of any name; tells whether that went well. -/
def writeFile (name : String) (content : Bytes) (d : Directory) : Bool × Directory :=
  match d.place with
  | .folder nodes =>
    match isName name && d.allows name, nodes.lookup name with
    | false, _ => (false, d)
    | true, some .folder => (false, d)
    | true, _ => (true, { d with place := .folder (Assoc.insert name (.file content) nodes) })
  | _ => (false, d)

/-- Makes a folder in the directory; tells whether that went well. -/
def makeFolder (name : String) (d : Directory) : Bool × Directory :=
  match d.place with
  | .folder nodes =>
    if isName name && d.allows name && (nodes.lookup name).isNone then
      (true, { d with place := .folder (Assoc.insert name .folder nodes) })
    else (false, d)
  | _ => (false, d)

/-- Removes the directory with all that is in it; tells whether that went well. -/
def remove (d : Directory) : Bool × Directory :=
  match d.place with
  | .folder _ => (true, { d with place := .missing })
  | _ => (false, d)

/-- The names of what is in the directory, in order. -/
def names (d : Directory) : List String :=
  match d.place with
  | .folder nodes => nodes.map (·.1)
  | _ => []

end Directory

end ResultCache
