import Dhow.Blake3
import Dhow.Dataset
import Dhow.Lib.Except
import Mathlib.Data.List.Sort

/-!
# Archives

The packer of `pack.go`: a directory becomes one byte stream, its regular files sorted by name,
each behind its name, its flags and its size, and the stream becomes a directory again.
Extraction checks every name and every length again, and creates no file that is there.
-/

namespace Dhow.Pack
open Bytes FileSystem

/-- ASCII "DHAR". -/
def magic : Arr 4 := ⟨[0x44, 0x48, 0x41, 0x52], rfl⟩

def version : UInt8 := 1
def maxNameLen : ℕ := 4096
def maxEntries : ℕ := 1000000
def maxTotalSize : ℕ := 64 * 2 ^ 30
def maxFileSize : ℕ := 16 * 2 ^ 30

inductive PackError
  | badMagic
  | badVersion (version : UInt8)
  | truncated
  | pathTraversal (name : Str)
  | nameLength (length : ℕ)
  | fileTooLarge (name : Str) (size : ℕ)
  | totalTooLarge
  | extractionTooLarge
  | tooManyFiles (count : ℕ)
  | opening (name : Str)
  | changedSize (name : Str) (expected read : ℕ)
  | creatingDestination (e : FsError Component)
  | creatingDirectory (name : Str) (e : FsError Component)
  | creating (name : Str) (e : FsError Component)
  deriving DecidableEq

structure Entry where
  name : Str
  executable : Bool
  size : ℕ
  digest : Arr 32
  deriving DecidableEq

/-- The name stays inside the directory it is joined to. -/
def validateName (name : Str) : Except PackError Unit :=
  if name = [] ∨ maxNameLen < name.length then .error (.pathTraversal name)
  else if 0 ∈ name ∨ 0x5C ∈ name then .error (.pathTraversal name)
  else if name.head? = some slash then .error (.pathTraversal name)
  else if 1 < name.length ∧ u8At name 1 = 0x3A then .error (.pathTraversal name)
  else if dotdot ∈ name.splitOn slash then .error (.pathTraversal name)
  else .ok ()

/-! ### Packing -/

/-- What the walk makes of one regular file. -/
def collectFile (x : Path Component × File) : Except PackError Entry :=
  let name := relName x.1
  match validateName name with
  | .error e => .error e
  | .ok () =>
    if maxFileSize < x.2.content.length then .error (.fileTooLarge name x.2.content.length)
    else .ok ⟨name, x.2.executable, x.2.content.length, zeros 32⟩

/-- What the walk makes of one node. Nothing but regular files is carried: directories are implied
by the names, and links are not followed. -/
def visit (x : Path Component × Node File) : Except PackError (Option Entry) :=
  match x.2 with
  | .file f => (collectFile (x.1, f)).map some
  | .dir | .irregular => .ok none

/-- The loop over the sizes, with their sum so far. -/
def checkTotal (total : ℕ) : List Entry → Except PackError Unit
  | [] => .ok ()
  | e :: entries =>
    if maxTotalSize < total + e.size then .error .totalTooLarge
    else checkTotal (total + e.size) entries

def collect (fs : FileTree) (root : Path Component) : Except PackError (List Entry) :=
  match (fs.walkDir root).mapM visit with
  | .error e => .error e
  | .ok visited =>
    let entries := visited.reduceOption
    if maxEntries < entries.length then .error (.tooManyFiles entries.length)
    else
      let entries := entries.insertionSort fun a b => a.name ≤ b.name
      match checkTotal 0 entries with
      | .error e => .error e
      | .ok () => .ok entries

def Entry.flags (e : Entry) : UInt8 := if e.executable then 1 else 0

/-- What precedes a file's contents in the archive. -/
def Entry.head (e : Entry) : Str :=
  u16le (UInt16.ofNat e.name.length) ++ (e.name ++ ([e.flags] ++ u64le (UInt64.ofNat e.size)))

/-- The bytes of one entry, and the entry with the digest of its contents. -/
def writeEntry (b3 : Blake3) (fs : FileTree) (root : Path Component) (e : Entry) :
    Except PackError (Str × Entry) :=
  match (join root e.name).bind fs.lookup with
  | some (.file f) =>
    if f.content.length ≠ e.size then .error (.changedSize e.name e.size f.content.length)
    else .ok (e.head ++ f.content, { e with digest := blake3Digest b3 f.content })
  | _ => .error (.opening e.name)

/-- What precedes the entries. -/
def header (count : ℕ) : Str := magic.toList ++ ([version, 0, 0, 0] ++ u32le (UInt32.ofNat count))

def create (b3 : Blake3) (fs : FileTree) (root : Path Component) :
    Except PackError (Str × List Entry) :=
  match collect fs root with
  | .error e => .error e
  | .ok entries =>
    match entries.mapM (writeEntry b3 fs root) with
    | .error e => .error e
    | .ok written => .ok (header entries.length ++ written.flatMap Prod.fst, written.map Prod.snd)

/-! ### Extraction -/

/-- The entry header at `offset` and the offset of the contents behind it. -/
def readEntry (data : Str) (offset : ℕ) : Except PackError (Entry × ℕ) :=
  if data.length < offset + 2 then .error .truncated
  else
    let nameLen := (u16At data offset).toNat
    if maxNameLen < nameLen then .error (.nameLength nameLen)
    else
      let headEnd := offset + 2 + nameLen + 1 + 8
      if data.length < headEnd then .error .truncated
      else
        let name := slice data (offset + 2) nameLen
        match validateName name with
        | .error e => .error e
        | .ok () =>
          let flags := u8At data (offset + 2 + nameLen)
          let size := (u64At data (offset + 3 + nameLen)).toNat
          if maxFileSize < size ∨ data.length < headEnd + size then .error .truncated
          else .ok (⟨name, flags &&& 1 ≠ 0, size, zeros 32⟩, headEnd)

def fileMode (executable : Bool) : UInt32 := if executable then 0o755 else 0o644

/-- One extracted file, with the bits of `umask` off its mode. -/
def writeFile (umask : UInt32) (fs : FileTree) (absDest : Path Component) (e : Entry)
    (body : Str) : Except PackError FileTree :=
  match join absDest e.name with
  | none => .error (.creating e.name (.invalid absDest))
  | some target =>
    if target ≠ absDest ∧ ¬(absDest ≠ [] ∧ absDest <+: target) then .error (.pathTraversal e.name)
    else
      match fs.mkdirAll target.dropLast with
      | .error err => .error (.creatingDirectory e.name err)
      | .ok fs =>
        match fs.create target ⟨body, fileMode e.executable &&& ~~~umask⟩ with
        | .error err => .error (.creating e.name err)
        | .ok fs => .ok fs

/-- The entry loop: `left` entries, the first at `offset`, and the sum of the sizes before it.
The files of the entries before an error stay. -/
def extractFrom (umask : UInt32) (data : Str) (absDest : Path Component) :
    (left offset total : ℕ) → FileTree → Except PackError (List Entry) × FileTree
  | 0, _, _, fs => (.ok [], fs)
  | left + 1, offset, total, fs =>
    match readEntry data offset with
    | .error e => (.error e, fs)
    | .ok (entry, next) =>
      if maxTotalSize < total + entry.size then (.error .extractionTooLarge, fs)
      else
        match writeFile umask fs absDest entry (slice data next entry.size) with
        | .error e => (.error e, fs)
        | .ok fs =>
          match extractFrom umask data absDest left (next + entry.size) (total + entry.size) fs with
          | (.error e, fs) => (.error e, fs)
          | (.ok entries, fs) => (.ok (entry :: entries), fs)

def extract (umask : UInt32) (fs : FileTree) (data : Str) (dest : Path Component) :
    Except PackError (List Entry) × FileTree :=
  if data.length < 12 then (.error .truncated, fs)
  else if arrAt 4 data 0 ≠ magic then (.error .badMagic, fs)
  else if u8At data 4 ≠ version then (.error (.badVersion (u8At data 4)), fs)
  else
    let count := (u32At data 8).toNat
    if maxEntries < count then (.error (.tooManyFiles count), fs)
    else
      match fs.mkdirAll dest with
      | .error e => (.error (.creatingDestination e), fs)
      | .ok fs => extractFrom umask data dest count 12 0 fs

end Dhow.Pack
