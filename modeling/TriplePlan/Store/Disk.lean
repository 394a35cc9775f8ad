import TriplePlan.Action
import TriplePlan.Store.Snapshot
import TriplePlan.Text.FileName

/-!
Stores on a disk. A store is written under a temporary name in the directory of its file and then
moved, so that the file is never half written.
-/
namespace TriplePlan

abbrev Path := List String

inductive DiskEntry where
  | directory
  | file (content : Bytes)

structure Disk where
  /-- What stands at a path below the root. -/
  get? : Path → Option DiskEntry

namespace Disk

def empty : Disk := ⟨fun _ => none⟩

def put (d : Disk) (path : Path) (entry : Option DiskEntry) : Disk :=
  ⟨fun p => if p = path then entry else d.get? p⟩

theorem get?_put_self (d : Disk) (path : Path) (entry : Option DiskEntry) :
    (d.put path entry).get? path = entry :=
  if_pos rfl

theorem get?_put_of_ne (d : Disk) {path p : Path} (h : p ≠ path) (entry : Option DiskEntry) :
    (d.put path entry).get? p = d.get? p :=
  if_neg h

def createDirectories (above : Path) : Path → Action Disk StoreError Unit
  | [] => return
  | name :: below => do
    let path := above ++ [name]
    match (← get).get? path with
    | some .directory => createDirectories path below
    | some (.file _) => throw .io
    | none =>
      modify (·.put path (some .directory))
      createDirectories path below

def writeFile (path : Path) (content : Bytes) : Action Disk StoreError Unit := do
  match (← get).get? path with
  | some .directory => throw .io
  | _ => modify (·.put path (some (.file content)))

def rename (source target : Path) : Action Disk StoreError Unit := do
  match (← get).get? target with
  | some .directory => throw .io
  | _ => modify fun d => (d.put target (d.get? source)).put source none

def temporaryName (name : String) : String :=
  String.ofList (Text.withExtension "cbor.tmp".toList name.toList)

end Disk

namespace Store

def saveTo (s : Store) (path : Path) : Action Disk StoreError Unit :=
  match path.getLast? with
  | none => throw .io
  | some name => do
    let temporary := path.dropLast ++ [Disk.temporaryName name]
    Disk.createDirectories [] path.dropLast
    Disk.writeFile temporary s.save
    Disk.rename temporary path

/-- Loads a store from a file. A directory can be opened like a file, but not read. -/
def loadFrom (d : Disk) (path : Path) : Except StoreError Store :=
  match d.get? path with
  | none => .error .io
  | some .directory => .error .codec
  | some (.file content) =>
    match load? content with
    | some s => .ok s
    | none => .error .codec

end Store

end TriplePlan
