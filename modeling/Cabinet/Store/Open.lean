import Cabinet.Store.Folder
import Cabinet.Store.Memory

/-!
# Opening stores

* `Premises` : all that stores can be kept in, which is the disk and the memories;
* `Backend` : the kinds of store;
* `Premises.openStore` : the store of a backend's name, over a folder or a memory.
-/

namespace Cabinet

/-- What stores are kept in. -/
structure Premises where
  disk : Disk
  /-- The home folder, which a path may start at. -/
  home : Disk.Path
  shelf : Shelf

inductive Backend where
  | memory
  | folder (format : Format)

namespace Backend

def ofName? (name : Text) : Option Backend :=
  if name = Memory.storeName then some .memory
  else (Format.all.find? fun format => format.name = name).map .folder

end Backend

namespace Premises

/-- An operation on the disk. -/
def onDisk {α : Type} (a : Action Disk α) : Action Premises α :=
  a.focus Premises.disk fun d p => { p with disk := d }

/-- An operation on the memories. -/
def onShelf {α : Type} (a : Action Shelf α) : Action Premises α :=
  a.focus Premises.shelf fun s p => { p with shelf := s }

/-- The store in a folder. -/
def folderStore (format : Format) (folder : Disk.Path) : Store Premises :=
  (Folder.store format folder).focus Premises.disk fun d p => { p with disk := d }

/-- The store in a memory. -/
def memoryStore (handle : Nat) : Store Premises :=
  (Shelf.store handle).focus Premises.shelf fun s p => { p with shelf := s }

/-- Opens the store of a backend. A folder is made if it is missing and `create` says so; a memory
has a name if one in a registry is given. -/
def openStore (backend : Text) (path name registry : Option Text) (create : Bool) :
    Action Premises (Store Premises) := do
  match Backend.ofName? backend with
  | none => throw (.unknownBackend backend)
  | some .memory => return memoryStore (← onShelf (Shelf.openMemory name registry))
  | some (.folder format) =>
    match path with
    | none => throw (.noPath backend)
    | some path =>
      let folder := (Disk.Path.ofText path).expandHome (← get).home
      onDisk (Folder.openFolder create folder)
      return folderStore format folder

end Premises

end Cabinet
