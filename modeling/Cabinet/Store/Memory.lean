import Cabinet.Store.Basic

/-!
# Stores in memory

* `Memory` : encoded documents by identifier, in the order in which the identifiers came;
* `Memory.store` : the store over one memory;
* `Shelf` : memories that handles point to, and registries that give memories names;
* `Shelf.acquire`, `Shelf.drop` : the memory of a name in a registry, and forgetting a name;
* `Shelf.store` : the store over the memory of a handle.

Documents are kept encoded, so what is read is always a fresh document.
-/

namespace Cabinet

/-- Encoded documents by identifier. -/
abbrev Memory := List (Text × Text)

namespace Memory

def get? : Memory → Text → Option Text
  | [], _ => none
  | (id, kept) :: rest, key => if id = key then some kept else get? rest key

/-- Keeps a text under an identifier; an identifier that is there stays in its place. -/
def put : Memory → Text → Text → Memory
  | [], key, kept => [(key, kept)]
  | (id, old) :: rest, key, kept =>
    if id = key then (id, kept) :: rest else (id, old) :: put rest key kept

def remove (m : Memory) (key : Text) : Memory := m.filter fun entry => entry.1 != key

def storeName : Text := "memory".toText

/-- The store over one memory. -/
def store : Store Memory where
  name := storeName
  read id := fun m =>
    match get? m id with
    | none => (.error (.notFound id), m)
    | some kept => (Store.decodeJson storeName kept, m)
  write id d := fun m =>
    match Store.encodeJson .compact storeName d with
    | .error e => (.error e, m)
    | .ok kept => (.ok (), put m id kept)
  erase id := fun m =>
    match get? m id with
    | none => (.error (.notFound id), m)
    | some _ => (.ok (), remove m id)
  exist id := fun m => (.ok (get? m id).isSome, m)
  index := fun m => (.ok (m.map (·.1)), m)
  escape := .ok
  unescape := .ok
  encode := Store.encodeJson .compact storeName
  decode := Store.decodeJson storeName

end Memory

/-- Names for memories: each has the handle of its memory. -/
abbrev Registry := List (Text × Nat)

/-- Memories, which handles point to, and registries by their own names. -/
structure Shelf where
  memories : List Memory
  registries : List (Text × Registry)

namespace Shelf

def empty : Shelf := ⟨[], []⟩

/-- A registry; one that nothing was registered in is empty. -/
def registry (s : Shelf) (label : Text) : Registry :=
  ((s.registries.find? fun entry => entry.1 = label).map (·.2)).getD []

def setRegistry (s : Shelf) (label : Text) (r : Registry) : Shelf :=
  { s with registries := (label, r) :: s.registries.filter fun entry => entry.1 != label }

/-- A new memory and its handle. -/
def allocate (s : Shelf) : Nat × Shelf :=
  (s.memories.length, { s with memories := s.memories ++ [[]] })

/-- The memory of a name in a registry, which is made when it is first asked for. -/
def acquire (s : Shelf) (label name : Text) : Nat × Shelf :=
  match (s.registry label).find? fun entry => entry.1 = name with
  | some (_, handle) => (handle, s)
  | none =>
    let (handle, s) := s.allocate
    (handle, s.setRegistry label (s.registry label ++ [(name, handle)]))

/-- Forgets a name, and tells whether it was there. Handles keep their memory. -/
def drop (s : Shelf) (label name : Text) : Bool × Shelf :=
  let r := s.registry label
  (r.any fun entry => entry.1 = name,
    s.setRegistry label (r.filter fun entry => entry.1 != name))

/-- The names in a registry, sorted. -/
def names (s : Shelf) (label : Text) : List Text := Text.sort ((s.registry label).map (·.1))

def memory (s : Shelf) (handle : Nat) : Memory := (s.memories[handle]?).getD []

def setMemory (handle : Nat) (m : Memory) (s : Shelf) : Shelf :=
  { s with memories := s.memories.set handle m }

/-- The store over the memory of a handle. -/
def store (handle : Nat) : Store Shelf :=
  Memory.store.focus (fun s => s.memory handle) (setMemory handle)

/-- Opens a memory: a private one without a name, or the one of a name in a registry. -/
def openMemory (name registry : Option Text) : Action Shelf Nat := fun s =>
  match name, registry with
  | none, _ | some [], _ => let (handle, s) := s.allocate; (.ok handle, s)
  | some _, none => (.error .noRegistry, s)
  | some name, some label => let (handle, s) := s.acquire label name; (.ok handle, s)

end Shelf

end Cabinet
