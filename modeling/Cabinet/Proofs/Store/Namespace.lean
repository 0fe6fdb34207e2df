import Cabinet.Proofs.Store.Method
import Cabinet.Store.Memory

/-!
# Which memories are shared

Memories are opened, names are forgotten, and open memories are asked something, in any order.

* `Shelf.Event`, `Shelf.Desk`, `Desk.after` : what happens, and the memories that are open after it; the
  events of a past are listed from the last to the first;
* `Shelf.Origin`, `Shelf.origins` : what makes an open memory the same as another: it stands alone, or has
  a name in a registry and was opened after so many times that this name was forgotten there;
* `Shelf.received`, `Shelf.contents` : the changes that were made to memories of an origin, and one memory
  that received them;
* `Shelf.Tracks` : handles stand for origins, which `Tracks.step` says of what happens next;
* `Shelf.namespaces_shared` : so each open memory is the one that received the changes of its origin.
-/

namespace Cabinet.Shelf

open Store (Method)

/-! ## Runs -/

/-- A memory is opened, a name is forgotten, or an open memory, told by how many were opened before it, is
asked something. -/
inductive Event where
  | opens (name registry : Option Text)
  | drops (registry name : Text)
  | asks (number : Nat) (m : Method)

/-- A shelf, and the handles of the memories that were opened, in their order. -/
structure Desk where
  shelf : Shelf
  handles : List Nat

namespace Desk

def opened (name registry : Option Text) (desk : Desk) : Desk :=
  match openMemory name registry desk.shelf with
  | (.ok handle, s) => ⟨s, desk.handles ++ [handle]⟩
  | (.error _, s) => ⟨s, desk.handles⟩

/-- What the open memory of a number does when it is asked, if there is one. -/
def asked (number : Nat) (m : Method) (desk : Desk) :
    Option (Except Failure Store.Answer × Shelf) :=
  desk.handles[number]?.map fun handle => m.run (store handle) desk.shelf

def step : Event → Desk → Desk
  | .opens name registry, desk => desk.opened name registry
  | .drops label name, desk => { desk with shelf := (desk.shelf.drop label name).2 }
  | .asks number m, desk =>
    { desk with shelf := ((desk.asked number m).map Prod.snd).getD desk.shelf }

/-- The memories that are open after what has happened, of which the last comes first. -/
def after : List Event → Desk
  | [] => ⟨empty, []⟩
  | e :: past => (after past).step e

/-- What the open memory of a number gives when it is asked, if there is one. -/
def hears (number : Nat) (m : Method) (desk : Desk) : Option (Except Failure Store.Answer) :=
  (desk.asked number m).map Prod.fst

end Desk

/-! ## Origins -/

/-- What open memories are told apart by. -/
inductive Origin where
  | alone (number : Nat)
  | named (registry name : Text) (drops : Nat)
  deriving DecidableEq

def Event.isDrop (label name : Text) : Event → Bool
  | .drops l n => l = label && n = name
  | .opens _ _ | .asks _ _ => false

/-- How often a name in a registry was forgotten. -/
def dropCount (label name : Text) (past : List Event) : Nat :=
  past.countP (Event.isDrop label name)

/-- The origin of the memory that an event opens, if it opens one, after so many others. -/
def Event.origin? (past : List Event) (number : Nat) : Event → Option Origin
  | .opens none _ | .opens (some []) _ => some (.alone number)
  | .opens (some (_ :: _)) none => none
  | .opens (some (p :: name)) (some label) =>
    some (.named label (p :: name) (dropCount label (p :: name) past))
  | .drops _ _ | .asks _ _ => none

/-- The origins of the memories that were opened, in their order. -/
def origins : List Event → List Origin
  | [] => []
  | e :: past => origins past ++ (e.origin? past (origins past).length).toList

/-- The writes and erasures that memories of an origin were asked for. -/
def received (o : Origin) : List Event → List Method
  | [] => []
  | .asks number m :: past =>
    if (origins past)[number]? = some o ∧ m.changes = true then received o past ++ [m]
    else received o past
  | .opens _ _ :: past | .drops _ _ :: past => received o past

/-- One memory that received what the memories of an origin did. -/
def contents (o : Origin) (past : List Event) : Memory :=
  (Memory.store.answers (received o past) []).2

/-! ## Registries -/

/-- The handle of a name in a registry. -/
def named? (s : Shelf) (label name : Text) : Option Nat :=
  ((s.registry label).find? fun entry => entry.1 = name).map Prod.snd

theorem registry_setRegistry (s : Shelf) (label l : Text) (r : Registry) :
    (s.setRegistry label r).registry l = if l = label then r else s.registry l := by
  unfold setRegistry registry
  by_cases hl : l = label
  · rw [if_pos hl, List.find?_cons_of_pos (by simpa using hl.symm)]
    rfl
  · rw [if_neg hl, List.find?_cons_of_neg (by simpa using Ne.symm hl), List.find?_filter]
    congr 3
    funext entry
    by_cases hentry : entry.1 = l
    · simp [hentry, hl]
    · simp [hentry]

/-- A name that is not there is put into its registry, and says nothing about other names. -/
theorem named?_register {s : Shelf} {label name : Text} (hnew : s.named? label name = none)
    (handle : Nat) (l n : Text) :
    (s.setRegistry label (s.registry label ++ [(name, handle)])).named? l n =
      if l = label ∧ n = name then some handle else s.named? l n := by
  unfold named? at hnew ⊢
  rw [registry_setRegistry]
  by_cases hl : l = label
  · subst hl
    rw [if_pos rfl, List.find?_append, Option.map_or]
    by_cases hn : n = name
    · subst hn
      rw [hnew, if_pos ⟨rfl, rfl⟩]
      simp
    · rw [if_neg fun h => hn h.2]
      simp [Ne.symm hn]
  · rw [if_neg hl, if_neg fun h => hl h.1]

theorem named?_drop (s : Shelf) (label name l n : Text) :
    (s.drop label name).2.named? l n =
      if l = label ∧ n = name then none else s.named? l n := by
  unfold named? drop
  simp only [registry_setRegistry]
  by_cases hl : l = label
  · subst hl
    rw [if_pos rfl, List.find?_filter]
    by_cases hn : n = name
    · subst hn
      rw [if_pos ⟨rfl, rfl⟩, Option.map_eq_none_iff, List.find?_eq_none]
      intro entry _
      simp
    · rw [if_neg fun h => hn h.2]
      congr 2
      funext entry
      by_cases hentry : entry.1 = n
      · simp [hentry, hn]
      · simp [hentry]
  · rw [if_neg hl, if_neg fun h => hl h.1]

/-- The memory of a name that is there is acquired as it is. -/
theorem acquire_of_some {s : Shelf} {label name : Text} {handle : Nat}
    (h : s.named? label name = some handle) : s.acquire label name = (handle, s) := by
  obtain ⟨entry, hentry, rfl⟩ := Option.map_eq_some_iff.mp h
  rw [acquire, hentry]

/-- The memory of a name that is not there is a new one, which is registered. -/
theorem acquire_of_none {s : Shelf} {label name : Text} (h : s.named? label name = none) :
    s.acquire label name = (s.memories.length, s.allocate.2.setRegistry label
      (s.allocate.2.registry label ++ [(name, s.memories.length)])) := by
  rw [acquire, Option.map_eq_none_iff.mp h]
  rfl

theorem named?_allocate (s : Shelf) (label name : Text) :
    s.allocate.2.named? label name = s.named? label name := rfl

/-! ## Memories -/

theorem memory_allocate (s : Shelf) (handle : Nat) : s.allocate.2.memory handle = s.memory handle := by
  unfold memory allocate
  simp only
  by_cases h : handle < s.memories.length
  · rw [List.getElem?_append_left h]
  · rw [List.getElem?_eq_none (l := s.memories) (by omega)]
    by_cases hlast : handle = s.memories.length
    · rw [hlast, List.getElem?_concat_length]
      rfl
    · rw [List.getElem?_eq_none]
      rw [List.length_append, List.length_singleton]
      omega

theorem memory_setMemory {s : Shelf} {handle : Nat} (h : handle < s.memories.length) (m : Memory)
    (i : Nat) : (setMemory handle m s).memory i = if i = handle then m else s.memory i := by
  unfold memory setMemory
  simp only [List.getElem?_set]
  by_cases hi : handle = i
  · subst hi
    rw [if_pos rfl, if_pos h, if_pos rfl]
    rfl
  · rw [if_neg hi, if_neg (Ne.symm hi)]

theorem setMemory_memory (s : Shelf) (handle : Nat) : setMemory handle (s.memory handle) s = s := by
  unfold memory setMemory
  by_cases h : handle < s.memories.length
  · rw [List.getElem?_eq_getElem h, Option.getD_some, List.set_getElem_self]
  · rw [List.set_eq_of_length_le (by omega)]

/-- A memory that is asked does what a single one does, and no other changes. -/
theorem run_store (handle : Nat) (m : Method) (s : Shelf) :
    m.run (store handle) s = ((m.run Memory.store (s.memory handle)).1,
      setMemory handle (m.run Memory.store (s.memory handle)).2 s) :=
  m.run_focus _ _ Memory.store (fun s => setMemory_memory s handle) s

/-- A method that changes nothing does not change a memory. -/
theorem memory_of_not_changes {m : Method} (hm : ¬ m.changes = true) (w : Memory) :
    (m.run Memory.store w).2 = w := by
  cases m with
  | read id =>
    rw [Method.run, Action.map_apply]
    simp only [Memory.store]
    split <;> rfl
  | write id v | erase id => exact absurd rfl hm
  | exist id | index =>
    rw [Method.run, Action.map_apply]
    rfl
  | escape id | unescape key | encode v | decode kept => rfl

/-! ## Pasts -/

theorem dropCount_cons (label name : Text) (e : Event) (past : List Event) :
    dropCount label name (e :: past) =
      dropCount label name past + if e.isDrop label name then 1 else 0 :=
  List.countP_cons

/-- An origin that memories may have so far. -/
def Origin.Known (past : List Event) : Origin → Prop
  | .alone number => number < (origins past).length
  | .named label name n => n ≤ dropCount label name past

theorem Origin.Known.cons {past : List Event} {o : Origin} (h : o.Known past) (e : Event) :
    o.Known (e :: past) := by
  cases o with
  | alone number =>
    show number < (origins past ++ _).length
    have hbefore : number < (origins past).length := h
    rw [List.length_append]
    omega
  | named label name n =>
    show n ≤ dropCount label name (e :: past)
    have hbefore : n ≤ dropCount label name past := h
    rw [dropCount_cons]
    omega

/-- A memory that is opened stands alone, or has a name in a registry. -/
theorem origin?_eq_some {e : Event} {past : List Event} {number : Nat} {o : Origin}
    (h : e.origin? past number = some o) :
    (∃ name registry, e = .opens name registry ∧ (name = none ∨ name = some []) ∧
      o = .alone number) ∨
    ∃ label name, name ≠ [] ∧ e = .opens (some name) (some label) ∧
      o = .named label name (dropCount label name past) := by
  cases e with
  | drops label name | asks number m => cases h
  | opens name registry =>
    rcases name with _ | _ | ⟨p, name⟩
    · exact .inl ⟨none, registry, rfl, .inl rfl, (Option.some.inj h).symm⟩
    · exact .inl ⟨some [], registry, rfl, .inr rfl, (Option.some.inj h).symm⟩
    · cases registry with
      | none => cases h
      | some label => exact .inr ⟨label, p :: name, by simp, rfl, (Option.some.inj h).symm⟩

theorem origins_opens {e : Event} {past : List Event} {o : Origin}
    (h : e.origin? past (origins past).length = some o) : origins (e :: past) = origins past ++ [o] := by
  rw [origins, h]
  rfl

theorem known_of_origin? {e : Event} {past : List Event} {o : Origin}
    (h : e.origin? past (origins past).length = some o) : o.Known (e :: past) := by
  obtain ⟨name, registry, -, -, rfl⟩ | ⟨label, name, -, rfl, rfl⟩ := origin?_eq_some h
  · show (origins past).length < (origins (e :: past)).length
    rw [origins_opens h, List.length_append]
    exact Nat.lt_succ_self _
  · show dropCount label name past ≤ dropCount label name (_ :: past)
    rw [dropCount_cons]
    exact Nat.le_add_right _ _

theorem known_of_mem {o : Origin} : ∀ {past : List Event}, o ∈ origins past → o.Known past
  | e :: past, h => by
    obtain hbefore | hnew := List.mem_append.mp h
    · exact (known_of_mem hbefore).cons e
    · exact known_of_origin? (Option.mem_toList.mp hnew)

/-- Only open memories receive something. -/
theorem received_of_not_mem {o : Origin} : ∀ {past : List Event}, o ∉ origins past →
    received o past = []
  | [], _ => rfl
  | e :: past, h => by
    rw [origins, List.mem_append, not_or] at h
    have hbefore := received_of_not_mem h.1
    cases e with
    | opens name registry | drops label name => exact hbefore
    | asks number m =>
      rw [received, if_neg, hbefore]
      exact fun hasked => h.1 (List.mem_of_getElem? hasked.1)

theorem contents_of_not_mem {o : Origin} {past : List Event} (h : o ∉ origins past) :
    contents o past = [] := by
  rw [contents, received_of_not_mem h]
  rfl

/-- What is asked of a memory of the origin is asked of the one memory. -/
theorem contents_asks {o : Origin} {past : List Event} {number : Nat}
    (h : (origins past)[number]? = some o) (m : Method) :
    contents o (.asks number m :: past) = (m.run Memory.store (contents o past)).2 := by
  unfold contents
  rw [received]
  by_cases hm : m.changes = true
  · rw [if_pos ⟨h, hm⟩, Store.answers_append]
    rfl
  · rw [if_neg fun hboth => hm hboth.2, memory_of_not_changes hm]

/-- What is asked of another memory is not. -/
theorem contents_asks_other {o : Origin} {past : List Event} {number : Nat}
    (h : (origins past)[number]? ≠ some o) (m : Method) :
    contents o (.asks number m :: past) = contents o past := by
  rw [contents, received, if_neg fun hboth => h hboth.1, contents]

/-! ## Handles stand for origins -/

/-- The open memories, each with its origin: those of one origin have one handle, and what this points to
has received what was made to memories of the origin. -/
structure Tracks (past : List Event) (desk : Desk) (known : List (Origin × Nat)) : Prop where
  handles : desk.handles = known.map Prod.snd
  origins : Shelf.origins past = known.map Prod.fst
  same : ∀ p ∈ known, ∀ q ∈ known, p.1 = q.1 ↔ p.2 = q.2
  bound : ∀ p ∈ known, p.2 < desk.shelf.memories.length
  content : ∀ p ∈ known, desk.shelf.memory p.2 = contents p.1 past
  registered : ∀ label name handle, desk.shelf.named? label name = some handle ↔
    (.named label name (dropCount label name past), handle) ∈ known

namespace Tracks

variable {past : List Event} {desk : Desk} {known : List (Origin × Nat)}

theorem mem_origins (h : Tracks past desk known) {p : Origin × Nat} (hp : p ∈ known) :
    p.1 ∈ Shelf.origins past :=
  h.origins ▸ List.mem_map_of_mem hp

theorem empty : Tracks [] ⟨Shelf.empty, []⟩ [] where
  handles := rfl
  origins := rfl
  same := by rintro p ⟨⟩
  bound := by rintro p ⟨⟩
  content := by rintro p ⟨⟩
  registered label name handle := by
    constructor
    · rintro ⟨⟩
    · rintro ⟨⟩

/-- A number stands for an origin and a handle. -/
theorem get?_eq_some (h : Tracks past desk known) {number : Nat} {o : Origin}
    (ho : (Shelf.origins past)[number]? = some o) :
    ∃ handle, desk.handles[number]? = some handle ∧ (o, handle) ∈ known := by
  rw [h.origins, List.getElem?_map, Option.map_eq_some_iff] at ho
  obtain ⟨⟨o', handle⟩, hmem, rfl⟩ := ho
  refine ⟨handle, ?_, List.mem_of_getElem? hmem⟩
  rw [h.handles, List.getElem?_map, hmem]
  rfl

/-- So a memory that is asked gives what the one memory of its origin gives. -/
theorem hears (h : Tracks past desk known) {number : Nat} {o : Origin}
    (ho : (Shelf.origins past)[number]? = some o) (m : Method) :
    desk.hears number m = some (m.run Memory.store (contents o past)).1 := by
  obtain ⟨handle, hhandle, hmem⟩ := h.get?_eq_some ho
  rw [Desk.hears, Desk.asked, hhandle, Option.map_some, Option.map_some, run_store,
    h.content _ hmem]

/-! ### Opening -/

/-- A memory of an origin that is known has the handle of that origin. -/
theorem opens_known (h : Tracks past desk known) {name registry : Option Text} {o : Origin}
    {handle : Nat} (ho : (Event.opens name registry).origin? past (Shelf.origins past).length = some o)
    (hmem : (o, handle) ∈ known) :
    Tracks (.opens name registry :: past) ⟨desk.shelf, desk.handles ++ [handle]⟩
      (known ++ [(o, handle)]) := by
  have hall : ∀ p ∈ known ++ [(o, handle)], p ∈ known := by
    intro p hp
    obtain hp | hp := List.mem_append.mp hp
    · exact hp
    · exact List.mem_singleton.mp hp ▸ hmem
  refine ⟨?_, ?_, fun p hp q hq => h.same p (hall p hp) q (hall q hq),
    fun p hp => h.bound p (hall p hp), fun p hp => h.content p (hall p hp), fun l n i => ?_⟩
  · rw [h.handles, List.map_append]
    rfl
  · rw [origins_opens ho, h.origins, List.map_append]
    rfl
  · rw [h.registered]
    exact ⟨List.mem_append_left _, hall _⟩

/-- A memory of an origin that is new is new itself. -/
theorem opens_new (h : Tracks past desk known) {name registry : Option Text} {o : Origin} {s : Shelf}
    (ho : (Event.opens name registry).origin? past (Shelf.origins past).length = some o)
    (hnew : o ∉ Shelf.origins past) (hmemories : s.memories = desk.shelf.allocate.2.memories)
    (hnamed : ∀ l n handle, s.named? l n = some handle ↔ desk.shelf.named? l n = some handle ∨
      o = .named l n (dropCount l n past) ∧ handle = desk.shelf.memories.length) :
    Tracks (.opens name registry :: past) ⟨s, desk.handles ++ [desk.shelf.memories.length]⟩
      (known ++ [(o, desk.shelf.memories.length)]) := by
  have hmemory : ∀ i, s.memory i = desk.shelf.memory i := by
    intro i
    rw [← memory_allocate desk.shelf i, memory, memory, hmemories]
  have hlength : s.memories.length = desk.shelf.memories.length + 1 := by
    rw [hmemories, allocate, List.length_append]
    rfl
  have hother : ∀ p ∈ known, p.1 ≠ o := fun p hp heq => hnew (heq ▸ h.mem_origins hp)
  have hbound : ∀ p ∈ known, p.2 ≠ desk.shelf.memories.length := fun p hp => (h.bound p hp).ne
  refine ⟨?_, ?_, ?_, ?_, ?_, fun l n i => ?_⟩
  · rw [h.handles, List.map_append]
    rfl
  · rw [origins_opens ho, h.origins, List.map_append]
    rfl
  · intro p hp q hq
    rw [List.mem_append, List.mem_singleton] at hp hq
    obtain hp | rfl := hp
    · obtain hq | rfl := hq
      · exact h.same p hp q hq
      · exact iff_of_false (hother p hp) (hbound p hp)
    · obtain hq | rfl := hq
      · exact iff_of_false (hother q hq).symm (hbound q hq).symm
      · exact iff_of_true rfl rfl
  · intro p hp
    rw [List.mem_append, List.mem_singleton] at hp
    show p.2 < s.memories.length
    obtain hp | rfl := hp
    · have := h.bound p hp
      omega
    · show desk.shelf.memories.length < s.memories.length
      omega
  · intro p hp
    rw [List.mem_append, List.mem_singleton] at hp
    show s.memory p.2 = contents p.1 past
    rw [hmemory]
    obtain hp | rfl := hp
    · exact h.content p hp
    · rw [contents_of_not_mem hnew, memory, List.getElem?_eq_none (Nat.le_refl _)]
      rfl
  · rw [hnamed, h.registered, List.mem_append, List.mem_singleton, Prod.mk.injEq, eq_comm (b := o)]
    rfl

/-- A memory without a name stands alone. -/
theorem opened_alone (h : Tracks past desk known) {name : Option Text}
    (hname : name = none ∨ name = some []) (registry : Option Text) :
    ∃ known, Tracks (.opens name registry :: past) (desk.opened name registry) known := by
  have ho : (Event.opens name registry).origin? past (Shelf.origins past).length =
      some (.alone (Shelf.origins past).length) := by
    obtain rfl | rfl := hname <;> rfl
  have hnew : .alone (Shelf.origins past).length ∉ Shelf.origins past :=
    fun hmem => Nat.lt_irrefl _ (known_of_mem hmem)
  have hopened : desk.opened name registry =
      ⟨desk.shelf.allocate.2, desk.handles ++ [desk.shelf.memories.length]⟩ := by
    obtain rfl | rfl := hname <;> rfl
  rw [hopened]
  refine ⟨_, h.opens_new ho hnew rfl fun l n handle => ?_⟩
  rw [named?_allocate, or_iff_left]
  rintro ⟨hnamed, -⟩
  cases hnamed

/-- The memory of a name in a registry is the one that was opened last under it, or a new one. -/
theorem opened_named (h : Tracks past desk known) {name : Text} (hname : name ≠ []) (label : Text) :
    ∃ known, Tracks (.opens (some name) (some label) :: past)
      (desk.opened (some name) (some label)) known := by
  obtain ⟨p, rest, rfl⟩ := List.exists_cons_of_ne_nil hname
  have ho : (Event.opens (some (p :: rest)) (some label)).origin? past (Shelf.origins past).length =
      some (.named label (p :: rest) (dropCount label (p :: rest) past)) := rfl
  have hopened : desk.opened (some (p :: rest)) (some label) =
      ⟨(desk.shelf.acquire label (p :: rest)).2,
        desk.handles ++ [(desk.shelf.acquire label (p :: rest)).1]⟩ := rfl
  rw [hopened]
  cases hnamed : desk.shelf.named? label (p :: rest) with
  | some handle =>
    rw [acquire_of_some hnamed]
    exact ⟨_, h.opens_known ho ((h.registered _ _ _).mp hnamed)⟩
  | none =>
    have hnew : .named label (p :: rest) (dropCount label (p :: rest) past) ∉
        Shelf.origins past := by
      intro hmem
      rw [h.origins, List.mem_map] at hmem
      obtain ⟨⟨o, handle⟩, hmem, rfl⟩ := hmem
      rw [(h.registered _ _ _).mpr hmem] at hnamed
      cases hnamed
    rw [acquire_of_none hnamed]
    refine ⟨_, h.opens_new ho hnew rfl fun l n handle => ?_⟩
    rw [named?_register (s := desk.shelf.allocate.2) hnamed, named?_allocate]
    by_cases hsame : l = label ∧ n = p :: rest
    · obtain ⟨rfl, rfl⟩ := hsame
      rw [if_pos ⟨rfl, rfl⟩, hnamed]
      simp [eq_comm]
    · rw [if_neg hsame, or_iff_left]
      rintro ⟨heq, -⟩
      obtain ⟨rfl, rfl, -⟩ := Origin.named.inj heq
      exact hsame ⟨rfl, rfl⟩

theorem opened (h : Tracks past desk known) (name registry : Option Text) :
    ∃ known, Tracks (.opens name registry :: past) (desk.opened name registry) known := by
  rcases name with _ | _ | ⟨p, name⟩
  · exact h.opened_alone (.inl rfl) registry
  · exact h.opened_alone (.inr rfl) registry
  · cases registry with
    | some label => exact h.opened_named (by simp) label
    | none =>
      -- a name without a registry opens nothing
      refine ⟨known, h.handles, ?_, h.same, h.bound, h.content, h.registered⟩
      rw [Shelf.origins, ← h.origins]
      exact List.append_nil _

/-! ### Forgetting and asking -/

/-- A name that is forgotten stands for no handle, and open memories stay what they are. -/
theorem dropped (h : Tracks past desk known) (label name : Text) :
    Tracks (.drops label name :: past) (desk.step (.drops label name)) known where
  handles := h.handles
  origins := by
    rw [Shelf.origins, ← h.origins]
    exact List.append_nil _
  same := h.same
  bound := h.bound
  content := h.content
  registered l n handle := by
    show (desk.shelf.drop label name).2.named? l n = some handle ↔ _
    rw [named?_drop, dropCount_cons]
    by_cases hsame : l = label ∧ n = name
    · obtain ⟨rfl, rfl⟩ := hsame
      have hdrop : Event.isDrop l n (.drops l n) = true := by simp [Event.isDrop]
      rw [if_pos ⟨rfl, rfl⟩, if_pos hdrop]
      refine iff_of_false (by simp) fun hmem => ?_
      have hknown : dropCount l n past + 1 ≤ dropCount l n past :=
        known_of_mem (h.mem_origins hmem)
      omega
    · have hdrop : ¬ Event.isDrop l n (.drops label name) = true := by
        rintro hdrop
        simp only [Event.isDrop, Bool.and_eq_true, decide_eq_true_eq] at hdrop
        exact hsame ⟨hdrop.1.symm, hdrop.2.symm⟩
      rw [if_neg hsame, if_neg hdrop, h.registered]
      rfl

/-- What is asked changes the memories of one origin, which are one. -/
theorem asked (h : Tracks past desk known) (number : Nat) (m : Method) :
    Tracks (.asks number m :: past) (desk.step (.asks number m)) known := by
  have horigins : Shelf.origins (.asks number m :: past) = known.map Prod.fst := by
    rw [Shelf.origins, ← h.origins]
    exact List.append_nil _
  cases ho : (Shelf.origins past)[number]? with
  | none =>
    have hhandle : desk.handles[number]? = none := by
      rw [h.origins, List.getElem?_map, Option.map_eq_none_iff] at ho
      rw [h.handles, List.getElem?_map, ho]
      rfl
    have hstep : desk.step (.asks number m) = desk := by
      rw [Desk.step, Desk.asked, hhandle]
      rfl
    rw [hstep]
    refine ⟨h.handles, horigins, h.same, h.bound, fun p hp => ?_, h.registered⟩
    rw [contents_asks_other (by rw [ho]; simp), h.content p hp]
  | some o =>
    obtain ⟨handle, hhandle, hmem⟩ := h.get?_eq_some ho
    have hstep : desk.step (.asks number m) = { desk with
        shelf := setMemory handle (m.run Memory.store (contents o past)).2 desk.shelf } := by
      rw [Desk.step, Desk.asked, hhandle, Option.map_some, Option.map_some, run_store,
        h.content _ hmem]
      rfl
    rw [hstep]
    refine ⟨h.handles, horigins, h.same, fun p hp => ?_, fun p hp => ?_, h.registered⟩
    · show p.2 < (desk.shelf.memories.set _ _).length
      rw [List.length_set]
      exact h.bound p hp
    · show (setMemory _ _ _).memory p.2 = _
      rw [memory_setMemory (h.bound _ hmem)]
      by_cases hp₂ : p.2 = handle
      · have hp₁ : p.1 = o := (h.same p hp _ hmem).mpr hp₂
        rw [if_pos hp₂, hp₁, contents_asks ho]
      · have hp₁ : o ≠ p.1 := fun heq => hp₂ ((h.same p hp _ hmem).mp heq.symm)
        rw [if_neg hp₂, h.content p hp, contents_asks_other]
        rw [ho]
        exact fun heq => hp₁ (Option.some.inj heq)

/-- Handles keep standing for origins, whatever happens. -/
theorem step (h : Tracks past desk known) (e : Event) :
    ∃ known, Tracks (e :: past) (desk.step e) known := by
  cases e with
  | opens name registry => exact h.opened name registry
  | drops label name => exact ⟨known, h.dropped label name⟩
  | asks number m => exact ⟨known, h.asked number m⟩

end Tracks

theorem tracks_after : ∀ past : List Event, ∃ known, Tracks past (Desk.after past) known
  | [] => ⟨[], Tracks.empty⟩
  | e :: past =>
    have ⟨_, h⟩ := tracks_after past
    h.step e

/-! ## Sharing -/

theorem Event.isDrop_iff {e : Event} {label name : Text} :
    e.isDrop label name = true ↔ e = .drops label name := by
  cases e with
  | opens name registry | asks number m => exact iff_of_false Bool.false_ne_true (by simp)
  | drops l n => simp [isDrop]

theorem dropCount_append (label name : Text) (between past : List Event) :
    dropCount label name (between ++ past) =
      dropCount label name between + dropCount label name past :=
  List.countP_append

theorem dropCount_eq_zero {label name : Text} {past : List Event} :
    dropCount label name past = 0 ↔ .drops label name ∉ past := by
  rw [dropCount, List.countP_eq_zero]
  constructor
  · intro h hmem
    exact h _ hmem (Event.isDrop_iff.mpr rfl)
  · intro h e he hdrop
    exact h (Event.isDrop_iff.mp hdrop ▸ he)

theorem length_origins_le (between past : List Event) :
    (origins past).length ≤ (origins (between ++ past)).length := by
  induction between with
  | nil => exact Nat.le_refl _
  | cons e between ih =>
    rw [List.cons_append, origins, List.length_append]
    omega

theorem origin?_of_origins {e : Event} {past : List Event} {o : Origin}
    (h : origins (e :: past) = origins past ++ [o]) :
    e.origin? past (origins past).length = some o := by
  rw [origins] at h
  have hlist := List.append_cancel_left h
  refine Option.mem_toList.mp ?_
  rw [hlist]
  exact List.mem_singleton_self o

/-- The origin of a memory that is opened under a name. -/
theorem origin_named {past : List Event} {label name : Text} {o : Origin} (hname : name ≠ [])
    (h : origins (.opens (some name) (some label) :: past) = origins past ++ [o]) :
    o = .named label name (dropCount label name past) := by
  obtain ⟨n, registry, heq, hn, -⟩ | ⟨l, n, -, heq, rfl⟩ := origin?_eq_some (origin?_of_origins h)
  · obtain ⟨rfl, -⟩ := Event.opens.inj heq
    obtain hnone | hempty := hn
    · cases hnone
    · exact absurd (Option.some.inj hempty) hname
  · cases heq
    rfl

/-- Of two memories one is the other if both have one name in one registry, and this was not forgotten
between them. -/
theorem origin_eq_iff {past between : List Event} {e e' : Event} {o o' : Origin}
    (h : origins (e :: past) = origins past ++ [o])
    (h' : origins (e' :: (between ++ e :: past)) = origins (between ++ e :: past) ++ [o']) :
    o = o' ↔ ∃ label name, name ≠ [] ∧ e = .opens (some name) (some label) ∧ e' = e ∧
      .drops label name ∉ between := by
  have hcount : ∀ label name, e = .opens (some name) (some label) →
      dropCount label name (between ++ e :: past) =
        dropCount label name between + dropCount label name past := by
    rintro label name rfl
    rw [dropCount_append]
    rfl
  constructor
  · rintro rfl
    obtain ⟨-, -, -, -, rfl⟩ | ⟨label, name, hname, he, rfl⟩ :=
      origin?_eq_some (origin?_of_origins h)
    · obtain ⟨-, -, -, -, heq⟩ | ⟨_, _, -, -, heq⟩ := origin?_eq_some (origin?_of_origins h')
      · have hle := length_origins_le between (e :: past)
        rw [h, List.length_append, List.length_singleton] at hle
        have := Origin.alone.inj heq
        omega
      · cases heq
    · obtain ⟨-, -, -, -, heq⟩ | ⟨l, n, -, he', heq⟩ := origin?_eq_some (origin?_of_origins h')
      · cases heq
      · obtain ⟨rfl, rfl, hsame⟩ := Origin.named.inj heq
        rw [hcount label name he] at hsame
        refine ⟨label, name, hname, he, he'.trans he.symm, dropCount_eq_zero.mp ?_⟩
        omega
  · rintro ⟨label, name, hname, rfl, rfl, hkept⟩
    rw [origin_named hname h, origin_named hname h', hcount label name rfl,
      dropCount_eq_zero.mpr hkept, Nat.zero_add]

/-- A name that was forgotten and not opened since is the name of no open memory. -/
theorem named_mem_origins {label name : Text} {n : Nat} {past : List Event} : ∀ {between : List Event},
    .opens (some name) (some label) ∉ between → .named label name n ∈ origins (between ++ past) →
    .named label name n ∈ origins past
  | [], _, hmem => hmem
  | e :: between, hnone, hmem => by
    rw [List.mem_cons, not_or] at hnone
    obtain hbefore | hnew := List.mem_append.mp hmem
    · exact named_mem_origins hnone.2 hbefore
    · obtain ⟨-, -, -, -, heq⟩ | ⟨l, m, -, he, heq⟩ := origin?_eq_some (Option.mem_toList.mp hnew)
      · cases heq
      · obtain ⟨rfl, rfl, -⟩ := Origin.named.inj heq
        exact absurd he.symm hnone.1

/-- A memory is shared by those that have the name it was opened under, in the same registry, unless the
name was forgotten between: each that is open gives what a single memory gives that received, in order,
just the writes and erasures made to those. What is done to other memories, what is opened and what is
forgotten is not seen by it, and the first memory of a name that was forgotten is empty. -/
theorem namespaces_shared (past : List Event) :
    (∀ between e e' o o', origins (e :: past) = origins past ++ [o] →
      origins (e' :: (between ++ e :: past)) = origins (between ++ e :: past) ++ [o'] →
      (o = o' ↔ ∃ label name, name ≠ [] ∧ e = .opens (some name) (some label) ∧ e' = e ∧
        .drops label name ∉ between)) ∧
    (∀ number o m, (origins past)[number]? = some o →
      (Desk.after past).hears number m = some (m.run Memory.store (contents o past)).1) ∧
    (∀ number o m e, (origins past)[number]? = some o →
      (∀ i m, e = .asks i m → (origins past)[i]? ≠ some o) →
      (Desk.after (e :: past)).hears number m = (Desk.after past).hears number m) ∧
    ∀ label name between m, name ≠ [] → .opens (some name) (some label) ∉ between →
      (Desk.after (.opens (some name) (some label) ::
        (between ++ .drops label name :: past))).hears
          (origins (between ++ .drops label name :: past)).length m =
        some (m.run Memory.store []).1 := by
  obtain ⟨known, htracks⟩ := tracks_after past
  refine ⟨fun between e e' o o' => origin_eq_iff, fun number o m ho => htracks.hears ho m,
    fun number o m e ho hother => ?_, fun label name between m hname hnone => ?_⟩
  · obtain ⟨known', htracks'⟩ := tracks_after (e :: past)
    have ho' : (origins (e :: past))[number]? = some o := by
      rw [origins, List.getElem?_append_left]
      · exact ho
      · exact (List.getElem?_eq_some_iff.mp ho).1
    have hsame : contents o (e :: past) = contents o past := by
      cases e with
      | opens name registry | drops label name => rfl
      | asks i m => exact contents_asks_other (hother i m rfl) m
    rw [htracks'.hears ho', htracks.hears ho, hsame]
  · obtain ⟨later, hlater⟩ : ∃ later, later = between ++ .drops label name :: past := ⟨_, rfl⟩
    rw [← hlater]
    obtain ⟨p, rest, rfl⟩ := List.exists_cons_of_ne_nil hname
    have hnew : .named label (p :: rest) (dropCount label (p :: rest) later) ∉ origins later := by
      intro hmem
      rw [hlater] at hmem
      have hbefore := named_mem_origins hnone hmem
      rw [origins, Event.origin?, Option.toList_none, List.append_nil] at hbefore
      have hknown : dropCount label (p :: rest) (between ++ .drops label (p :: rest) :: past) ≤
          dropCount label (p :: rest) past := known_of_mem hbefore
      rw [dropCount_append, dropCount_cons, if_pos (Event.isDrop_iff.mpr rfl)] at hknown
      omega
    have ho : (origins (.opens (some (p :: rest)) (some label) :: later))[(origins later).length]? =
        some (.named label (p :: rest) (dropCount label (p :: rest) later)) :=
      List.getElem?_concat_length ..
    obtain ⟨known', htracks'⟩ := tracks_after (.opens (some (p :: rest)) (some label) :: later)
    have hempty : contents (.named label (p :: rest) (dropCount label (p :: rest) later))
        (.opens (some (p :: rest)) (some label) :: later) = [] := by
      show contents _ later = []
      exact contents_of_not_mem hnew
    rw [htracks'.hears ho, hempty]

/-- A name in a registry is opened, forgotten and opened again, and so is the same name in another
registry; each of these memories is written to. -/
def lendings : List Event :=
  [.asks 3 (.erase "moss".toText), .asks 3 (.write "reed".toText .null),
    .asks 2 (.write "moss".toText .null), .opens (some "books".toText) (some "attic".toText),
    .opens (some "books".toText) (some "hall".toText), .asks 1 (.write "fern".toText .null),
    .drops "hall".toText "books".toText, .asks 0 (.write "ivy".toText .null),
    .opens (some "books".toText) (some "hall".toText),
    .opens (some "books".toText) (some "hall".toText)]

theorem namespaces_shared_lendings :
    origins lendings = [.named "hall".toText "books".toText 0, .named "hall".toText "books".toText 0,
      .named "hall".toText "books".toText 1, .named "attic".toText "books".toText 0] ∧
    (Desk.after lendings).hears 0 .index =
      some (.ok (.identifiers ["ivy".toText, "fern".toText])) ∧
    (Desk.after lendings).hears 2 .index = some (.ok (.identifiers ["moss".toText])) ∧
    (Desk.after lendings).hears 3 .index = some (.ok (.identifiers ["reed".toText])) ∧
    (Desk.after (.drops "hall".toText "books".toText :: lendings)).hears 2 .index =
      some (.ok (.identifiers ["moss".toText])) ∧
    (Desk.after (.opens (some "books".toText) (some "hall".toText) ::
      .drops "hall".toText "books".toText :: lendings)).hears 4 .index =
      some (.ok (.identifiers [])) := by
  obtain ⟨-, hhears, hkeeps, hempty⟩ := namespaces_shared lendings
  refine ⟨by decide, ?_, ?_, ?_, ?_, ?_⟩
  · exact (hhears 0 _ .index rfl).trans rfl
  · exact (hhears 2 _ .index rfl).trans rfl
  · exact (hhears 3 _ .index rfl).trans rfl
  · refine (hkeeps 2 _ .index _ rfl fun i m h => by cases h).trans ?_
    exact (hhears 2 _ .index rfl).trans rfl
  · exact hempty "hall".toText "books".toText [] .index (by decide) (by simp)

end Cabinet.Shelf
