import Cabinet.Proofs.Store.Method
import Cabinet.Store.Denied
import Cabinet.Store.Folder
import Cabinet.Store.Memory

/-!
# What a wrapper that refuses operations lets through

* `Method.isPassedOn` : the methods that the wrapper does not answer by itself;
* `run_deny`, `run_deny_deny` : such a method is refused or does what it does without the wrapper, and
  two wrappers are one;
* `Failure.inName`, `Action.inName` : failures but for the name of the store whose text they are about;
* `WritesCompact`, `ReadsJson` : stores whose texts are those of the wrapper, which keeps documents as
  JSON on one line;
* `deny_transparent` : what the wrapper passes on, what it refuses, and what two of them do;
* `deny_lays_out` : the layout of the texts of a folder is not passed on.
-/

namespace Cabinet

variable {σ α β : Type}

/-- The failure with another name in the place of the store's, where it is about the store's text. -/
def Failure.inName (name : Text) : Failure → Failure
  | .encode _ e => .encode name e
  | .decode _ e => .decode name e
  | .notDocument _ => .notDocument name
  | e => e

/-- An action whose failures are those of the store of a name. -/
def Action.inName (name : Text) (a : Action σ α) : Action σ α := fun w =>
  ((a w).1.mapError (Failure.inName name), (a w).2)

namespace Store

/-! ## Refusing -/

section Refusing
variable {denied : List Operation} {op : Operation}

theorem unlessDenied_of_mem (h : op ∈ denied) (a : Action σ α) :
    unlessDenied denied op a = Action.ofExcept (.error (.denied op)) :=
  if_pos (List.elem_eq_true_of_mem h)

theorem unlessDenied_of_not_mem (h : op ∉ denied) (a : Action σ α) : unlessDenied denied op a = a := by
  unfold unlessDenied
  rw [if_neg]
  simpa using h

theorem map_unlessDenied (f : α → β) (a : Action σ α) :
    f <$> unlessDenied denied op a = unlessDenied denied op (f <$> a) := by
  by_cases h : op ∈ denied
  · rw [unlessDenied_of_mem h, unlessDenied_of_mem h]
    funext w
    rw [Action.map_apply]
    rfl
  · rw [unlessDenied_of_not_mem h, unlessDenied_of_not_mem h]

/-- What is refused twice is refused as soon as one of the two refuses it. -/
theorem unlessDenied_unlessDenied (denied more : List Operation) (op : Operation) (a : Action σ α) :
    unlessDenied more op (unlessDenied denied op a) = unlessDenied (denied ∪ more) op a := by
  by_cases hmore : op ∈ more
  · rw [unlessDenied_of_mem hmore, unlessDenied_of_mem (List.mem_union_right denied hmore)]
  · rw [unlessDenied_of_not_mem hmore]
    by_cases h : op ∈ denied
    · rw [unlessDenied_of_mem h, unlessDenied_of_mem (List.mem_union_left h more)]
    · have hneither : op ∉ denied ∪ more := by
        rw [List.mem_union_iff]
        exact not_or.mpr ⟨h, hmore⟩
      rw [unlessDenied_of_not_mem h, unlessDenied_of_not_mem hneither]

end Refusing

/-! ## Methods behind the wrapper -/

/-- Whether the wrapper passes a method on, rather than answering it by itself. -/
def Method.isPassedOn : Method → Bool
  | .encode _ | .decode _ => false
  | .read _ | .write _ _ | .erase _ | .exist _ | .index | .escape _ | .unescape _ => true

theorem Method.isPassedOn_of_operation? {m : Method} {op : Operation} (h : m.operation? = some op) :
    m.isPassedOn = true := by
  cases m with
  | read id | write id v | erase id | exist id | index | escape id | unescape key => rfl
  | encode v | decode kept => cases h

/-- What a method does unless it is refused. -/
def Method.unlessDenied (denied : List Operation) (m : Method) (a : Action σ Answer) :
    Action σ Answer :=
  match m.operation? with
  | some op => Store.unlessDenied denied op a
  | none => a

theorem Method.unlessDenied_of_allowed {denied : List Operation} {m : Method}
    (h : ∀ op ∈ m.operation?, op ∉ denied) (a : Action σ Answer) : m.unlessDenied denied a = a := by
  unfold Method.unlessDenied
  split
  · next op hop => exact unlessDenied_of_not_mem (h op hop) a
  · rfl

/-- Of what the wrapper passes on some is refused, and the rest is as without it. -/
theorem run_deny (s : Store σ) (denied : List Operation) {m : Method} (hm : m.isPassedOn = true) :
    m.run (s.deny denied) = m.unlessDenied denied (m.run s) := by
  cases m with
  | read id | write id v | erase id | exist id | index => exact map_unlessDenied _ _
  | escape id | unescape key => rfl
  | encode v | decode kept => cases hm

theorem run_deny_deny (s : Store σ) (denied more : List Operation) {m : Method}
    (hm : m.isPassedOn = true) :
    m.run ((s.deny denied).deny more) = m.run (s.deny (denied ∪ more)) := by
  rw [run_deny _ more hm, run_deny s denied hm, run_deny s _ hm]
  unfold Method.unlessDenied
  cases m.operation? with
  | none => rfl
  | some op => exact unlessDenied_unlessDenied denied more op _

/-! ## Texts behind the wrapper -/

/-- Documents become JSON text on one line, in the store's name. -/
def WritesCompact (s : Store σ) : Prop := ∀ v, s.encode v = encodeJson .compact s.name v

/-- Documents are read from JSON text, in the store's name. -/
def ReadsJson (s : Store σ) : Prop := ∀ kept, s.decode kept = decodeJson s.name kept

theorem memory_writesCompact : Memory.store.WritesCompact := fun _ => rfl

theorem json_readsJson (folder : Disk.Path) : (Folder.store .json folder).ReadsJson := fun _ => rfl

theorem deny_writesCompact (s : Store σ) (denied : List Operation) : (s.deny denied).WritesCompact :=
  fun _ => rfl

theorem deny_readsJson (s : Store σ) (denied : List Operation) : (s.deny denied).ReadsJson := fun _ => rfl

theorem encodeJson_inName (style : Json.Style) (own name : Text) (v : Value) :
    (encodeJson style own v).mapError (Failure.inName name) = encodeJson style name v := by
  unfold encodeJson
  cases Json.write style v <;> rfl

theorem decodeJson_inName (own name kept : Text) :
    (decodeJson own kept).mapError (Failure.inName name) = decodeJson name kept := by
  unfold decodeJson
  cases Json.parse kept with
  | error e => rfl
  | ok v => cases v <;> rfl

/-- Stores that write compact JSON write the same, but for their names in failures. -/
theorem WritesCompact.inName {s : Store σ} (hs : s.WritesCompact) (name : Text) (v : Value) :
    (s.encode v).mapError (Failure.inName name) = encodeJson .compact name v := by
  rw [hs, encodeJson_inName]

theorem ReadsJson.inName {s : Store σ} (hs : s.ReadsJson) (name kept : Text) :
    (s.decode kept).mapError (Failure.inName name) = decodeJson name kept := by
  rw [hs, decodeJson_inName]

theorem ofExcept_inName (f : α → β) (name : Text) (r : Except Failure α) :
    (Action.ofExcept (r.map f) : Action σ β).inName name =
      .ofExcept ((r.mapError (Failure.inName name)).map f) := by
  funext w
  cases r <;> rfl

/-- Two wrappers are one in all that they do, but for the names in failures of their texts. -/
theorem run_deny_deny_inName (s : Store σ) (denied more : List Operation) (name : Text) (m : Method) :
    (m.run ((s.deny denied).deny more)).inName name = (m.run (s.deny (denied ∪ more))).inName name := by
  cases m with
  | encode v =>
    rw [Method.run, Method.run, ofExcept_inName, ofExcept_inName,
      (deny_writesCompact (s.deny denied) more).inName, (deny_writesCompact s _).inName]
  | decode kept =>
    rw [Method.run, Method.run, ofExcept_inName, ofExcept_inName,
      (deny_readsJson (s.deny denied) more).inName, (deny_readsJson s _).inName]
  | read id | write id v | erase id | exist id | index | escape id | unescape key =>
    rw [run_deny_deny s denied more rfl]

/-! ## Transparency -/

/-- Behind the wrapper a method that is passed on and not refused gives and does what it does without
it, whatever the store is; one that is refused does nothing. A wrapper around a wrapper is one wrapper
that refuses what either does. The texts of documents are not passed on: they are JSON on one line, so
they are the store's own if it writes and reads those. Names in failures of these texts differ. -/
theorem deny_transparent (s : Store σ) (denied more : List Operation) :
    (∀ m : Method, m.isPassedOn = true → (∀ op ∈ m.operation?, op ∉ denied) →
      m.run (s.deny denied) = m.run s) ∧
    (∀ (m : Method) (op : Operation), m.operation? = some op → op ∈ denied →
      m.run (s.deny denied) = .ofExcept (.error (.denied op))) ∧
    (∀ m : Method, m.isPassedOn = true →
      m.run ((s.deny denied).deny more) = m.run (s.deny (denied ∪ more))) ∧
    (∀ (m : Method) (name : Text),
      (m.run ((s.deny denied).deny more)).inName name = (m.run (s.deny (denied ∪ more))).inName name) ∧
    (s.WritesCompact → ∀ (v : Value) (name : Text),
      ((s.deny denied).encode v).mapError (Failure.inName name) =
        (s.encode v).mapError (Failure.inName name)) ∧
    (s.ReadsJson → ∀ kept name : Text,
      ((s.deny denied).decode kept).mapError (Failure.inName name) =
        (s.decode kept).mapError (Failure.inName name)) := by
  refine ⟨fun m hm hallowed => ?_, fun m op hop hdenied => ?_,
    fun m hm => run_deny_deny s denied more hm,
    fun m name => run_deny_deny_inName s denied more name m, fun hs v name => ?_,
    fun hs kept name => ?_⟩
  · rw [run_deny s denied hm, Method.unlessDenied_of_allowed hallowed]
  · rw [run_deny s denied (Method.isPassedOn_of_operation? hop)]
    simp only [Method.unlessDenied, hop, unlessDenied_of_mem hdenied]
  · rw [(deny_writesCompact s denied).inName, hs.inName]
  · rw [(deny_readsJson s denied).inName, hs.inName]

/-- One document, in a memory. -/
def onePlant : Memory := [("fern".toText, "\x7b\"age\": 3\x7d".toText)]

/-- The document that is there can be read and no other be written, and nothing can be taken away. -/
theorem deny_transparent_plant :
    ((Method.read "fern".toText).run (Memory.store.deny [.write]) onePlant) =
      (.ok (.document [(.text "age".toText, .int 3)]), onePlant) ∧
    ((Method.write "moss".toText .null).run (Memory.store.deny [.write]) onePlant) =
      (.error (.denied .write), onePlant) ∧
    ((Method.erase "fern".toText).run ((Memory.store.deny [.write]).deny [.erase]) onePlant) =
      (.error (.denied .erase), onePlant) ∧
    ((Memory.store.deny [.write]).encode (.object [(.text "age".toText, .int 3)])).mapError
      (Failure.inName []) = .ok "\x7b\"age\": 3\x7d".toText ∧
    (((Folder.store .json ⟨[]⟩).deny [.write]).decode "\x7b\"age\": 3\x7d".toText).mapError
      (Failure.inName []) = .ok [(.text "age".toText, .int 3)] := by
  obtain ⟨hallowed, hrefused, htwice, -, hwrites, -⟩ := deny_transparent Memory.store [.write] [.erase]
  obtain ⟨-, -, -, -, -, hreads⟩ := deny_transparent (Folder.store .json ⟨[]⟩) [.write] []
  refine ⟨?_, ?_, ?_, ?_, ?_⟩
  · rw [hallowed (.read "fern".toText) rfl (by decide)]
    cbv
  · rw [hrefused (.write "moss".toText .null) .write rfl (by decide), Action.ofExcept_apply]
  · rw [htwice (.erase "fern".toText) rfl]
    rfl
  · rw [hwrites memory_writesCompact]
    cbv
  · rw [hreads (json_readsJson ⟨[]⟩)]
    cbv

/-- A folder lays JSON out on several lines, and the wrapper around it does not, although it refuses no
more than writing. -/
theorem deny_lays_out :
    let s := Folder.store .json ⟨[]⟩
    let m := Method.encode (.object [(.text "age".toText, .int 3)])
    (m.run s []).1 = .ok (.text "\x7b\n  \"age\": 3\n\x7d".toText) ∧
    (m.run (s.deny [.write]) []).1 = .ok (.text "\x7b\"age\": 3\x7d".toText) ∧
    m.run (s.deny [.write]) ≠ m.run s := by
  intro s m
  have hown : (m.run s []).1 = .ok (.text "\x7b\n  \"age\": 3\n\x7d".toText) := by cbv
  have hbehind : (m.run (s.deny [.write]) []).1 = .ok (.text "\x7b\"age\": 3\x7d".toText) := by cbv
  refine ⟨hown, hbehind, fun hsame => ?_⟩
  rw [hsame, hown] at hbehind
  exact absurd hbehind (by decide)

end Store

end Cabinet
