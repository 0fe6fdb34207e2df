import Cabinet.Proofs.Collection.Matching
import Cabinet.Proofs.Store.Keyed
import Cabinet.Store.Traced

/-!
# Bulk changes that fail on their way

A store may fail at any call. A bulk change reads all that it is about before it changes anything,
and then changes one document after another: what is left behind by a failure is a beginning.

* `Keeps` : what a store holds, and what its calls make of that;
* `Reads`, `ReadFails` : calls that read one after another, all of them or up to one that fails;
* `Outcome` : what a bulk change can come to;
* `bulk_stopsAtFailure` : what it does come to, `bulk_changes_stop_at_failure` : the same of updates
  and removals;
* `Memory.keeps`, `Keeps.focus`, `Keeps.traced` : stores that keep to what is asked of them.
-/

namespace Cabinet

variable {σ κ : Type}

open Collection

/-! ## What a store holds -/

/-- In every state the store holds something under some identifiers. Its calls change nothing else,
and nothing at all if they fail; a document that is read is the one that is held. -/
structure Keeps (s : Store σ) (held : σ → Text → Option κ) (shown : κ → Document)
    (kept : Value → κ) : Prop where
  index : ∀ w, held (s.index w).2 = held w
  read : ∀ id w, held (s.read id w).2 = held w
  read_ok : ∀ id w d w', s.read id w = (.ok d, w') → (held w id).map shown = some d
  write_ok : ∀ id v w w', s.write id v w = (.ok (), w') →
    held w' = replaced (held w) id (some (kept v))
  write_error : ∀ id v w e w', s.write id v w = (.error e, w') → held w' = held w
  erase_ok : ∀ id w w', s.erase id w = (.ok (), w') → held w' = replaced (held w) id none
  erase_error : ∀ id w e w', s.erase id w = (.error e, w') → held w' = held w

/-- The document under an identifier, as it would be read. -/
def heldDocument (held : Text → Option κ) (shown : κ → Document) (id : Text) : Document :=
  ((held id).map shown).getD []

/-! ## Reading -/

/-- Only calls that read lead from one state to the other, and none of them fails. -/
inductive Reads (s : Store σ) : σ → σ → Prop where
  | none (w : σ) : Reads s w w
  | index {w w₁ w' : σ} {ids : List Text} (before : Reads s w w₁)
    (lists : s.index w₁ = (.ok ids, w')) : Reads s w w'
  | read {w w₁ w' : σ} {id : Text} {d : Document} (before : Reads s w w₁)
    (reads : s.read id w₁ = (.ok d, w')) : Reads s w w'

/-- Calls that read lead to one that fails, or to a condition that fails on a document in store. -/
inductive ReadFails (s : Store σ) (accepts : Predicate) (doc : Text → Document) (e : Failure) :
    σ → σ → Prop where
  | index {w w₁ w' : σ} (before : Reads s w w₁) (refused : s.index w₁ = (.error e, w')) :
    ReadFails s accepts doc e w w'
  | read {w w₁ w' : σ} {id : Text} (before : Reads s w w₁)
    (refused : s.read id w₁ = (.error e, w')) : ReadFails s accepts doc e w w'
  | condition {w w₀ w' : σ} {ids : List Text} {id : Text} (before : Reads s w w')
    (lists : s.index w = (.ok ids, w₀)) (among : id ∈ ids)
    (refused : accepts (.object (doc id)) = .error e) : ReadFails s accepts doc e w w'

section Reading
variable {s : Store σ} {held : σ → Text → Option κ} {shown : κ → Document} {kept : Value → κ}
  {w w' : σ}

theorem Reads.held_eq (hs : Keeps s held shown kept) (h : Reads s w w') : held w' = held w := by
  induction h with
  | none => rfl
  | index before lists ih => exact (lists ▸ hs.index _ :).trans ih
  | read before reads ih => exact (reads ▸ hs.read _ _ :).trans ih

theorem ReadFails.held_eq (hs : Keeps s held shown kept) {accepts : Predicate}
    {doc : Text → Document} {e : Failure} (h : ReadFails s accepts doc e w w') : held w' = held w := by
  cases h with
  | index before refused => exact (refused ▸ hs.index _ :).trans (before.held_eq hs)
  | read before refused => exact (refused ▸ hs.read _ _ :).trans (before.held_eq hs)
  | condition before lists among refused => exact before.held_eq hs

end Reading

/-! ## Bulk changes -/

/-- What a bulk change can come to. Either reading fails, and nothing has changed; or everything is
read, and the actions on a beginning of the matches have gone through: on all of them, or on those
before one whose action fails with the failure that the change then fails with. -/
inductive Outcome (s : Store σ) (accepts : Predicate) (multi : Bool) (act : Item → Action σ Unit)
    (held : σ → Text → Option κ) (shown : κ → Document) (left : Item → Option κ → Prop) (w : σ) :
    Except Failure Nat × σ → Prop where
  | unread {e : Failure} {w' : σ}
    (fails : ReadFails s accepts (heldDocument (held w) shown) e w w') (same : held w' = held w) :
    Outcome s accepts multi act held shown left w (.error e, w')
  | stopped {ids : List Text} {w₀ w₁ w₂ w' : σ} {done rest : List Item} {x : Item} {e : Failure}
    (lists : s.index w = (.ok ids, w₀)) (reads : Reads s w w₁)
    (splits : matching accepts multi ids (heldDocument (held w) shown) = done ++ x :: rest)
    (acts : Acts act done w₁ w₂) (fails : act x w₂ = (.error e, w'))
    (changes : ∀ y ∈ done, left y (held w' y.id))
    (keeps : ∀ i, i ∉ done.map Item.id → held w' i = held w i) :
    Outcome s accepts multi act held shown left w (.error e, w')
  | complete {ids : List Text} {w₀ w₁ w' : σ} {items : List Item}
    (lists : s.index w = (.ok ids, w₀)) (reads : Reads s w w₁)
    (all : matching accepts multi ids (heldDocument (held w) shown) = items)
    (acts : Acts act items w₁ w')
    (changes : ∀ y ∈ items, left y (held w' y.id))
    (keeps : ∀ i, i ∉ items.map Item.id → held w' i = held w i) :
    Outcome s accepts multi act held shown left w (.ok items.length, w')

/-- What a bulk change comes to in every state: it fails at once if it is not well-formed. -/
def StopsAtFailure (s : Store σ) (condition : Given Predicate) (multi : Except Failure Bool)
    (act : Item → Action σ Unit) (held : σ → Text → Option κ) (shown : κ → Document)
    (left : Item → Option κ → Prop) (run : Action σ Nat) : Prop :=
  ∀ w, match multi, Condition.compile condition with
    | .error e, _ => run w = (.error e, w)
    | .ok _, .error e => run w = (.error (.query e), w)
    | .ok multi, .ok accepts => Outcome s accepts multi act held shown left w (run w)

section Bulk
variable {s : Store σ} {held : σ → Text → Option κ} {shown : κ → Document} {kept : Value → κ}

/-- A store that lists its identifiers answers with what it holds, or fails after calls that read. -/
theorem Keeps.answers (hs : Keeps s held shown kept) {w w₀ : σ} {ids : List Text}
    (hindex : s.index w = (.ok ids, w₀)) (accepts : Predicate) :
    Answers s ⟨(· = w), Reads s w,
      fun e => ReadFails s accepts (heldDocument (held w) shown) e w⟩
      ids (heldDocument (held w) shown) where
  index := by
    rintro _ rfl
    rw [hindex]
    exact .ok (.index (.none _) hindex)
  index_none := by
    rintro _ rfl e he
    rw [hindex] at he
    cases he
  read id _ w₁ hw := by
    rcases hread : s.read id w₁ with ⟨e | d, w'⟩
    · exact .failure (.read hw hread)
    · have hd := hs.read_ok id w₁ d w' hread
      rw [hw.held_eq hs] at hd
      have hdoc : heldDocument (held w) shown id = d := by rw [heldDocument, hd]; rfl
      rw [hdoc]
      exact .ok (.read hw hread)

/-- The query of a bulk change gives the matches among the documents that are held, if no call fails
and the condition fails on none. -/
theorem query_answered (hs : Keeps s held shown kept) {w w₀ : σ} {ids : List Text}
    (hindex : s.index w = (.ok ids, w₀)) {condition : Given Predicate} {accepts : Predicate}
    (hcondition : Condition.compile condition = .ok accepts) (multi : Bool) :
    Answered (matching accepts multi ids (heldDocument (held w) shown)) (Reads s w)
      (fun e => ReadFails s accepts (heldDocument (held w) shown) e w)
      (runQuery (matchQuery s condition multi) Cursor.items w) := by
  let may (e : Failure) : Prop :=
    ∃ id ∈ ids, accepts (.object (heldDocument (held w) shown id)) = .error e
  have hreads : ∀ w', w' = w ∨ Reads s w w' → Reads s w w' := by
    rintro w' (rfl | h)
    · exact .none _
    · exact h
  have hmay : ∀ e, may e → ∀ w', w' = w ∨ Reads s w w' →
      ReadFails s accepts (heldDocument (held w) shown) e w w' := by
    rintro e ⟨id, hid, he⟩ w' hw
    exact .condition (hreads w' hw) hindex hid he
  have haccepts : ∀ x ∈ storedItems none ids (heldDocument (held w) shown), ∀ e,
      accepts x.document = .error e → may e := by
    intro x hx e he
    obtain ⟨id, hid, rfl⟩ := List.mem_map.mp hx
    exact ⟨id, hid, he⟩
  have hquery := runQuery_answered (hs.answers hindex accepts) hmay hcondition haccepts multi rfl
  generalize runQuery (matchQuery s condition multi) Cursor.items w = r at hquery ⊢
  cases hquery with
  | ok good => exact .ok (hreads _ good)
  | failure fails => exact .failure fails

/-- A bulk change of a store that may fail at any call reads everything first, and leaves a beginning
of its changes behind. -/
theorem bulk_stopsAtFailure (hs : Keeps s held shown kept) {act : Item → Action σ Unit}
    {left : Item → Option κ → Prop}
    (hact : Leaves act (fun _ => True) (fun _ => True) held left)
    (herror : ∀ x w e w', act x w = (.error e, w') → held w' = held w) (condition : Given Predicate)
    (multi : Except Failure Bool) :
    StopsAtFailure s condition multi act held shown left (bulk s condition multi act) := by
  intro w
  rcases multi with e | multi
  · rfl
  cases hcondition : Condition.compile condition with
  | error e =>
    simp only
    rw [bulk, Action.bind_apply, Action.ofExcept_apply]
    simp only [Action.bind_apply, runQuery_refused hcondition]
  | ok accepts =>
    simp only
    rw [bulk, Action.bind_apply, Action.ofExcept_apply]
    simp only [Action.bind_apply]
    rcases hindex : s.index w with ⟨e | ids, w₀⟩
    · rw [runQuery_unlisted hcondition multi hindex]
      exact .unread (.index (.none w) hindex) (hindex ▸ hs.index w :)
    · have hquery := query_answered hs hindex hcondition multi
      generalize runQuery (matchQuery s condition multi) Cursor.items w = r at hquery ⊢
      cases hquery with
      | failure fails => exact .unread fails (fails.held_eq hs)
      | @ok w₁ reads =>
        simp only
        obtain ⟨w', acts, hrun⟩ | ⟨done, x, rest, w₂, w', e, splits, acts, fails, hrun⟩ :=
          actAll_cases act (matching accepts multi ids (heldDocument (held w) shown)) w₁
        · obtain ⟨-, changes, keeps⟩ := acts.held_eq hact (fun _ _ => trivial)
            (fun x hx y hy => eq_of_mem_matching hx hy) trivial
          rw [hrun]
          exact .complete hindex reads rfl acts changes (reads.held_eq hs ▸ keeps)
        · obtain ⟨-, changes, keeps⟩ := acts.held_eq hact (fun _ _ => trivial)
            (fun x hx y hy => eq_of_mem_matching (splits ▸ List.mem_append_left _ hx)
              (splits ▸ List.mem_append_left _ hy)) trivial
          rw [← herror x w₂ e w' fails] at changes keeps
          rw [hrun]
          exact .stopped hindex reads splits acts fails changes (reads.held_eq hs ▸ keeps)

theorem leaves_write (hs : Keeps s held shown kept) (change : Option Transform) :
    Leaves (writeChanged s change) (fun _ => True) (fun _ => True) held fun x k =>
      ∃ v, changed change x.document = .ok v ∧ k = some (kept v) := by
  intro x w w' _ _ h
  obtain ⟨v, hv, hwrite⟩ := writeChanged_ok h
  exact ⟨trivial, some (kept v), ⟨v, hv, rfl⟩, hs.write_ok x.id v w w' hwrite⟩

theorem writeChanged_error (hs : Keeps s held shown kept) {change : Option Transform} (x : Item)
    (w : σ) (e : Failure) (w' : σ) (h : writeChanged s change x w = (.error e, w')) :
    held w' = held w := by
  rw [writeChanged, Action.bind_apply, Action.ofExcept_apply] at h
  cases hv : changed change x.document with
  | error e =>
    rw [hv] at h
    cases h
    rfl
  | ok v =>
    rw [hv] at h
    exact hs.write_error x.id v w e w' h

theorem leaves_erase (hs : Keeps s held shown kept) :
    Leaves (fun item => s.erase item.id) (fun _ => True) (fun _ => True) held fun _ k => k = none :=
  fun x w w' _ _ h => ⟨trivial, none, rfl, hs.erase_ok x.id w w' h⟩

/-- Over a store that may fail at any call, an update or a removal reads everything before it changes
anything. If it fails on its way, exactly the matches before the one that failed are changed; what
cannot be compiled fails before the store is asked. -/
theorem bulk_changes_stop_at_failure (c : Collection σ) (hs : Keeps c.store held shown kept)
    (condition : Given Predicate) (options : Value) :
    (∀ update, match Update.compile update with
      | .error e => ∀ w, c.update condition update options w = (.error (.query e), w)
      | .ok change =>
        StopsAtFailure c.store condition (Collection.option options "multi" true)
          (writeChanged c.store change) held shown
          (fun x k => ∃ v, changed change x.document = .ok v ∧ k = some (kept v))
          (c.update condition update options)) ∧
    StopsAtFailure c.store condition (Collection.eraseMulti options)
      (fun item => c.store.erase item.id) held shown (fun _ k => k = none)
      (c.remove condition options) := by
  refine ⟨fun update => ?_, ?_⟩
  · cases hupdate : Update.compile update with
    | error e => exact Collection.update_refused c condition hupdate options
    | ok change =>
      simp only
      rw [Collection.update_eq c condition hupdate options]
      exact bulk_stopsAtFailure hs (leaves_write hs change) (writeChanged_error hs) condition _
  · rw [Collection.remove_eq c condition options]
    exact bulk_stopsAtFailure hs (leaves_erase hs) (fun x => hs.erase_error x.id) condition _

end Bulk

/-! ## Stores that keep to this -/

/-- A memory holds encoded documents, and its calls change nothing if they fail. -/
theorem Memory.keeps : Keeps Memory.store Memory.get?
    (fun kept => (Store.decodeJson Memory.storeName kept).toOption.getD [])
    (fun v => (Store.encodeJson .compact Memory.storeName v).toOption.getD []) where
  index _ := rfl
  read id w := by
    simp only [Memory.store]
    split <;> rfl
  read_ok id w d w' h := by
    simp only [Memory.store] at h
    split at h
    · cases h
    · next kept hkept =>
      rw [hkept]
      have hd := congrArg Prod.fst h
      simp only at hd
      rw [Option.map_some, hd]
      rfl
  write_ok id v w w' h := by
    simp only [Memory.store] at h
    split at h
    · cases h
    · next kept hkept =>
      obtain rfl := congrArg Prod.snd h
      funext i
      rw [hkept]
      rw [get?_eq, put_eq, Keyed.get?_put, replaced, get?_eq]
      rfl
  write_error id v w e w' h := by
    simp only [Memory.store] at h
    split at h
    · obtain rfl := congrArg Prod.snd h
      rfl
    · cases h
  erase_ok id w w' h := by
    simp only [Memory.store] at h
    split at h
    · cases h
    · obtain rfl := congrArg Prod.snd h
      funext i
      rw [get?_eq, replaced, get?_eq]
      exact Keyed.get?_remove w id i
  erase_error id w e w' h := by
    simp only [Memory.store] at h
    split at h
    · obtain rfl := congrArg Prod.snd h
      rfl
    · cases h

section Wrapped
variable {s : Store σ} {held : σ → Text → Option κ} {shown : κ → Document} {kept : Value → κ}

/-- A store over a part of a state keeps to what it keeps to over the part. -/
theorem Keeps.focus (hs : Keeps s held shown kept) {τ : Type} {get : τ → σ} {put : σ → τ → τ}
    (hget : ∀ w t, get (put w t) = w) :
    Keeps (s.focus get put) (fun t => held (get t)) shown kept where
  index t := (congrArg held (hget _ t)).trans (hs.index (get t))
  read id t := (congrArg held (hget _ t)).trans (hs.read id (get t))
  read_ok id t d _ h := hs.read_ok id (get t) d _ (focus_run hget h)
  write_ok id v t _ h := hs.write_ok id v (get t) _ (focus_run hget h)
  write_error id v t e _ h := hs.write_error id v (get t) e _ (focus_run hget h)
  erase_ok id t _ h := hs.erase_ok id (get t) _ (focus_run hget h)
  erase_error id t e _ h := hs.erase_error id (get t) e _ (focus_run hget h)

/-- So does a store behind a wrapper that keeps a record and feigns failures. -/
theorem Keeps.traced (hs : Keeps s held shown kept) {r : Recorder σ}
    (hrecord : ∀ call w, held (r.record call w) = held w)
    (hcount : ∀ w, held (r.countWrite w) = held w) (faults : Faults) :
    Keeps (s.traced r faults) held shown kept where
  index w := (hs.index _).trans (hrecord _ w)
  read id w := by
    simp only [Store.traced, Store.recorded]
    split
    · exact hrecord _ w
    · exact (hs.read id _).trans (hrecord _ w)
  read_ok id w d w' h := by
    simp only [Store.traced, Store.recorded] at h
    split at h
    · cases h
    · exact hrecord _ w ▸ hs.read_ok id _ d w' h
  write_ok id v w w' h := by
    simp only [Store.traced, Store.recorded, Store.countedWrite] at h
    split at h
    · cases h
    · split at h
      · next w₁ hwrite =>
        obtain rfl := (Prod.mk.inj h).2
        rw [hcount, hs.write_ok id v _ w₁ hwrite, hrecord]
      · next hfailed => exact absurd h (hfailed w')
  write_error id v w e w' h := by
    simp only [Store.traced, Store.recorded, Store.countedWrite] at h
    split at h
    · rw [← (Prod.mk.inj h).2, hrecord]
    · split at h
      · cases h
      · rw [hs.write_error id v _ e w' h, hrecord]
  erase_ok id w w' h := (hs.erase_ok id _ w' h).trans (by rw [hrecord])
  erase_error id w e w' h := (hs.erase_error id _ e w' h).trans (hrecord _ w)

end Wrapped

/-! ## A memory that takes one write -/

/-- A memory that takes one write, and counts. -/
def fullStore : Store (Memory × Nat) :=
  (Memory.store.focus Prod.fst fun m w => (m, w.2)).traced
    ⟨fun _ w => w, Prod.snd, fun w => (w.1, w.2 + 1)⟩ ⟨[], some 1⟩

theorem fullStore_keeps : Keeps fullStore (fun w => Memory.get? w.1)
    (fun kept => (Store.decodeJson Memory.storeName kept).toOption.getD [])
    (fun v => (Store.encodeJson .compact Memory.storeName v).toOption.getD []) :=
  (Memory.keeps.focus fun _ _ => rfl).traced (fun _ _ => rfl) (fun _ => rfl) _

def fullCollection : Collection (Memory × Nat) := ⟨fullStore, "id".toText, fun w => (.ok [], w)⟩

theorem bulk_changes_stop_at_failure_full :
    Outcome fullStore (Condition.meets [(.text "on".toText, .bool true)]) true
      (writeChanged fullStore (some addedOne))
      (fun w => Memory.get? w.1)
      (fun kept => (Store.decodeJson Memory.storeName kept).toOption.getD [])
      (fun x k => ∃ v, changed (some addedOne) x.document = .ok v ∧
        k = some ((Store.encodeJson .compact Memory.storeName v).toOption.getD []))
      (Cursor.lamps, 0)
      (.error (.feigned "disk full".toText),
        Memory.put Cursor.lamps "a".toText "\x7b\"n\": 2, \"on\": true\x7d".toText, 1) := by
  have hrun : fullCollection.update Cursor.isOn addOne .null (Cursor.lamps, 0) =
      (.error (.feigned "disk full".toText),
        Memory.put Cursor.lamps "a".toText "\x7b\"n\": 2, \"on\": true\x7d".toText, 1) := by
    cbv
  rw [← hrun]
  exact (bulk_changes_stop_at_failure fullCollection fullStore_keeps Cursor.isOn .null).1 addOne
    (Cursor.lamps, 0)

end Cabinet
