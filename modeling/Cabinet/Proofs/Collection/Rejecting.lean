import Cabinet.Proofs.Collection.Removal
import Cabinet.Proofs.Command.Script
import Cabinet.Proofs.Store.Standing

/-!
# Changes of a collection in a folder that are rejected

A bulk change that fails on its way leaves a beginning of its changes behind. It is never rejected on its way:
what it is about is found and read before the first document changes, and after that only a document or the
system can be at fault.

* `Premises.IsOpen` : the store of a folder that is there; `Premises.openStore_runs` : such a store is opened;
* `IsOpen.write_runs`, `IsOpen.erase_runs` : what its changes come to;
* `Collection.found_runs`, `Collection.found_distinct` : the query of a change only looks, and what a removal
  finds has different identifiers;
* `Update.failsOnly_mutate` : what an update can fail by on a document;
* `Collection.update_rejected`, `Collection.findAndModify_rejected`, `Collection.remove_failed` : a change that
  is rejected leaves everything as it was.
-/

namespace Cabinet

/-! ## Stores of folders that are there -/

namespace Premises

/-- The store of a folder that is there, in one of the formats. -/
def IsOpen (s : Store Premises) (p : Premises) : Prop :=
  ∃ format ∈ Format.all, ∃ folder, s = folderStore format folder ∧ Folder.Stands folder p.disk

theorem IsOpen.isFolder {s : Store Premises} {p : Premises} (h : IsOpen s p) : Command.IsFolder s := by
  obtain ⟨format, -, folder, rfl, -⟩ := h
  exact ⟨format, folder, rfl⟩

/-- An operation on the disk runs as it does by itself, and only the disk may be another. -/
theorem onDisk_runs {α : Type} {a : Action Disk α} {pre : Disk → Prop} {post : α → Disk → Prop}
    {stop : Failure → Disk → Prop} (ha : Runs pre a post stop) {p : Premises} (hp : pre p.disk) :
    Runs (· = p) (onDisk a) (fun x p' => ∃ d, post x d ∧ { p with disk := d } = p')
      fun e p' => ∃ d, stop e d ∧ { p with disk := d } = p' :=
  ha.focus hp

theorem folderStore_write (format : Format) (folder : Disk.Path) (id : Text) (v : Value) :
    (folderStore format folder).write id v = onDisk (Folder.write format folder id v) := rfl

theorem folderStore_erase (format : Format) (folder : Disk.Path) (id : Text) :
    (folderStore format folder).erase id = onDisk (Folder.erase format folder id) := rfl

/-- Opening the folder of a store makes sure that it is there. It changes nothing unless the folder may be
made, and nothing if it fails. -/
theorem openFolder_runs (create : Bool) (folder : Disk.Path) (p : Premises) :
    Runs (· = p) (onDisk (Folder.openFolder create folder))
      (fun _ p' => Folder.Stands folder p'.disk ∧ (create = false → p' = p)) fun _ p' => p' = p := by
  refine (onDisk_runs (Folder.openFolder_runs create folder p.disk) rfl).mono ?_ ?_
  · rintro _ _ ⟨d, ⟨hstands, hsame⟩, rfl⟩
    exact ⟨hstands, fun h => by rw [hsame h]⟩
  · rintro _ _ ⟨d, rfl, rfl⟩
    rfl

theorem openStore_runs {backend : Text} {format : Format} (hformat : format ∈ Format.all)
    (hbackend : Backend.ofName? backend = some (.folder format)) (path : Text) (create : Bool)
    (p : Premises) :
    Runs (· = p) (openStore backend (some path) none none create)
      (fun s p' => IsOpen s p' ∧ (create = false → p' = p)) fun _ p' => p' = p := by
  rw [openStore, hbackend]
  have hget : Runs (· = p) (get : Action Premises Premises) (fun p' p'' => p' = p ∧ p'' = p)
      fun _ p' => p' = p := by
    rintro p rfl
    exact .ok ⟨rfl, rfl⟩
  refine Runs.bind hget fun p' => runs_and fun hp' => ?_
  subst hp'
  refine Runs.bind (openFolder_runs create _ p') fun _ => runs_pure fun p'' h => ?_
  exact ⟨⟨format, hformat, _, rfl, h.1⟩, h.2⟩

variable {s : Store Premises} {p : Premises}

/-- A write into an open store leaves it open. If it fails, it is no rejection. -/
theorem IsOpen.write_runs (s : Store Premises) (id : Text) (v : Value) :
    Runs (IsOpen s) (s.write id v) (fun _ => IsOpen s) fun e _ => ¬ e.IsRejection := by
  rintro p ⟨format, hformat, folder, rfl, hstands⟩
  rw [folderStore_write]
  refine (onDisk_runs (Folder.write_runs hformat folder id v) hstands p rfl).mono ?_ ?_
  · rintro _ _ ⟨d, hd, rfl⟩
    exact ⟨format, hformat, folder, rfl, hd⟩
  · rintro e _ ⟨d, he, rfl⟩
    exact he

/-- An erasure that fails changes nothing. -/
theorem IsOpen.erase_runs (h : IsOpen s p) (id : Text) :
    Runs (· = p) (s.erase id) (fun _ _ => True) fun _ p' => p' = p := by
  obtain ⟨format, -, folder, rfl, -⟩ := h
  rw [folderStore_erase]
  refine (onDisk_runs (Folder.erase_runs format folder id p.disk) rfl).mono (fun _ _ _ => trivial) ?_
  rintro _ _ ⟨d, rfl, rfl⟩
  rfl

/-- A query of an open store only looks. -/
theorem IsOpen.looks {α : Type} {query : Cursor Premises} (hstore : query.store = s)
    {run : Cursor.Run Premises α}
    (hrun : Action.Ensures (Cursor.Over s (· = p)) run fun _ => True) :
    Runs (· = p) (Collection.runQuery query run) (fun _ p' => True ∧ p' = p) fun _ p' => p' = p :=
  (Action.ensures_of_state fun w hw => (hrun (query, w) ⟨hstore, hw⟩).1.2).runs

end Premises

/-! ## What a change finds -/

namespace Collection
open Premises (IsOpen)

variable {s : Store Premises} {p : Premises}

theorem found_runs (h : IsOpen s p) {query : Cursor Premises} (hquery : query.Untouched s) :
    Runs (· = p) (runQuery query Cursor.items)
      (fun items p' => (∀ x ∈ items, ∃ d, (s.read x.id p).1 = .ok d) ∧ p' = p) fun _ p' => p' = p := by
  have hreads := h.isFolder.reads p
  have hindex : Action.Ensures (· = p) s.index fun ids => ∀ id ∈ ids, True :=
    fun w hw => ⟨hreads.index w hw, fun _ _ _ _ => trivial⟩
  refine (ensures_runQuery hindex (fun id _ w hw => ⟨hreads.read id w hw, fun d hd => ⟨d, ?_⟩⟩) hquery).runs
  rw [← (hw : w = p)]
  exact hd

/-- What a removal finds has different identifiers. -/
theorem found_distinct (h : IsOpen s p) (hp : p.disk.Regular) (condition : Given Predicate) (multi : Bool) :
    Runs (· = p) (runQuery (matchQuery s condition multi) Cursor.items)
      (fun items _ => (items.map Item.id).Nodup) fun _ _ => True := by
  obtain ⟨format, -, folder, rfl, es, hes⟩ := h
  rintro p rfl
  cases hcondition : Condition.compile condition with
  | error e =>
    rw [runQuery_refused hcondition]
    exact .error trivial
  | ok accepts =>
  obtain ⟨ids, hids⟩ : ∃ ids, Folder.index format folder p.disk = .ok ids := ⟨_, Folder.index_eq hes⟩
  have hindex : (Premises.folderStore format folder).index p = (.ok ids, p) := Prod.ext hids rfl
  let doc (id : Text) : Document := (Folder.read format folder id p.disk).toOption.getD []
  have hanswers : Answers (Premises.folderStore format folder) ⟨(· = p), (· = p), fun _ _ => True⟩
      ids doc := by
    refine ⟨?_, ?_, ?_⟩
    · rintro _ rfl
      rw [hindex]
      exact .ok rfl
    · rintro _ rfl e he
      rw [hindex] at he
      cases he
    · rintro id - p rfl
      have hread : (Premises.folderStore format folder).read id p =
          (Folder.read format folder id p.disk, p) := rfl
      cases hdocument : Folder.read format folder id p.disk with
      | error e =>
        rw [hread, hdocument]
        exact .failure trivial
      | ok d =>
        have hdoc : doc id = d := by
          simp only [doc, hdocument]
          rfl
        rw [hread, hdocument, hdoc]
        exact .ok rfl
  have hmay : ∀ e : Failure, True → ∀ w : Premises, w = p ∨ w = p → True := fun _ _ _ _ => trivial
  have hanswered := runQuery_answered hanswers hmay hcondition (fun _ _ _ _ => trivial) multi rfl
  generalize runQuery (matchQuery (Premises.folderStore format folder) condition multi) Cursor.items p = r
    at hanswered ⊢
  cases hanswered with
  | ok _ => exact .ok (nodup_matching (Folder.nodup_index hes hids (hp.lookup hes).distinct))
  | failure _ => exact .error trivial

/-! ## Acting on what was found -/

theorem actAll_runs {σ : Type} {states : σ → Prop} {stop : Failure → σ → Prop} {act : Item → Action σ Unit}
    (hact : ∀ x, Runs states (act x) (fun _ => states) stop) :
    ∀ items, Runs states (actAll act items) (fun _ => states) stop
  | [] => runs_pure fun _ h => h
  | x :: items => (hact x).bind fun _ => (actAll_runs hact items).bind fun _ => runs_pure fun _ h => h

/-- Documents of different identifiers that are there are all erased. -/
theorem eraseAll_runs {format : Format} {folder : Disk.Path} : ∀ {items : List Item},
    (items.map Item.id).Nodup →
    Runs (fun p : Premises => Folder.Holds format folder (items.map Item.id) p.disk)
      (actAll (fun x => (Premises.folderStore format folder).erase x.id) items) (fun _ _ => True)
      fun _ _ => False
  | [], _ => runs_pure fun _ _ => trivial
  | x :: items, hdistinct => by
    obtain ⟨hx, hdistinct⟩ := List.nodup_cons.mp hdistinct
    have herase : Runs (fun p : Premises => Folder.Holds format folder (x.id :: items.map Item.id) p.disk)
        ((Premises.folderStore format folder).erase x.id)
        (fun _ p => Folder.Holds format folder (items.map Item.id) p.disk) fun _ _ => False := by
      intro p hp
      rw [Premises.folderStore_erase]
      refine (Premises.onDisk_runs (Folder.erase_holds hx) hp p rfl).mono ?_ ?_
      · rintro _ _ ⟨d, hd, rfl⟩
        exact hd
      · rintro _ _ ⟨d, hd, rfl⟩
        exact hd
    exact herase.bind fun _ => (eraseAll_runs hdistinct).bind fun _ => runs_pure fun _ _ => trivial

/-! ## Changes -/

end Collection

namespace Update

/-- Numbers that cannot be added are no rejection. -/
theorem failsOnly_increment (d : Document) (key : Scalar) (amount : Value) :
    FailsOnly (fun e => ¬ e.IsRejection) (increment d key amount) := by
  refine FailsOnly.bind (failsOnly_mapError fun e _ => ?_) fun _ => failsOnly_ok _
  cases e <;> exact Failure.not_isRejection rfl

theorem failsOnly_applyTo (op : Operator) (d : Document) (key : Scalar) (x : Value) :
    FailsOnly (fun e => ¬ e.IsRejection) (op.applyTo d key x) := by
  cases op with
  | set | unset | push | pull => exact failsOnly_ok _
  | inc => exact failsOnly_increment d key x
  | rename =>
    simp only [Operator.applyTo, renameField]
    split
    · exact failsOnly_ok _
    · split
      · exact failsOnly_ok _
      · exact failsOnly_error (Failure.not_isRejection rfl)

theorem failsOnly_apply (op : Operator) : ∀ (arguments : List (Scalar × Value)) (d : Document),
    FailsOnly (fun e => ¬ e.IsRejection) (op.apply d arguments)
  | [], _ => failsOnly_ok _
  | (key, x) :: rest, d => (failsOnly_applyTo op d key x).bind fun d' => failsOnly_apply op rest d'

theorem failsOnly_applySteps : ∀ (steps : Steps) (d : Document),
    FailsOnly (fun e => ¬ e.IsRejection) (applySteps steps d)
  | [], _ => failsOnly_ok _
  | (op, arguments) :: rest, d =>
    (failsOnly_apply op arguments d).bind fun d' => failsOnly_applySteps rest d'

/-- An update that has been understood can only be at odds with a document. -/
theorem failsOnly_mutate (steps : Steps) (v : Value) :
    FailsOnly (fun e => ¬ e.IsRejection) (mutate steps v) := by
  unfold mutate
  split
  · exact failsOnly_ok _
  · exact (failsOnly_applySteps steps _).bind fun _ => failsOnly_ok _
  · exact failsOnly_error (Failure.not_isRejection rfl)

end Update

namespace Collection
open Premises (IsOpen)

variable {s : Store Premises} {p : Premises}

theorem failsOnly_changed {given : Value} {change : Option Transform}
    (hupdate : Update.compile (.value given) = .ok change) (d : Value) :
    FailsOnly (fun e => ¬ e.IsRejection) (changed change d) := by
  unfold Update.compile at hupdate
  split at hupdate
  · next hgiven => cases hgiven
  · obtain rfl := Except.ok.inj hupdate
    exact failsOnly_ok _
  · obtain rfl := Except.ok.inj hupdate
    exact failsOnly_ok _
  · obtain ⟨steps, -, hsteps⟩ := ok_of_bind hupdate
    obtain rfl := Except.ok.inj hsteps
    exact Update.failsOnly_mutate steps d
  · cases hupdate

/-- What an update makes of a document is written, or it is no rejection that stops it. -/
theorem changed_runs {given : Value} {change : Option Transform}
    (hupdate : Update.compile (.value given) = .ok change) (d : Value) :
    Runs (IsOpen s) (Action.ofExcept (changed change d)) (fun _ => IsOpen s) fun e _ => ¬ e.IsRejection :=
  Action.runs_ofExcept (fun _ _ h _ => h) fun e _ _ he => failsOnly_changed hupdate d e he

/-- An update that is rejected changes nothing. -/
theorem update_rejected {c : Collection Premises} (hc : IsOpen c.store p) (condition : Given Predicate)
    (given options : Value) :
    Runs (· = p) (c.update condition (.value given) options) (fun _ _ => True)
      fun e p' => e.IsRejection → p' = p := by
  cases hupdate : Update.compile (.value given) with
  | error e =>
    intro p' hp'
    rw [update_refused c condition hupdate]
    exact .error fun _ => hp'
  | ok change =>
    rw [update_eq c condition hupdate]
    have hmulti : Runs (· = p) (Action.ofExcept (option options "multi" true)) (fun _ p' => p' = p)
        fun e p' => e.IsRejection → p' = p :=
      Action.runs_ofExcept (fun _ _ h _ => h) fun _ _ h _ _ => h
    refine hmulti.bind fun multi => ?_
    have hfound : Runs (· = p) (runQuery (matchQuery c.store condition multi) Cursor.items)
        (fun _ p' => p' = p) fun e p' => e.IsRejection → p' = p :=
      (found_runs hc (untouched_matchQuery c.store condition multi)).mono (fun _ _ h => h.2)
        fun _ _ h _ => h
    refine hfound.bind fun items => ?_
    have hwrite : ∀ x : Item, Runs (IsOpen c.store) (writeChanged c.store change x)
        (fun _ => IsOpen c.store) fun e _ => ¬ e.IsRejection :=
      fun x => (changed_runs hupdate x.document).bind fun v => IsOpen.write_runs c.store x.id v
    refine ((actAll_runs hwrite items).weaken ?_).mono (fun _ _ _ => trivial) fun _ _ h he => absurd he h
    rintro _ rfl
    exact hc

/-- A removal that fails changes nothing. -/
theorem remove_failed {c : Collection Premises} (hc : IsOpen c.store p) (hp : p.disk.Regular)
    (condition : Given Predicate) (options : Value) :
    Runs (· = p) (c.remove condition options) (fun _ _ => True) fun _ p' => p' = p := by
  rw [remove_eq]
  have hmulti : Runs (· = p) (Action.ofExcept (eraseMulti options)) (fun _ p' => p' = p)
      fun _ p' => p' = p :=
    Action.runs_ofExcept (fun _ _ h _ => h) fun _ _ h _ => h
  refine hmulti.bind fun multi => ?_
  have hfound := (found_runs hc (untouched_matchQuery c.store condition multi)).and
    (found_distinct hc hp condition multi)
  refine (hfound.stopping fun _ _ h => h.1).bind fun items => ?_
  obtain ⟨format, -, folder, hs, hstands⟩ := hc
  rintro p' ⟨⟨hread, rfl⟩, hdistinct⟩
  have hholds : Folder.Holds format folder (items.map Item.id) p'.disk := by
    refine Folder.holds_of_read hstands fun id hid => ?_
    obtain ⟨x, hx, rfl⟩ := List.mem_map.mp hid
    obtain ⟨d, hd⟩ := hread x hx
    rw [hs] at hd
    exact ⟨d, hd⟩
  rw [hs]
  exact (eraseAll_runs hdistinct p' hholds).mono (fun _ _ _ => trivial) fun _ _ h => h.elim

/-- A change of the first match that is rejected changes nothing. -/
theorem findAndModify_rejected {c : Collection Premises} (hc : IsOpen c.store p) (condition : Given Predicate)
    (order : Given Comparator) (given options : Value) :
    Runs (· = p) (c.findAndModify condition order (.value given) options) (fun _ _ => True)
      fun e p' => e.IsRejection → p' = p := by
  obtain ⟨e, he⟩ | ⟨remove, new, change, -, -, hupdate, heq⟩ :=
    findAndModify_runs c condition order (.value given) options
  · intro p' hp'
    rw [he]
    exact .error fun _ => hp'
  rw [heq]
  have hfound : Runs (· = p) (runQuery (firstQuery c.store condition order) Cursor.items)
      (fun _ p' => p' = p) fun e p' => e.IsRejection → p' = p :=
    (found_runs hc (untouched_firstQuery c.store condition order)).mono (fun _ _ h => h.2)
      fun _ _ h _ => h
  refine hfound.bind fun items => ?_
  cases items with
  | nil => exact runs_pure fun _ _ => trivial
  | cons x rest =>
    have hmodify : Runs (· = p) (modify c.store remove new change x) (fun _ _ => True)
        fun e p' => e.IsRejection → p' = p := by
      unfold modify
      cases remove with
      | true =>
        have herase := (hc.erase_runs x.id).stopping fun (e : Failure) _ h (_ : e.IsRejection) => h
        exact herase.bind fun _ => runs_pure fun _ _ => trivial
      | false =>
        have hchanged : Runs (· = p) (Action.ofExcept (changed change x.document)) (fun _ => IsOpen c.store)
            fun e p' => e.IsRejection → p' = p :=
          ((changed_runs (hupdate rfl) x.document).weaken fun _ hp' => hp' ▸ hc).stopping
            fun _ _ h he => absurd he h
        have hwrite := fun v => (IsOpen.write_runs c.store x.id v).stopping
          fun (e : Failure) (p' : Premises) h (he : e.IsRejection) => (absurd he h : p' = p)
        exact hchanged.bind fun v => (hwrite v).bind fun _ => runs_pure fun _ _ => trivial
    exact hmodify.bind fun _ => runs_pure fun _ _ => trivial

end Collection

end Cabinet
