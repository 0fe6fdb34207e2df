import Cabinet.Proofs.Store.Blind
import Cabinet.Proofs.Store.Folder
import Cabinet.Proofs.Text.Order

/-!
# Stores of two formats in one folder

What is kept in JSON and what is kept in YAML does not get in each other's way.

* `Store.interleaved` : methods of two stores over one state, in any order;
* `Store.Undisturbed` : a relation of states that one store does not see, and that the other keeps;
  `Undisturbed.answers` says that the one then gives what it gives by itself;
* `Disk.Entries.ofEnding`, `Disk.Touch` : the entries whose names have an ending, and what becomes of
  an entry;
* `Folder.OneEntry`, `Folder.run_oneEntry` : each method but the list is one of a single entry;
* `Folder.SameFiles` : disks on which a folder has the same files of a format, which `Folder.blind_run`
  says is all that a store sees, and `Folder.run_becomes` that other stores keep;
* `Folder.formats_apart` : so stores in JSON and in YAML over one folder do not interfere.
-/

namespace Cabinet

variable {σ β : Type}

open Cabinet.Action

namespace Store

/-! ## Methods of two stores -/

/-- What methods of two stores over one state give, one after another, and the state behind them. -/
def interleaved (s t : Store σ) : List (Method ⊕ Method) → σ →
    List (Except Failure Answer ⊕ Except Failure Answer) × σ
  | [], w => ([], w)
  | .inl m :: calls, w =>
    let (r, w) := m.run s w
    let (rs, w) := interleaved s t calls w
    (.inl r :: rs, w)
  | .inr m :: calls, w =>
    let (r, w) := m.run t w
    let (rs, w) := interleaved s t calls w
    (.inr r :: rs, w)

theorem interleaved_left (s t : Store σ) (m : Method) (calls : List (Method ⊕ Method)) (w : σ) :
    interleaved s t (.inl m :: calls) w =
      (.inl (m.run s w).1 :: (interleaved s t calls (m.run s w).2).1,
        (interleaved s t calls (m.run s w).2).2) := rfl

theorem interleaved_right (s t : Store σ) (m : Method) (calls : List (Method ⊕ Method)) (w : σ) :
    interleaved s t (.inr m :: calls) w =
      (.inr (m.run t w).1 :: (interleaved s t calls (m.run t w).2).1,
        (interleaved s t calls (m.run t w).2).2) := rfl

theorem interleaved_swap (s t : Store σ) (calls : List (Method ⊕ Method)) (w : σ) :
    interleaved t s (calls.map Sum.swap) w =
      ((interleaved s t calls w).1.map Sum.swap, (interleaved s t calls w).2) := by
  induction calls generalizing w with
  | nil => rfl
  | cons call calls ih =>
    cases call with
    | inl m => rw [List.map_cons, Sum.swap_inl, interleaved_right, interleaved_left, ih]; rfl
    | inr m => rw [List.map_cons, Sum.swap_inr, interleaved_left, interleaved_right, ih]; rfl

/-- The first store does not see in which of two related states it is, and the second keeps a state
related to what it was related to. -/
structure Undisturbed (s t : Store σ) (R : σ → σ → Prop) : Prop where
  own : ∀ m : Method, Blind R (m.run s)
  other : ∀ (m : Method) (w v : σ), R w v → R (m.run t w).2 v

/-- So the first store's methods give what they give without those of the second. -/
theorem Undisturbed.answers {s t : Store σ} {R : σ → σ → Prop} (hR : Undisturbed s t R)
    (calls : List (Method ⊕ Method)) {w v : σ} (h : R w v) :
    (interleaved s t calls w).1.filterMap Sum.getLeft? =
      (s.answers (calls.filterMap Sum.getLeft?) v).1 := by
  induction calls generalizing w v with
  | nil => rfl
  | cons call calls ih =>
    cases call with
    | inl m =>
      obtain ⟨hresult, hstate⟩ := hR.own m w v h
      rw [interleaved_left, List.filterMap_cons_some (Sum.getLeft?_inl ..),
        List.filterMap_cons_some (Sum.getLeft?_inl ..), answers_cons, ih hstate, hresult]
    | inr m =>
      rw [interleaved_right, List.filterMap_cons_none (Sum.getLeft?_inr ..),
        List.filterMap_cons_none (Sum.getLeft?_inr ..), ih (hR.other m w v h)]

/-- The same of the second store. -/
theorem Undisturbed.answers_right {s t : Store σ} {R : σ → σ → Prop} (hR : Undisturbed t s R)
    (calls : List (Method ⊕ Method)) {w v : σ} (h : R w v) :
    (interleaved s t calls w).1.filterMap Sum.getRight? =
      (t.answers (calls.filterMap Sum.getRight?) v).1 := by
  have hleft := hR.answers (calls.map Sum.swap) h
  rw [interleaved_swap, List.filterMap_map, List.filterMap_map] at hleft
  have hswap : ∀ {γ : Type}, (Sum.getLeft? ∘ Sum.swap : γ ⊕ γ → Option γ) = Sum.getRight? := by
    intro γ
    funext x
    cases x <;> rfl
  rwa [hswap, hswap] at hleft

end Store

/-! ## Entries with an ending -/

namespace Disk

namespace Entries

/-- The entries whose names have an ending. -/
def ofEnding (ending : Text) (es : Entries) : Entries := es.filter fun e => e.1.endsWith ending

variable {ending name : Text}

theorem get?_ofEnding (h : name.endsWith ending = true) (es : Entries) :
    (es.ofEnding ending).get? name = es.get? name := by
  rw [get?_eq, get?_eq, ofEnding, Keyed.get?_filter (p := fun n => n.endsWith ending) h]

theorem names_ofEnding (ending : Text) (es : Entries) :
    (es.ofEnding ending).names = es.names.filter fun name => name.endsWith ending := by
  rw [names, names, List.filter_map]
  rfl

theorem ofEnding_put (h : name.endsWith ending = true) (es : Entries) (node : Node) :
    (es.put name node).ofEnding ending = (es.ofEnding ending).put name node := by
  have hput := Keyed.filter_put (fun n => n.endsWith ending) es name node
  rw [if_pos h] at hput
  rw [put_eq, put_eq]
  exact hput

theorem ofEnding_remove (ending : Text) (es : Entries) (name : Text) :
    (es.remove name).ofEnding ending = (es.ofEnding ending).remove name :=
  Keyed.filter_remove (fun n => n.endsWith ending) es name

/-- An entry with another name than these is put and removed behind their backs. -/
theorem ofEnding_put_other (h : name.endsWith ending = false) (es : Entries) (node : Node) :
    (es.put name node).ofEnding ending = es.ofEnding ending := by
  have hput := Keyed.filter_put (fun n => n.endsWith ending) es name node
  rw [if_neg (by rw [h]; exact Bool.false_ne_true)] at hput
  rw [put_eq]
  exact hput

theorem ofEnding_remove_other (h : name.endsWith ending = false) (es : Entries) :
    (es.remove name).ofEnding ending = es.ofEnding ending := by
  rw [ofEnding_remove]
  exact Keyed.remove_filter (p := fun n => n.endsWith ending) h es

end Entries

/-- What becomes of an entry. -/
inductive Touch where
  | keep
  | put (content : List UInt8)
  | remove

namespace Touch

def apply (name : Text) (es : Entries) : Touch → Entries
  | keep => es
  | put content => es.put name (.file content)
  | remove => es.remove name

variable {ending name : Text}

/-- Entries with an ending are touched as if the others were not there. -/
theorem apply_ofEnding (h : name.endsWith ending = true) (t : Touch) (es : Entries) :
    (t.apply name es).ofEnding ending = t.apply name (es.ofEnding ending) := by
  cases t with
  | keep => rfl
  | put content => exact Entries.ofEnding_put h es _
  | remove => exact Entries.ofEnding_remove ending es name

/-- An entry with another name than these is touched behind their backs. -/
theorem apply_other (h : name.endsWith ending = false) (t : Touch) (es : Entries) :
    (t.apply name es).ofEnding ending = es.ofEnding ending := by
  cases t with
  | keep => rfl
  | put content => exact Entries.ofEnding_put_other h es _
  | remove => exact Entries.ofEnding_remove_other h es

end Touch

/-! ## A folder that changes -/

/-- The folder at a path has become one of these entries, and no folder of the disk is lost. -/
structure Becomes (p : Path) (es : Entries) (d d' : Disk) : Prop where
  found : lookup d' p = .ok (.folder es)
  keeps : KeepsFolders d d'

theorem becomes_self {d : Disk} {p : Path} {es : Entries} (h : lookup d p = .ok (.folder es)) :
    Becomes p es d d :=
  ⟨h, fun _ inner hinner => ⟨inner, hinner⟩⟩

theorem becomes_change {f : Entries → Except Cause Entries} {d : Disk} {p : Path} {es es' : Entries}
    (h : lookup d p = .ok (.folder es)) (hf : f es = .ok es') (hkeeps : KeepsFolders es es') :
    ∃ d', change f d p = .ok d' ∧ Becomes p es' d d' := by
  obtain ⟨d', hchange, hfound⟩ := lookup_change h hf hkeeps
  obtain ⟨steps, hsteps, hfind⟩ := lookup_ok h
  obtain ⟨d₁, hwithin, -, hfolders⟩ := within_ok hfind hkeeps
  have hsame : d₁ = d' := by
    rw [change, hsteps] at hchange
    exact Except.ok.inj ((hwithin.symm.trans (within_congr hfind hf).symm).trans hchange)
  exact ⟨d', hchange, hfound, hsame ▸ hfolders⟩

theorem removeEntry_congr {es es' : Entries} {name : Text} (h : es.get? name = es'.get? name) :
    (∃ cause, removeEntry name es = .error cause ∧ removeEntry name es' = .error cause) ∨
      removeEntry name es = .ok (es.remove name) ∧ removeEntry name es' = .ok (es'.remove name) := by
  rw [removeEntry, removeEntry, ← h]
  split
  · exact .inl ⟨_, rfl, rfl⟩
  · split
    · exact .inl ⟨_, rfl, rfl⟩
    · exact .inl ⟨_, rfl, rfl⟩
    · exact .inr ⟨rfl, rfl⟩

theorem lookup_congr {d : Disk} {p q : Path}
    (h : directSteps d [] p.steps = directSteps d [] q.steps) : lookup d p = lookup d q := by
  rw [lookup, lookup, h]

/-- Two paths that lead to one folder still do so if no folder is lost. -/
theorem KeepsFolders.sameSteps {d d' : Disk} {p q : Path} {es : Entries} (hkeeps : KeepsFolders d d')
    (hsame : Disk.directSteps d [] p.steps = Disk.directSteps d [] q.steps)
    (h : lookup d p = .ok (.folder es)) :
    Disk.directSteps d' [] p.steps = Disk.directSteps d' [] q.steps := by
  obtain ⟨steps, hsteps, -⟩ := lookup_ok h
  rw [hkeeps.directSteps hsteps, hkeeps.directSteps (hsame.symm.trans hsteps)]

end Disk

namespace Folder

open Store (Method)

variable {format : Format} {p q : Disk.Path} {d d' : Disk} {es es' : Disk.Entries}

/-! ## Methods of a store in a folder -/

/-- A method gives what an entry of the folder says, and does no more than to touch this entry. -/
def OneEntry (format : Format) (p : Disk.Path) (m : Method) (name : Text) : Prop :=
  ∀ ⦃d d' : Disk⦄ ⦃es es' : Disk.Entries⦄, Disk.lookup d p = .ok (.folder es) →
    Disk.lookup d' p = .ok (.folder es') → es.get? name = es'.get? name →
    (m.run (store format p) d).1 = (m.run (store format p) d').1 ∧
    ∃ t : Disk.Touch, Disk.Becomes p (t.apply name es) d (m.run (store format p) d).2 ∧
      Disk.Becomes p (t.apply name es') d' (m.run (store format p) d').2

/-- A method that only looks at an entry. -/
theorem oneEntry_of_looks {m : Method} {name : Text}
    (hstate : ∀ d, (m.run (store format p) d).2 = d)
    (hresult : ∀ ⦃d d' : Disk⦄ ⦃es es' : Disk.Entries⦄, Disk.lookup d p = .ok (.folder es) →
      Disk.lookup d' p = .ok (.folder es') → es.get? name = es'.get? name →
      (m.run (store format p) d).1 = (m.run (store format p) d').1) :
    OneEntry format p m name := by
  intro d d' es es' h h' hget
  refine ⟨hresult h h' hget, .keep, ?_, ?_⟩
  · rw [hstate]
    exact Disk.becomes_self h
  · rw [hstate]
    exact Disk.becomes_self h'

/-- A method that gives the same on every disk and leaves each as it is. -/
theorem oneEntry_of_eq {m : Method} {r : Except Failure Store.Answer}
    (h : ∀ d, m.run (store format p) d = (r, d)) (name : Text) : OneEntry format p m name := by
  refine oneEntry_of_looks (fun d => by rw [h]) fun d d' _ _ _ _ _ => ?_
  rw [h, h]

theorem oneEntry_read {id key : Text} (hkey : Key.escape id = .ok key) :
    OneEntry format p (.read id) (key ++ format.ending) := by
  refine oneEntry_of_looks (fun d => ?_) fun d d' es es' h h' hget => ?_
  · rw [Method.run, map_apply]
    rfl
  · have hread : read format p id d = read format p id d' := by
      refine read_congr h h' id fun key' hkey' => ?_
      obtain rfl : key = key' := Except.ok.inj (hkey.symm.trans hkey')
      exact hget
    rw [Method.run, map_apply, map_apply]
    exact congrArg (Except.map Store.Answer.document) hread

theorem oneEntry_exist {id key : Text} (hkey : Key.escape id = .ok key) :
    OneEntry format p (.exist id) (key ++ format.ending) := by
  refine oneEntry_of_looks (fun d => ?_) fun d d' es es' h h' hget => ?_
  · rw [Method.run, map_apply]
    rfl
  · have hback := (fileName_ne hkey format.ending).1
    have hexist : exist format p id d = exist format p id d' := by
      have hfile : Disk.isFile d (p.child (key ++ format.ending)) =
          Disk.isFile d' (p.child (key ++ format.ending)) := by
        rw [Disk.isFile, Disk.isFile, Disk.lookup_child h hback, Disk.lookup_child h' hback,
          Disk.find_congr hget]
      rw [exist, exist, filePath_eq hkey]
      exact congrArg (Except.mapError Failure.system) hfile
    rw [Method.run, map_apply, map_apply]
    exact congrArg (Except.map Store.Answer.truth) hexist

theorem oneEntry_write {id key t : Text} {v : Value} {bytes : List UInt8}
    (hkey : Key.escape id = .ok key) (ht : format.encode v = .ok t)
    (hbytes : t.toUtf8 = .ok bytes) :
    OneEntry format p (.write id v) (key ++ format.ending) := by
  intro d d' es es' h h' hget
  have hrun : ∀ w, (Method.write id v).run (store format p) w =
      ((write format p id v w).1.map fun _ => .done, (write format p id v w).2) :=
    fun w => map_apply ..
  rw [hrun, hrun, write_eq h hkey ht hbytes, write_eq h' hkey ht hbytes, ← hget]
  by_cases hlong : Disk.Entries.isTooLong (key ++ format.ending) = true
  · rw [if_pos hlong, if_pos hlong]
    exact ⟨rfl, .keep, Disk.becomes_self h, Disk.becomes_self h'⟩
  rw [if_neg hlong, if_neg hlong]
  by_cases hfolder : ∃ inner, es.get? (key ++ format.ending) = some (.folder inner)
  · obtain ⟨inner, hinner⟩ := hfolder
    rw [hinner]
    exact ⟨rfl, .keep, Disk.becomes_self h, Disk.becomes_self h'⟩
  · have hfile : ∀ inner, es.get? (key ++ format.ending) ≠ some (.folder inner) :=
      fun inner hinner => hfolder ⟨inner, hinner⟩
    obtain ⟨d₁, hchange, hbecomes⟩ := Disk.becomes_change (f := fun _ =>
      .ok (es.put (key ++ format.ending) (.file bytes))) h rfl (Disk.keepsFolders_put hfile bytes)
    obtain ⟨d₂, hchange', hbecomes'⟩ := Disk.becomes_change (f := fun _ =>
      .ok (es'.put (key ++ format.ending) (.file bytes))) h' rfl
      (Disk.keepsFolders_put (hget ▸ hfile) bytes)
    rw [hchange, hchange']
    split
    · next inner hinner => exact absurd hinner (hfile inner)
    · exact ⟨rfl, .put bytes, hbecomes, hbecomes'⟩

theorem oneEntry_erase {id key : Text} (hkey : Key.escape id = .ok key) :
    OneEntry format p (.erase id) (key ++ format.ending) := by
  intro d d' es es' h h' hget
  have hrun : ∀ w, (Method.erase id).run (store format p) w =
      ((erase format p id w).1.map fun _ => .done, (erase format p id w).2) :=
    fun w => map_apply ..
  rw [hrun, hrun, erase_eq hkey, erase_eq hkey]
  obtain ⟨cause, hremove, hremove'⟩ | ⟨hremove, hremove'⟩ := Disk.removeEntry_congr hget
  · rw [Disk.change_error h hremove, Disk.change_error h' hremove']
    simp only
    split
    · exact ⟨rfl, .keep, Disk.becomes_self h, Disk.becomes_self h'⟩
    · exact ⟨rfl, .keep, Disk.becomes_self h, Disk.becomes_self h'⟩
  · obtain ⟨d₁, hchange, hbecomes⟩ :=
      Disk.becomes_change h hremove (Disk.keepsFolders_removeEntry hremove)
    obtain ⟨d₂, hchange', hbecomes'⟩ :=
      Disk.becomes_change h' hremove' (Disk.keepsFolders_removeEntry hremove')
    rw [hchange, hchange']
    exact ⟨rfl, .remove, hbecomes, hbecomes'⟩

/-- Each method is one of an entry of the store's own, unless it lists them all. -/
theorem run_oneEntry (format : Format) (p : Disk.Path) (m : Method) :
    m = .index ∨ ∃ key, OneEntry format p m (key ++ format.ending) := by
  cases m with
  | read id =>
    refine .inr ?_
    cases hkey : Key.escape id with
    | ok key => exact ⟨key, oneEntry_read hkey⟩
    | error e =>
      refine ⟨[], oneEntry_of_eq (r := .error e) (fun d => ?_) _⟩
      simp only [Method.run, map_apply, store, read, filePath, hkey]
      rfl
  | write id v =>
    refine .inr ?_
    obtain ⟨e, he⟩ | ⟨key, t, bytes, hkey, ht, hbytes⟩ := write_ready format p id v
    · refine ⟨[], oneEntry_of_eq (r := .error e) (fun d => ?_) _⟩
      simp only [Method.run, map_apply, store, he]
      rfl
    · exact ⟨key, oneEntry_write hkey ht hbytes⟩
  | erase id =>
    refine .inr ?_
    cases hkey : Key.escape id with
    | ok key => exact ⟨key, oneEntry_erase hkey⟩
    | error e =>
      refine ⟨[], oneEntry_of_eq (r := .error e) (fun d => ?_) _⟩
      simp only [Method.run, map_apply, store, erase, filePath, hkey]
      rfl
  | exist id =>
    refine .inr ?_
    cases hkey : Key.escape id with
    | ok key => exact ⟨key, oneEntry_exist hkey⟩
    | error e =>
      refine ⟨[], oneEntry_of_eq (r := .error e) (fun d => ?_) _⟩
      simp only [Method.run, map_apply, store, exist, filePath, hkey]
      rfl
  | index => exact .inl rfl
  | escape id => exact .inr ⟨[], oneEntry_of_eq (fun _ => rfl) _⟩
  | unescape key => exact .inr ⟨[], oneEntry_of_eq (fun _ => rfl) _⟩
  | encode v => exact .inr ⟨[], oneEntry_of_eq (fun _ => rfl) _⟩
  | decode kept => exact .inr ⟨[], oneEntry_of_eq (fun _ => rfl) _⟩

/-- Without a folder at the path nothing is changed. -/
theorem run_nowhere (h : ∀ es, Disk.lookup d p ≠ .ok (.folder es)) (m : Method) :
    (m.run (store format p) d).2 = d := by
  cases m with
  | write id v =>
    rw [Method.run, map_apply]
    show (write format p id v d).2 = d
    rw [write]
    split
    · rfl
    · rfl
    · split
      · rfl
      · rfl
      · next es hes => exact absurd hes (h es)
  | erase id =>
    rw [Method.run, map_apply]
    show (erase format p id d).2 = d
    cases hkey : Key.escape id with
    | error e => rw [erase, filePath, hkey]; rfl
    | ok key =>
      rw [erase_eq hkey]
      split
      · next d₁ hchange =>
        obtain ⟨es, hes⟩ := Disk.change_folder hchange
        exact absurd hes (h es)
      · simp only
        split <;> rfl
  | read id | exist id | index =>
    rw [Method.run, map_apply]
    rfl
  | escape id | unescape key | encode v | decode kept => rfl

/-! ## Two stores -/

/-- Two disks on which the folder at a path has the same entries with the ending of a format. -/
def SameFiles (format : Format) (p : Disk.Path) (d d' : Disk) : Prop :=
  ∃ es es' : Disk.Entries, Disk.lookup d p = .ok (.folder es) ∧
    Disk.lookup d' p = .ok (.folder es') ∧
    es.ofEnding format.ending = es'.ofEnding format.ending

theorem identifiers_ofEnding (format : Format) (es : Disk.Entries) :
    (Text.sort (Disk.Entries.names es)).filterMap (identifier? format) =
      (Text.sort (es.ofEnding format.ending).names).filterMap (identifier? format) := by
  rw [Disk.Entries.names_ofEnding, Text.sort_filter, List.filterMap_filter]
  congr 1
  funext name
  rw [identifier?]
  cases name.endsWith format.ending with
  | true => rfl
  | false => rfl

/-- A store sees nothing but the files of its format. -/
theorem blind_run (format : Format) (p : Disk.Path) (m : Method) :
    Blind (SameFiles format p) (m.run (store format p)) := by
  rintro d d' ⟨es, es', h, h', hsame⟩
  obtain rfl | ⟨key, hentry⟩ := run_oneEntry format p m
  · have hindex : index format p d = index format p d' := by
      rw [index_eq h, index_eq h', identifiers_ofEnding format es, hsame, ← identifiers_ofEnding]
    rw [Method.run, map_apply, map_apply]
    exact ⟨congrArg (Except.map Store.Answer.identifiers) hindex, es, es', h, h', hsame⟩
  · have hends := Text.endsWith_append key format.ending
    have hget : es.get? (key ++ format.ending) = es'.get? (key ++ format.ending) := by
      rw [← Disk.Entries.get?_ofEnding hends, hsame, Disk.Entries.get?_ofEnding hends]
    obtain ⟨hresult, t, hbecomes, hbecomes'⟩ := hentry h h' hget
    refine ⟨hresult, _, _, hbecomes.found, hbecomes'.found, ?_⟩
    rw [t.apply_ofEnding hends, t.apply_ofEnding hends, hsame]

/-- A store makes of its folder one with the same files of other formats, and loses no folder. -/
theorem run_becomes (format : Format) (h : Disk.lookup d p = .ok (.folder es)) (m : Method) :
    ∃ es', Disk.Becomes p es' d (m.run (store format p) d).2 ∧
      ∀ ending : Text, (∀ key : Text, (key ++ format.ending).endsWith ending = false) →
        es'.ofEnding ending = es.ofEnding ending := by
  obtain rfl | ⟨key, hentry⟩ := run_oneEntry format p m
  · refine ⟨es, ?_, fun _ _ => rfl⟩
    rw [Method.run, map_apply]
    exact Disk.becomes_self h
  · obtain ⟨-, t, hbecomes, -⟩ := hentry h h rfl
    exact ⟨_, hbecomes, fun ending hother => t.apply_other (hother key) es⟩

/-- Two paths that lead to the same place. -/
def SamePlace (d : Disk) (p q : Disk.Path) : Prop :=
  Disk.directSteps d [] p.steps = Disk.directSteps d [] q.steps

/-- Stores of two formats over one folder: to the first it does not matter what the second does. -/
theorem undisturbed {a b : Format}
    (hother : ∀ key : Text, (key ++ b.ending).endsWith a.ending = false) (p q : Disk.Path) :
    (store a p).Undisturbed (store b q) fun d d' => SamePlace d p q ∧ SameFiles a p d d' where
  own m d d' := by
    rintro ⟨hplace, hfiles⟩
    obtain ⟨hresult, hfiles'⟩ := blind_run a p m d d' hfiles
    obtain ⟨es, -, h, -⟩ := hfiles
    obtain ⟨_, hbecomes, _⟩ := run_becomes a h m
    exact ⟨hresult, hbecomes.keeps.sameSteps hplace h, hfiles'⟩
  other m d d' := by
    rintro ⟨hplace, es, es', h, h', hsame⟩
    have hq : Disk.lookup d q = .ok (.folder es) := (Disk.lookup_congr hplace).symm.trans h
    obtain ⟨es₁, hbecomes, hkept⟩ := run_becomes b hq m
    have hplace' := hbecomes.keeps.sameSteps hplace h
    refine ⟨hplace', es₁, es', ?_, h', ?_⟩
    · exact (Disk.lookup_congr hplace').trans hbecomes.found
    · rw [hkept a.ending hother, hsame]

/-- Where there is no folder, nothing is done at all. -/
theorem undisturbed_nowhere (a b : Format) {p q : Disk.Path} (hplace : SamePlace d p q)
    (hnone : ∀ es, Disk.lookup d p ≠ .ok (.folder es)) :
    (store a p).Undisturbed (store b q) fun w v => w = d ∧ v = d where
  own m w v := by
    rintro ⟨rfl, rfl⟩
    have hstays : (m.run (store a p) v).2 = v := run_nowhere hnone m
    exact ⟨rfl, hstays, hstays⟩
  other m w v := by
    rintro ⟨rfl, rfl⟩
    rw [Disk.lookup_congr hplace] at hnone
    exact ⟨run_nowhere hnone m, rfl⟩

/-- So whatever stands at the place, the first store is not disturbed by the second. -/
theorem exists_undisturbed {a b : Format}
    (hother : ∀ key : Text, (key ++ b.ending).endsWith a.ending = false)
    (hplace : SamePlace d p q) :
    ∃ R, (store a p).Undisturbed (store b q) R ∧ R d d := by
  by_cases hfolder : ∃ es, Disk.lookup d p = .ok (.folder es)
  · obtain ⟨es, h⟩ := hfolder
    exact ⟨_, undisturbed hother p q, hplace, es, es, h, h, rfl⟩
  · have hnone : ∀ es, Disk.lookup d p ≠ .ok (.folder es) := fun es h => hfolder ⟨es, h⟩
    exact ⟨_, undisturbed_nowhere a b hplace hnone, rfl, rfl⟩

theorem yaml_ending (key : Text) :
    (key ++ Format.yaml.ending).endsWith Format.json.ending = false := by
  rw [Text.endsWith, List.reverse_append]
  exact Text.startsWith_eq_false _ _ (by decide)

theorem json_ending (key : Text) :
    (key ++ Format.json.ending).endsWith Format.yaml.ending = false := by
  rw [Text.endsWith, List.reverse_append]
  exact Text.startsWith_eq_false _ _ (by decide)

/-- A store in JSON and a store in YAML over one folder, whatever it holds, do not get in each other's
way: of methods of both, in any order, those of each store give what they give without the other's. -/
theorem formats_apart (d : Disk) {p q : Disk.Path} (hplace : SamePlace d p q)
    (calls : List (Method ⊕ Method)) :
    (Store.interleaved (store .json p) (store .yaml q) calls d).1.filterMap Sum.getLeft? =
        ((store .json p).answers (calls.filterMap Sum.getLeft?) d).1 ∧
      (Store.interleaved (store .json p) (store .yaml q) calls d).1.filterMap Sum.getRight? =
        ((store .yaml q).answers (calls.filterMap Sum.getRight?) d).1 := by
  obtain ⟨R, hundisturbed, hR⟩ := exists_undisturbed yaml_ending hplace
  obtain ⟨S, hundisturbed', hS⟩ := exists_undisturbed json_ending hplace.symm
  exact ⟨hundisturbed.answers calls hR, hundisturbed'.answers_right calls hS⟩

/-- A folder with a document in JSON, a folder that has the name of a file in YAML, and a temporary
file. -/
def mixedShelf : Disk :=
  [("shelf".toText, .folder [("a.json".toText, .file [123, 125]), ("b%2Ejson.yaml".toText, .folder []),
    (".tmp-0.json".toText, .file [])])]

theorem formats_apart_shelf :
    let p : Disk.Path := ⟨["shelf".toText]⟩
    let q : Disk.Path := ⟨["shelf".toText, "..".toText, "shelf".toText]⟩
    let calls : List (Method ⊕ Method) :=
      [.inr (.write "a".toText (.object [])), .inl (.write "b.json".toText (.object [])),
        .inr (.erase "a.json".toText), .inl (.erase "a".toText), .inr (.exist "b.json".toText),
        .inl .index]
    SamePlace mixedShelf p q ∧
    (Store.interleaved (store .json p) (store .yaml q) calls mixedShelf).1.filterMap Sum.getLeft? =
      [.ok .done, .ok .done, .ok (.identifiers ["b.json".toText])] ∧
    (Store.interleaved (store .json p) (store .yaml q) calls mixedShelf).1.filterMap Sum.getRight? =
      [.ok .done, .error (.notFound "a.json".toText), .ok (.truth false)] := by
  intro p q calls
  have hplace : SamePlace mixedShelf p q := rfl
  obtain ⟨hjson, hyaml⟩ := formats_apart mixedShelf hplace calls
  have hindex : ∀ d : Disk, Disk.lookup d p = .ok (.folder [("b%2Ejson.yaml".toText, .folder []),
      (".tmp-0.json".toText, .file []), ("b%2Ejson.json".toText, .file [123, 125])]) →
      (Method.index.run (store .json p) d).1 = .ok (.identifiers ["b.json".toText]) := by
    intro d h
    have hlisted : index .json p d = .ok ["b.json".toText] := by
      rw [index_eq h]
      cbv
    rw [Method.run, map_apply]
    exact congrArg (Except.map Store.Answer.identifiers) hlisted
  refine ⟨hplace, hjson.trans ?_, hyaml.trans rfl⟩
  have hcalls : calls.filterMap Sum.getLeft? =
      [.write "b.json".toText (.object []), .erase "a".toText, .index] := rfl
  rw [hcalls, Store.answers_cons, Store.answers_cons, Store.answers_cons, hindex _ rfl]
  rfl

end Folder

end Cabinet
