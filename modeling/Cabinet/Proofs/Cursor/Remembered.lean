import Cabinet.Proofs.Cursor.Building
import Cabinet.Proofs.Cursor.Upheld

/-!
# Results are snapshots

Once all results of a query were taken they are kept, and from then on they are all that is ever given,
until the cursor is rewound. What becomes of the store in the meantime makes no difference, as it is not
asked any more.

* `Request.Stays` : requests that neither build the query further nor start it anew;
* `Retains`, `retaining_run`, `retains_serve` : what a cursor keeps stays through such requests, also where
  they fail;
* `Gives`, `GivesIndex` : some items, or some identifiers, are given without asking any store;
* `Logs`, `handOver_logged` : a log of what is handed over to a callback;
* `results_stay` : whichever way all results were taken first, they are given from then on.
-/

namespace Cabinet

variable {σ α β : Type}

open Cabinet.Action

namespace Cursor

/-! ## What is kept stays -/

/-- The request neither builds the query further nor starts it anew. -/
def Request.Stays : Request σ → Prop
  | .call (.build _) | .call .rewind => False
  | _ => True

/-- What one cursor waits with or keeps, another does as well. -/
structure Retains (c c' : Cursor σ) : Prop where
  waiting : c'.waiting = c.waiting
  results : ∀ xs, c.results = some xs → c'.results = some xs
  identifiers : ∀ ids, c.identifiers = some ids → c'.identifiers = some ids

theorem Retains.refl (c : Cursor σ) : Retains c c := ⟨rfl, fun _ h => h, fun _ h => h⟩

theorem Retains.trans {c₁ c₂ c₃ : Cursor σ} (h : Retains c₁ c₂) (h' : Retains c₂ c₃) :
    Retains c₁ c₃ :=
  ⟨h'.waiting.trans h.waiting, fun xs hxs => h'.results xs (h.results xs hxs),
    fun ids hids => h'.identifiers ids (h.identifiers ids hids)⟩

/-- Pulling items changes nothing that is kept. -/
theorem Retains.progress (c : Cursor σ) (p : Progress c.chain) :
    Retains c { c with progress := p } :=
  ⟨rfl, fun _ h => h, fun _ h => h⟩

/-- Results are only ever put where there are none. -/
theorem Retains.keep {c : Cursor σ} (hr : c.results = none) (p : Progress c.chain)
    (xs : List Item) : Retains c { c with progress := p, results := some xs } :=
  ⟨rfl, fun _ h => (nomatch hr.symm.trans h), fun _ h => h⟩

/-- Identifiers that are kept are all that listing them gives. -/
theorem index_kept {c : Cursor σ} {ids : List Text} (hc : c.waiting = none)
    (hi : c.identifiers = some ids) (w : σ) : index (c, w) = (.ok ids, c, w) := by
  simp only [index, bind_apply, check_apply hc, get_apply, hi, pure_apply]

/-- An operation that leaves the cursor with all that it waits with or keeps. -/
def Retaining (a : Run σ α) : Prop := ∀ c w, Retains c (a (c, w)).2.1

theorem Retaining.map {a : Run σ α} (ha : Retaining a) (f : α → β) : Retaining (f <$> a) := by
  intro c w
  rw [map_apply]
  exact ha c w

theorem Retaining.bind {a : Run σ α} {f : α → Run σ β} (ha : Retaining a)
    (hf : ∀ x, Retaining (f x)) : Retaining (a >>= f) := by
  intro c w
  have hfirst := ha c w
  rw [bind_apply]
  generalize a (c, w) = r at hfirst ⊢
  rcases r with ⟨_ | x, c', w'⟩
  · exact hfirst
  · exact hfirst.trans (hf x c' w')

theorem retaining_pure (x : α) : Retaining (pure x : Run σ α) := fun c _ => .refl c

theorem retaining_check : Retaining (check : Run σ Unit) := by
  intro c w
  simp only [check]
  cases c.waiting <;> exact .refl c

theorem retaining_next : Retaining (next : Run σ Value) :=
  retaining_check.bind fun _ =>
    .bind (fun c w => .progress c (pull c.store c.idField c.chain c.progress w).2.1)
      fun _ => retaining_pure _

theorem retaining_iterateFor (fuel : Nat) : Retaining (iterateFor fuel : Run σ (List Value)) := by
  induction fuel with
  | zero => exact retaining_pure []
  | succ fuel ih =>
    refine retaining_next.bind fun d => ?_
    by_cases hd : d = .null
    · rw [if_pos hd]
      exact retaining_pure []
    · rw [if_neg hd]
      exact ih.bind fun _ => retaining_pure _

theorem retaining_iterate : Retaining (iterate : Run σ (List Value)) :=
  .bind (fun c _ => .refl c) retaining_iterateFor

theorem retaining_index : Retaining (index : Run σ (List Text)) := by
  intro c w
  cases hc : c.waiting with
  | some e =>
    have hindex : index (c, w) = (.error (.query e), c, w) := check_bind_waiting hc _
    rw [hindex]
    exact .refl c
  | none =>
    cases hi : c.identifiers with
    | some ids =>
      rw [index_kept hc hi]
      exact .refl c
    | none =>
      rw [index_apply hc hi]
      generalize c.store.index w = r
      rcases r with ⟨_ | ids, w'⟩
      · exact .refl c
      · exact ⟨rfl, fun _ h => h, fun _ h => nomatch hi.symm.trans h⟩

theorem retaining_items : Retaining (items : Run σ (List Item)) := by
  intro c w
  cases hc : c.waiting with
  | some e =>
    have hitems : items (c, w) = (.error (.query e), c, w) := check_bind_waiting hc _
    rw [hitems]
    exact .refl c
  | none =>
    cases hr : c.results with
    | some xs =>
      rw [items_kept hc hr]
      exact .refl c
    | none =>
      rw [items_apply hc hr]
      generalize drain c.store c.idField c.chain c.progress w = r
      rcases r with ⟨_ | xs, p, w'⟩
      · exact .progress c p
      · exact .keep hr p xs

theorem retaining_toList : Retaining (toList : Run σ (List Value)) :=
  retaining_items.bind fun _ => retaining_pure _

theorem retaining_count : Retaining (count : Run σ Nat) := by
  intro c w
  cases hc : c.waiting with
  | some e =>
    have hcount : count (c, w) = (.error (.query e), c, w) := check_bind_waiting hc _
    rw [hcount]
    exact .refl c
  | none =>
    rw [count_apply hc]
    cases c.chain.isEmpty with
    | true => exact retaining_index c w
    | false => exact retaining_items c w

/-- Kept items are handed over one after another, and the cursor stays as it is. -/
theorem each_kept {c : Cursor σ} {xs : List Item} (hc : c.waiting = none)
    (hr : c.results = some xs) (callback : Value → Action σ Unit) (w : σ) :
    each callback (c, w) = onStore (fun _ => (xs.map Item.document).forM callback) (c, w) := by
  have heach : each callback (c, w) =
      xs.forM (fun x => onStore fun _ => callback x.document) (c, w) := by
    simp only [each, bind_apply, check_apply hc, get_apply, hr]
  rw [heach]
  clear heach hr
  induction xs generalizing w with
  | nil => rfl
  | cons x xs ih =>
    show ((onStore fun _ => callback x.document) >>= fun _ =>
        xs.forM fun x => onStore fun _ => callback x.document) (c, w) =
      onStore (fun _ => callback x.document >>= fun _ => (xs.map Item.document).forM callback) (c, w)
    simp only [bind_apply, onStore]
    generalize callback x.document w = r
    rcases r with ⟨_ | _, w'⟩
    · rfl
    · exact ih w'

theorem retaining_each (callback : Value → Action σ Unit) : Retaining (each callback) := by
  intro c w
  cases hc : c.waiting with
  | some e =>
    have heach : each callback (c, w) = (.error (.query e), c, w) := check_bind_waiting hc _
    rw [heach]
    exact .refl c
  | none =>
    cases hr : c.results with
    | some xs =>
      rw [each_kept hc hr]
      exact .refl c
    | none =>
      rw [each_apply hc hr]
      obtain ⟨p, hp⟩ := handOver_progress callback
        (Progress.remaining c.store c.chain c.progress w + 1) c w
      generalize handOver callback _ (c, w) = r at hp ⊢
      rcases r with ⟨_ | xs, c', w'⟩
      · obtain rfl : c' = { c with progress := p } := hp
        exact .progress c _
      · obtain rfl : c' = { c with progress := p } := hp
        exact .keep hr p xs

theorem retaining_run {q : Request σ} (hq : q.Stays) : Retaining q.run := by
  cases q with
  | items => exact retaining_items.map _
  | iterate => exact retaining_iterate.map _
  | call asked =>
    cases asked with
    | build clause | rewind => exact hq.elim
    | next => exact retaining_next.map _
    | index => exact retaining_index.map _
    | toList => exact retaining_toList.map _
    | each callback => exact (retaining_each callback).map _
    | count => exact retaining_count.map _
    | change f => exact fun c _ => .refl c

theorem retains_serve {requests : List (Request σ)} (h : ∀ q ∈ requests, q.Stays)
    (c : Cursor σ) (w : σ) : Retains c (serve requests (c, w)).2.1 := by
  induction requests generalizing c w with
  | nil => exact .refl c
  | cons q qs ih =>
    obtain ⟨hq, hqs⟩ := List.forall_mem_cons.mp h
    exact (retaining_run hq c w).trans (ih hqs _ _)

/-! ## What is kept is given -/

/-- The same cursor over another store. -/
def onto (c : Cursor σ) (s : Store σ) : Cursor σ := { c with store := s }

/-- The cursor gives some items in each way of taking all of them, whatever store it is put over and
whatever that store's state: nothing is asked of it, and the cursor stays as it is. -/
def Gives (c : Cursor σ) (xs : List Item) : Prop :=
  ∀ (s : Store σ) (w : σ),
    items (c.onto s, w) = (.ok xs, c.onto s, w) ∧
    toList (c.onto s, w) = (.ok (xs.map Item.document), c.onto s, w) ∧
    ∀ callback, each callback (c.onto s, w) =
      onStore (fun _ => (xs.map Item.document).forM callback) (c.onto s, w)

/-- The cursor gives some identifiers without asking for them. -/
def GivesIndex (c : Cursor σ) (ids : List Text) : Prop :=
  ∀ (s : Store σ) (w : σ), index (c.onto s, w) = (.ok ids, c.onto s, w)

/-- After any requests but those that build or start anew, something holds of the cursor. -/
def FromNowOn (x : Cursor σ × σ) (holds : Cursor σ → Prop) : Prop :=
  ∀ requests : List (Request σ), (∀ q ∈ requests, q.Stays) → holds (serve requests x).2.1

section Kept
variable {c : Cursor σ}

theorem gives_of_kept {xs : List Item} (hc : c.waiting = none) (hr : c.results = some xs) :
    c.Gives xs := by
  intro s w
  have hitems : items (c.onto s, w) = (.ok xs, c.onto s, w) := items_kept hc hr
  refine ⟨hitems, ?_, fun callback => each_kept (c := c.onto s) hc hr callback w⟩
  rw [toList, bind_apply, hitems]
  rfl

theorem givesIndex_of_kept {ids : List Text} (hc : c.waiting = none)
    (hi : c.identifiers = some ids) : c.GivesIndex ids :=
  fun s w => index_kept (c := c.onto s) hc hi w

theorem fromNowOn_gives {xs : List Item} (hc : c.waiting = none) (hr : c.results = some xs) (w : σ) :
    FromNowOn (c, w) (·.Gives xs) := by
  intro requests hrequests
  have hretains := retains_serve hrequests c w
  exact gives_of_kept (hretains.waiting.trans hc) (hretains.results xs hr)

theorem fromNowOn_givesIndex {ids : List Text} (hc : c.waiting = none)
    (hi : c.identifiers = some ids) (w : σ) : FromNowOn (c, w) (·.GivesIndex ids) := by
  intro requests hrequests
  have hretains := retains_serve hrequests c w
  exact givesIndex_of_kept (hretains.waiting.trans hc) (hretains.identifiers ids hi)

end Kept

/-! ## Taking all results for the first time -/

/-- A log that a callback adds each document to, also where it fails, and that asking a store leaves
alone. -/
structure Logs (s : Store σ) (callback : Value → Action σ Unit) (log : σ → List Value) : Prop where
  asked : ∀ noted, s.Reads (fun w => log w = noted) fun _ => True
  handed : ∀ d w, log (callback d w).2 = log w ++ [d]

section Taking
variable {c c' : Cursor σ} {w w' : σ} {callback : Value → Action σ Unit} {log : σ → List Value}

theorem Logs.pull (h : Logs c.store callback log) (p : Progress c.chain) (w : σ) :
    log (pull c.store c.idField c.chain p w).2.2 = log w :=
  pull_state (h.asked (log w)) p rfl

theorem Logs.forM (h : Logs c.store callback log) :
    ∀ {docs : List Value} {w w' : σ}, docs.forM callback w = (.ok (), w') →
      log w' = log w ++ docs
  | [], w, w', hrun => by
    cases hrun
    exact (List.append_nil _).symm
  | d :: docs, w, w', hrun => by
    have hrun : (callback d >>= fun _ => docs.forM callback) w = (.ok (), w') := hrun
    have hhanded := h.handed d w
    rw [bind_apply] at hrun
    generalize callback d w = r at hrun hhanded
    rcases r with ⟨_ | _, w₁⟩
    · cases hrun
    · rw [h.forM hrun, hhanded, List.append_assoc]
      rfl

/-- Handing over all items logs their documents. -/
theorem handOver_logged (h : Logs c.store callback log) {fuel : Nat} {xs : List Item}
    (hrun : handOver callback fuel (c, w) = (.ok xs, c', w')) :
    log w' = log w ++ xs.map Item.document := by
  induction fuel generalizing c w xs with
  | zero =>
    cases hrun
    exact (List.append_nil _).symm
  | succ fuel ih =>
    have hpull := h.pull c.progress w
    rw [handOver, bind_apply, pullItem] at hrun
    generalize pull c.store c.idField c.chain c.progress w = r at hrun hpull
    rcases r with ⟨_ | _ | x, p, w₁⟩
    · cases hrun
    · cases hrun
      exact hpull.trans (List.append_nil _).symm
    · have hhanded := h.handed x.document w₁
      simp only [bind_apply, onStore] at hrun
      generalize callback x.document w₁ = r at hrun hhanded
      rcases r with ⟨_ | _, w₂⟩
      · cases hrun
      · simp only at hrun hhanded hpull
        generalize hrest : handOver callback fuel ({ c with progress := p }, w₂) = r at hrun
        rcases r with ⟨_ | ys, c₃, w₃⟩
        · cases hrun
        · cases hrun
          have hrest' := ih (c := { c with progress := p }) h hrest
          rw [hrest', hhanded, hpull, List.append_assoc]
          rfl

/-- Items that were taken are kept. -/
theorem items_keeps {xs : List Item} (h : items (c, w) = (.ok xs, c', w')) :
    c'.waiting = none ∧ c'.results = some xs := by
  cases hc : c.waiting with
  | some e =>
    have hitems : items (c, w) = (.error (.query e), c, w) := check_bind_waiting hc _
    cases hitems.symm.trans h
  | none =>
    cases hr : c.results with
    | some ys =>
      cases (items_kept hc hr).symm.trans h
      exact ⟨hc, hr⟩
    | none =>
      rw [items_apply hc hr] at h
      generalize drain c.store c.idField c.chain c.progress w = r at h
      rcases r with ⟨_ | ys, p, w₁⟩
      · cases h
      · cases h
        exact ⟨hc, rfl⟩

/-- Items whose documents were all handed over are kept, and the documents are in the log. -/
theorem each_keeps (h : each callback (c, w) = (.ok (), c', w')) :
    ∃ xs, c'.waiting = none ∧ c'.results = some xs ∧
      ∀ log, Logs c.store callback log → log w' = log w ++ xs.map Item.document := by
  cases hc : c.waiting with
  | some e =>
    have heach : each callback (c, w) = (.error (.query e), c, w) := check_bind_waiting hc _
    cases heach.symm.trans h
  | none =>
    cases hr : c.results with
    | some xs =>
      rw [each_kept hc hr, onStore] at h
      generalize hforM : (xs.map Item.document).forM callback w = r at h
      rcases r with ⟨r, w₁⟩
      cases h
      exact ⟨xs, hc, hr, fun log hlog => hlog.forM hforM⟩
    | none =>
      rw [each_apply hc hr] at h
      obtain ⟨p, hp⟩ := handOver_progress callback
        (Progress.remaining c.store c.chain c.progress w + 1) c w
      generalize hhand : handOver callback _ (c, w) = r at h hp
      rcases r with ⟨_ | xs, c₁, w₁⟩
      · cases h
      · obtain rfl : c₁ = { c with progress := p } := hp
        cases h
        exact ⟨xs, hc, rfl, fun log hlog => handOver_logged hlog hhand⟩

theorem index_keeps {ids : List Text} (h : index (c, w) = (.ok ids, c', w')) :
    c'.waiting = none ∧ c'.identifiers = some ids := by
  cases hc : c.waiting with
  | some e =>
    have hindex : index (c, w) = (.error (.query e), c, w) := check_bind_waiting hc _
    cases hindex.symm.trans h
  | none =>
    cases hi : c.identifiers with
    | some ids' =>
      cases (index_kept hc hi w).symm.trans h
      exact ⟨hc, hi⟩
    | none =>
      rw [index_apply hc hi] at h
      generalize c.store.index w = r at h
      rcases r with ⟨_ | ids', w₁⟩
      · cases h
      · cases h
        exact ⟨hc, rfl⟩

end Taking

/-- Once all results of a cursor were taken, in whichever way and over whatever store, they are given from
then on: as items, as a list, and handed over one by one. In between the cursor may have been asked for
anything but to build the query further or to start anew, its store may have changed or fail, and
functions that documents were handed to may have failed. No store is asked for what is given. The same
holds of the identifiers once they were listed. -/
theorem results_stay (c : Cursor σ) (w : σ) :
    (∀ xs c' w', items (c, w) = (.ok xs, c', w') → FromNowOn (c', w') (·.Gives xs)) ∧
    (∀ docs c' w', toList (c, w) = (.ok docs, c', w') →
      ∃ xs, docs = xs.map Item.document ∧ FromNowOn (c', w') (·.Gives xs)) ∧
    (∀ callback c' w', each callback (c, w) = (.ok (), c', w') →
      ∃ xs, (∀ log, Logs c.store callback log → log w' = log w ++ xs.map Item.document) ∧
        FromNowOn (c', w') (·.Gives xs)) ∧
    ∀ ids c' w', index (c, w) = (.ok ids, c', w') → FromNowOn (c', w') (·.GivesIndex ids) := by
  refine ⟨fun xs c' w' h => ?_, fun docs c' w' h => ?_, fun callback c' w' h => ?_,
    fun ids c' w' h => ?_⟩
  · obtain ⟨hc, hr⟩ := items_keeps h
    exact fromNowOn_gives hc hr w'
  · rw [toList, bind_apply] at h
    generalize hitems : items (c, w) = r at h
    rcases r with ⟨_ | xs, c₁, w₁⟩
    · cases h
    · cases h
      obtain ⟨hc, hr⟩ := items_keeps hitems
      exact ⟨xs, rfl, fromNowOn_gives hc hr _⟩
  · obtain ⟨xs, hc, hr, hlog⟩ := each_keeps h
    exact ⟨xs, hlog, fromNowOn_gives hc hr w'⟩
  · obtain ⟨hc, hi⟩ := index_keeps h
    exact fromNowOn_givesIndex hc hi w'

/-! ## Lamps that are all removed -/

/-- A query for all lamps, over a memory with notes. -/
def notedLamps : Cursor (Memory × List Value) := make notebook .nothing .nothing none

/-- The memory is emptied, and then one more lamp is asked for and a callback fails. -/
def emptied : List (Request (Memory × List Value)) :=
  [.call (.change fun w => ([], w.2)), .call .next, .call (.each refuse)]

theorem logs_note : Logs notebook note Prod.snd where
  asked _ := ⟨fun _ hw => hw, fun _ _ hw => hw, fun _ _ _ _ _ => trivial⟩
  handed _ _ := rfl

theorem results_stay_lamps :
    ∃ c w, each note (notedLamps, lamps, []) = (.ok (), c, w) ∧
      w.2 = [.object (lamp "a".toText), .object (lamp "b".toText), .object (lamp "c".toText)] ∧
      (serve emptied (c, w)).2.2.1 = [] ∧
      (toList (serve emptied (c, w)).2).1 = .ok w.2 := by
  obtain ⟨⟨c, w⟩, hleft⟩ : ∃ x, (each note (notedLamps, lamps, [])).2 = x := ⟨_, rfl⟩
  have heach : each note (notedLamps, lamps, []) = (.ok (), c, w) := Prod.ext (by cbv) hleft
  have hnoted : w.2 = [.object (lamp "a".toText), .object (lamp "b".toText), .object (lamp "c".toText)] := by
    rw [show w = (each note (notedLamps, lamps, [])).2.2 from congrArg Prod.snd hleft.symm]
    cbv
  have hgone : (serve emptied (c, w)).2.2.1 = [] := by
    rw [← hleft]
    cbv
  obtain ⟨xs, hlog, hgives⟩ := (results_stay notedLamps (lamps, [])).2.2.1 note c w heach
  have hgiven := (hgives emptied (by simp [emptied, Request.Stays])
    (serve emptied (c, w)).2.1.store (serve emptied (c, w)).2.2).2.1
  refine ⟨c, w, heach, hnoted, hgone, ?_⟩
  rw [hlog Prod.snd logs_note]
  exact congrArg Prod.fst hgiven

end Cursor

end Cabinet
