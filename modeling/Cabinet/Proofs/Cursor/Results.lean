import Cabinet.Cursor.Basic
import Cabinet.Proofs.Cursor.Pull
import Cabinet.Store.Memory

/-!
# Every way of taking results gives the answer

* `Steady` : a store whose identifiers and documents stay the same while it is asked;
* `toList_iff` : taking all results drains the chain;
* `toList_eq`, `nextTimes_eq`, `iterate_eq`, `each_eq` : over such a store each way of taking results
  gives the items that are to come, as one list;
* `Clause`, `Clause.addTo`, `Clause.stage` : what builds a query further, on a cursor and as a stage;
* `firstItems` : what a condition and a projection make of the documents in a store;
* `results_agree` : on a new cursor, all ways of taking results give the list-level meaning.
-/

namespace Cabinet

variable {σ : Type}

/-! ## Stores that stay as they are -/

/-- In the states of a class, a store lists and reads the same at any time, and stays in the class.
Asking it leaves `log` alone, which something else may write to. -/
structure Steady (s : Store σ) (I : σ → Prop) (log : σ → List Value) (ids : List Text)
    (doc : Text → Document) : Prop where
  index : ∀ w, I w → ∃ w', s.index w = (.ok ids, w') ∧ I w' ∧ log w' = log w
  read : ∀ id ∈ ids, ∀ w, I w → ∃ w', s.read id w = (.ok (doc id), w') ∧ I w' ∧ log w' = log w

/-- A callback that notes each document it is given, and leaves the store alone. -/
def Notes (callback : Value → Action σ Unit) (I : σ → Prop) (log : σ → List Value) : Prop :=
  ∀ d w, I w → ∃ w', callback d w = (.ok (), w') ∧ I w' ∧ log w' = log w ++ [d]

/-- Nothing fails while the log is as it is. -/
def Outlook.still (I : σ → Prop) (log : σ → List Value) (noted : List Value) : Outlook σ where
  fresh w := I w ∧ log w = noted
  listed w := I w ∧ log w = noted
  failed _ _ := False

section Steady
variable {s : Store σ} {I : σ → Prop} {log : σ → List Value} {ids : List Text}
  {doc : Text → Document} {idField : Option Text}

theorem Steady.answers (h : Steady s I log ids doc) (noted : List Value) :
    Answers s (.still I log noted) ids doc where
  index w hw := by
    obtain ⟨w', hr, hI, hlog⟩ := h.index w hw.1
    rw [hr]
    exact .ok ⟨hI, hlog.trans hw.2⟩
  index_none w hw e he := by
    obtain ⟨w', hr, -⟩ := h.index w hw.1
    rw [hr] at he
    cases he
  read id hid w hw := by
    obtain ⟨w', hr, hI, hlog⟩ := h.read id hid w hw.1
    rw [hr]
    exact .ok ⟨hI, hlog.trans hw.2⟩

open Progress (toCome Sound)

/-- Nothing may fail. -/
abbrev never : Failure → Prop := fun _ => False

theorem pull_steady (h : Steady s I log ids doc) (noted : List Value) {chain : List Stage}
    (hfits : Fits idField ids doc never chain) {p : Progress chain} {w : σ}
    (hp : Sound (.still I log noted) idField ids doc chain p w) :
    ∃ p' w', pull s idField chain p w = (.ok (toCome idField ids doc chain p).head?, p', w') ∧
      toCome idField ids doc chain p' = (toCome idField ids doc chain p).tail ∧
      Sound (.still I log noted) idField ids doc chain p' w' :=
  (pull_serves (h.answers noted) (fun _ h => h.elim) chain hfits p w hp).of_never fun _ _ h => h

theorem drain_steady (h : Steady s I log ids doc) (noted : List Value) {chain : List Stage}
    (hfits : Fits idField ids doc never chain) {p : Progress chain} {w : σ}
    (hp : Sound (.still I log noted) idField ids doc chain p w) :
    ∃ p' w', drain s idField chain p w = (.ok (toCome idField ids doc chain p), p', w') ∧
      toCome idField ids doc chain p' = [] ∧
      Sound (.still I log noted) idField ids doc chain p' w' :=
  (drain_drained (h.answers noted) (fun _ h => h.elim) hfits hp).of_never fun _ _ h => h

/-- The log of a state in which progress is sound. -/
theorem still_of_sound {noted : List Value} {chain : List Stage} {p : Progress chain} {w : σ}
    (hp : Sound (.still I log noted) idField ids doc chain p w) : I w ∧ log w = noted :=
  (Progress.sound_state chain hp).elim id id

end Steady

/-! ## Taking results -/

namespace Cursor

variable {c : Cursor σ} {w : σ}

theorem check_apply (hc : c.waiting = none) : check (c, w) = (.ok (), c, w) := by
  simp only [check, hc]

theorem next_apply (hc : c.waiting = none) :
    next (c, w) = match pull c.store c.idField c.chain c.progress w with
      | (.ok x, p, w) => (.ok ((x.map Item.document).getD .null), { c with progress := p }, w)
      | (.error e, p, w) => (.error e, { c with progress := p }, w) := by
  simp only [next, Action.bind_apply, check_apply hc, pullItem]
  generalize pull c.store c.idField c.chain c.progress w = r
  rcases r with ⟨_ | _, p, w⟩ <;> rfl

theorem items_apply (hc : c.waiting = none) (hr : c.results = none) :
    items (c, w) = match drain c.store c.idField c.chain c.progress w with
      | (.ok xs, p, w) => (.ok xs, { c with progress := p, results := some xs }, w)
      | (.error e, p, w) => (.error e, { c with progress := p }, w) := by
  simp only [items, Action.bind_apply, check_apply hc, Action.get_apply, hr, drainItems]
  generalize drain c.store c.idField c.chain c.progress w = r
  rcases r with ⟨_ | _, p, w⟩ <;> rfl

/-- Taking all results drains the chain. -/
theorem toList_iff {w' : σ} {docs : List Value} (hc : c.waiting = none) (hr : c.results = none) :
    (∃ c', toList (c, w) = (.ok docs, c', w')) ↔
      ∃ xs p, drain c.store c.idField c.chain c.progress w = (.ok xs, p, w') ∧
        docs = xs.map Item.document := by
  rw [toList, Action.bind_apply, items_apply hc hr]
  generalize drain c.store c.idField c.chain c.progress w = r
  rcases r with ⟨_ | xs, p, w₁⟩
  · constructor
    · rintro ⟨_, h⟩
      cases h
    · rintro ⟨_, _, h, -⟩
      cases h
  · constructor
    · rintro ⟨_, h⟩
      cases h
      exact ⟨xs, p, rfl, rfl⟩
    · rintro ⟨_, _, h, rfl⟩
      cases h
      exact ⟨_, rfl⟩

/-- The results of asking for the next document a number of times. -/
def nextTimes : Nat → Run σ (List Value)
  | 0 => return []
  | n + 1 => do return (← next) :: (← nextTimes n)

open Progress (toCome Sound)

section Taking
variable {I : σ → Prop} {log : σ → List Value} {ids : List Text} {doc : Text → Document}

/-- The documents that are still to come out of a cursor. -/
def toGive (c : Cursor σ) (ids : List Text) (doc : Text → Document) : List Value :=
  (toCome c.idField ids doc c.chain c.progress).map Item.document

/-- A cursor over a steady store, in sound progress, that nothing is kept in or waits in. -/
structure Ready (c : Cursor σ) (I : σ → Prop) (log : σ → List Value) (ids : List Text)
    (doc : Text → Document) (noted : List Value) (w : σ) : Prop where
  steady : Steady c.store I log ids doc
  fits : Fits c.idField ids doc never c.chain
  waiting : c.waiting = none
  results : c.results = none
  sound : Sound (.still I log noted) c.idField ids doc c.chain c.progress w

theorem next_ready {noted : List Value} (h : Ready c I log ids doc noted w) :
    ∃ p w', next (c, w) = (.ok ((c.toGive ids doc).head?.getD .null), { c with progress := p }, w') ∧
      toGive { c with progress := p } ids doc = (c.toGive ids doc).tail ∧
      Ready { c with progress := p } I log ids doc noted w' := by
  obtain ⟨p, w', hr, htail, hp⟩ := pull_steady h.steady noted h.fits h.sound
  refine ⟨p, w', ?_, ?_, ⟨h.steady, h.fits, h.waiting, h.results, hp⟩⟩
  · rw [next_apply h.waiting, hr, toGive, List.head?_map]
  · rw [toGive, toGive, htail, List.map_tail]

theorem toList_eq {noted : List Value} (h : Ready c I log ids doc noted w) :
    ∃ c' w', toList (c, w) = (.ok (c.toGive ids doc), c', w') := by
  obtain ⟨p, w', hr, -, -⟩ := drain_steady h.steady noted h.fits h.sound
  obtain ⟨c', hlist⟩ := (toList_iff h.waiting h.results).mpr ⟨_, p, hr, rfl⟩
  exact ⟨c', w', hlist⟩

/-- Asking as often as there are documents gives them all, and from then on null. -/
theorem nextTimes_eq : ∀ (n : Nat) {c : Cursor σ} {w : σ} {noted : List Value},
    Ready c I log ids doc noted w → ∃ c' w',
    nextTimes n (c, w) = (.ok ((c.toGive ids doc ++ List.replicate n Value.null).take n), c', w')
  | 0, c, w, _, _ => ⟨c, w, by rw [List.take_zero]; rfl⟩
  | n + 1, c, w, noted, h => by
    obtain ⟨p, w₁, hnext, htail, hready⟩ := next_ready h
    obtain ⟨c', w', hrest⟩ := nextTimes_eq n hready
    refine ⟨c', w', ?_⟩
    rw [nextTimes, Action.bind_apply, hnext]
    simp only [Action.bind_apply, hrest, Action.pure_apply, htail]
    cases c.toGive ids doc with
    | nil => simp [List.replicate_succ]
    | cons d rest =>
      have htake : (rest ++ List.replicate n Value.null).take n =
          (rest ++ List.replicate (n + 1) Value.null).take n := by
        rw [List.take_append, List.take_append, List.take_replicate, List.take_replicate]
        congr 2
        omega
      simp [htake]

/-- Iterating stops at the end, as no document is null. -/
theorem iterateFor_eq : ∀ (fuel : Nat) {c : Cursor σ} {w : σ} {noted : List Value},
    Ready c I log ids doc noted w → (∀ d ∈ c.toGive ids doc, d ≠ .null) →
    (c.toGive ids doc).length < fuel → ∃ c' w',
    iterateFor fuel (c, w) = (.ok (c.toGive ids doc), c', w')
  | 0, c, _, _, _, _, hfuel => absurd hfuel (by omega)
  | fuel + 1, c, w, noted, h, hnull, hfuel => by
    obtain ⟨p, w₁, hnext, htail, hready⟩ := next_ready h
    rw [iterateFor, Action.bind_apply]
    cases hgive : c.toGive ids doc with
    | nil =>
      rw [hgive] at hnext
      rw [hnext]
      exact ⟨_, w₁, rfl⟩
    | cons d rest =>
      rw [hgive] at hnext hnull hfuel htail
      rw [List.tail_cons] at htail
      obtain ⟨c', w', hrest⟩ := iterateFor_eq fuel hready
        (by rw [htail]; exact fun e he => hnull e (List.mem_cons_of_mem d he))
        (by rw [htail]; simpa using hfuel)
      refine ⟨c', w', ?_⟩
      have hd : d ≠ .null := hnull d List.mem_cons_self
      have hnext : next (c, w) = (.ok d, { c with progress := p }, w₁) := hnext
      simp only [hnext, if_neg hd, Action.bind_apply, hrest, htail, Action.pure_apply]

theorem iterate_eq {noted : List Value} (h : Ready c I log ids doc noted w)
    (hnull : ∀ d ∈ c.toGive ids doc, d ≠ .null) :
    ∃ c' w', iterate (c, w) = (.ok (c.toGive ids doc), c', w') := by
  have hle := Progress.length_toCome_le (h.steady.answers noted) c.chain h.sound
  rw [iterate, Action.bind_apply]
  refine iterateFor_eq _ h hnull ?_
  rw [toGive, List.length_map]
  omega

/-- Handing over all items notes their documents one after another. -/
theorem handOver_eq {callback : Value → Action σ Unit} (hcallback : Notes callback I log) :
    ∀ (fuel : Nat) {c : Cursor σ} {w : σ} {noted : List Value}, Ready c I log ids doc noted w →
    (c.toGive ids doc).length < fuel → ∃ c' w',
    handOver callback fuel (c, w) = (.ok (toCome c.idField ids doc c.chain c.progress), c', w') ∧
      log w' = noted ++ c.toGive ids doc
  | 0, c, _, _, _, hfuel => absurd hfuel (by omega)
  | fuel + 1, c, w, noted, h, hfuel => by
    obtain ⟨p, w₁, hr, htail, hp⟩ := pull_steady h.steady noted h.fits h.sound
    have hpull : pullItem (c, w) =
        (.ok (toCome c.idField ids doc c.chain c.progress).head?, { c with progress := p }, w₁) := by
      simp only [pullItem, hr]
    rw [handOver, Action.bind_apply, hpull]
    cases hcome : toCome c.idField ids doc c.chain c.progress with
    | nil => exact ⟨_, w₁, rfl, by simp [toGive, hcome, (still_of_sound hp).2]⟩
    | cons x rest =>
      rw [hcome, List.tail_cons] at htail
      obtain ⟨w₂, hcall, hI, hlog⟩ := hcallback x.document w₁ (still_of_sound hp).1
      rw [(still_of_sound hp).2] at hlog
      have hready : Ready { c with progress := p } I log ids doc (noted ++ [x.document]) w₂ :=
        ⟨h.steady, h.fits, h.waiting, h.results,
          sound_move (fun _ => And.intro hI hlog) (fun _ => And.intro hI hlog) c.chain hp⟩
      have hgive : toGive { c with progress := p } ids doc = rest.map Item.document := by
        rw [toGive, htail]
      obtain ⟨c', w', hrest, hnoted⟩ := handOver_eq hcallback fuel hready (by
        rw [hgive]
        rw [toGive, hcome] at hfuel
        simpa using hfuel)
      refine ⟨c', w', ?_, ?_⟩
      · simp only [List.head?_cons, onStore, Action.bind_apply, hcall, hrest, htail,
          Action.pure_apply]
      · rw [hnoted, hgive, toGive, hcome]
        simp

theorem each_eq {callback : Value → Action σ Unit} (hcallback : Notes callback I log)
    {noted : List Value} (h : Ready c I log ids doc noted w) :
    ∃ c' w', each callback (c, w) = (.ok (), c', w') ∧ log w' = noted ++ c.toGive ids doc := by
  have hle := Progress.length_toCome_le (h.steady.answers noted) c.chain h.sound
  obtain ⟨c', w', hall, hlog⟩ := handOver_eq hcallback
    (Progress.remaining c.store c.chain c.progress w + 1) h (by
      rw [toGive, List.length_map]
      omega)
  refine ⟨{ c' with results := some (toCome c.idField ids doc c.chain c.progress) }, w', ?_, hlog⟩
  simp only [each, fuel, Action.bind_apply, check_apply h.waiting, Action.get_apply, h.results,
    Action.tryCatch_apply, hall, Action.modify_apply]

end Taking

/-! ## Building a query -/

/-- A sort order, an offset or a limit, as it is given. -/
inductive Clause where
  | sort (order : Given Comparator)
  | offset (count : Value)
  | limit (count : Value)

/-- Builds a query further. -/
def Clause.addTo (c : Cursor σ) : Clause → Except Failure (Cursor σ)
  | .sort order => .ok (c.sort order)
  | .offset count => c.offset count
  | .limit count => c.limit count

/-- The stage that a clause means, or why it means none. -/
def Clause.stage : Clause → Except Failure Stage
  | .sort order => ((SortOrder.compile order).map Stage.sort).mapError .query
  | .offset count => count.toInteger.map .offset
  | .limit count => count.toInteger.map .limit

/-- Builds a query further, clause by clause. -/
def extend (c : Cursor σ) (clauses : List Clause) : Except Failure (Cursor σ) :=
  clauses.foldlM Clause.addTo c

/-- The cursor over a chain that has made no progress. -/
def start (s : Store σ) (idField : Option Text) (chain : List Stage) : Cursor σ :=
  ⟨s, idField, chain, Progress.rewound chain, none, none, none⟩

variable {s : Store σ} {idField : Option Text}

theorem addTo_start {clause : Clause} {stage : Stage} (hstage : clause.stage = .ok stage)
    (chain : List Stage) :
    clause.addTo (start s idField chain) = .ok (start s idField (stage :: chain)) := by
  cases clause with
  | sort order =>
    obtain ⟨compare, hcompile, rfl⟩ := ok_of_map (ok_of_mapError hstage)
    rw [Clause.addTo, sort, hcompile]
    rfl
  | offset count =>
    obtain ⟨n, hcount, rfl⟩ := ok_of_map hstage
    rw [Clause.addTo, offset, hcount]
    rfl
  | limit count =>
    obtain ⟨n, hcount, rfl⟩ := ok_of_map hstage
    rw [Clause.addTo, limit, hcount]
    rfl

theorem Clause.stage_keepsDocuments {clause : Clause} {stage : Stage}
    (hstage : clause.stage = .ok stage) : stage.keepsDocuments = true := by
  cases clause with
  | sort order =>
    obtain ⟨compare, -, rfl⟩ := ok_of_map (ok_of_mapError hstage)
    rfl
  | offset count | limit count =>
    obtain ⟨n, -, rfl⟩ := ok_of_map hstage
    rfl

theorem extend_start : ∀ {clauses : List Clause} {stages : List Stage} (chain : List Stage),
    clauses.mapM Clause.stage = .ok stages →
    extend (start s idField chain) clauses = .ok (start s idField (stages.reverse ++ chain)) ∧
      ∀ stage ∈ stages, stage.keepsDocuments = true
  | [], stages, chain, hstages => by
    obtain rfl : [] = stages := Except.ok.inj hstages
    exact ⟨rfl, by simp⟩
  | clause :: clauses, stages, chain, hstages => by
    rw [List.mapM_cons] at hstages
    obtain ⟨stage, hstage, hstages⟩ := ok_of_bind hstages
    obtain ⟨rest, hrest, hstages⟩ := ok_of_bind hstages
    obtain rfl : stage :: rest = stages := Except.ok.inj hstages
    obtain ⟨hextend, hkeeps⟩ := extend_start (stage :: chain) hrest
    refine ⟨?_, List.forall_mem_cons.mpr ⟨Clause.stage_keepsDocuments hstage, hkeeps⟩⟩
    rw [extend, List.foldlM_cons, addTo_start hstage, List.reverse_cons, List.append_assoc]
    exact hextend

/-! ## The first stages -/

/-- The chain of a new query. -/
def firstStages (condition : Given Predicate) (projection : Given Transform) (accepts : Predicate)
    (transform : Transform) : List Stage :=
  (if projection.isNothing then [] else [.projection transform]) ++
    if condition.isNothing then [] else [.condition accepts]

/-- What a condition and a projection make of the documents in a store. -/
def firstItems (accepts : Predicate) (transform : Transform) (items : List Item) : List Item :=
  (items.filter fun x => accepted accepts x.document).map (Item.projected transform)

section First
variable {condition : Given Predicate} {projection : Given Transform} {accepts : Predicate}
  {transform : Transform}

theorem add_eq {α β : Type} {given : Given α} {compile : Given α → Except QueryError β}
    {compiled : β} (h : compile given = .ok compiled) (c : Cursor σ)
    (stage : Cursor σ → β → Cursor σ) :
    c.add given compile stage = bif given.isNothing then c else stage c compiled := by
  rw [add, h]
  cases given.isNothing <;> rfl

theorem make_eq_start (hcondition : Condition.compile condition = .ok accepts)
    (hprojection : Projection.compile projection = .ok transform) :
    make s condition projection idField =
      start s idField (firstStages condition projection accepts transform) := by
  rw [make, add_eq hcondition, add_eq hprojection, firstStages]
  generalize condition.isNothing = noCondition
  generalize projection.isNothing = noProjection
  cases noCondition <;> cases noProjection <;> rfl

theorem eq_nothing {α : Type} {given : Given α} (h : given.isNothing = true) :
    given = .nothing := by
  unfold Given.isNothing at h
  split at h
  · rfl
  · cases h

/-- Nothing given as a condition means that every document is accepted. -/
theorem accepts_of_nothing (hcondition : Condition.compile condition = .ok accepts)
    (hnothing : condition.isNothing = true) : accepts = Condition.always := by
  rw [eq_nothing hnothing] at hcondition
  exact (Except.ok.inj hcondition).symm

/-- Nothing given as a projection means that documents stay as they are. -/
theorem transform_of_nothing (hprojection : Projection.compile projection = .ok transform)
    (hnothing : projection.isNothing = true) : transform = Projection.identity.apply := by
  rw [eq_nothing hnothing] at hprojection
  exact (Except.ok.inj hprojection).symm

theorem map_projected_identity (items : List Item) :
    items.map (Item.projected Projection.identity.apply) = items := List.map_id' items

theorem filter_accepted_always (items : List Item) :
    (items.filter fun x => accepted Condition.always x.document) = items :=
  List.filter_eq_self.mpr fun _ _ => rfl

theorem answer_firstStages (hcondition : Condition.compile condition = .ok accepts)
    (hprojection : Projection.compile projection = .ok transform) (items : List Item) :
    answer (firstStages condition projection accepts transform) items =
      firstItems accepts transform items := by
  rw [firstStages, firstItems]
  cases hc : condition.isNothing <;> cases hp : projection.isNothing
  · rfl
  · rw [transform_of_nothing hprojection hp, map_projected_identity]
    rfl
  · rw [accepts_of_nothing hcondition hc, filter_accepted_always]
    rfl
  · rw [transform_of_nothing hprojection hp, map_projected_identity,
      accepts_of_nothing hcondition hc, filter_accepted_always]
    rfl

theorem fits_firstStages {ids : List Text} {doc : Text → Document} {may : Failure → Prop}
    (hcondition : Condition.compile condition = .ok accepts)
    (haccepts : ∀ x ∈ storedItems idField ids doc, ∀ e, accepts x.document = .error e → may e)
    (htransform : ∀ x ∈ storedItems idField ids doc, accepted accepts x.document = true →
      ∀ e, transform x.document = .error e → may e) :
    Fits idField ids doc may (firstStages condition projection accepts transform) := by
  rw [firstStages]
  cases hc : condition.isNothing <;> cases hp : projection.isNothing
  · refine ⟨⟨trivial, haccepts⟩, fun x hx => ?_⟩
    obtain ⟨hx, ha⟩ := List.mem_filter.mp hx
    exact htransform x hx ha
  · exact ⟨trivial, haccepts⟩
  · exact ⟨trivial, fun x hx => htransform x hx (accepts_of_nothing hcondition hc ▸ rfl)⟩
  · exact trivial

/-- A projection makes a document of a document, unless it is a function that does not. -/
theorem made_object (hprojection : Projection.compile projection = .ok transform) {d : Document}
    {v : Value} (hmade : transform (.object d) = .ok v)
    (hfunction : ∀ f, projection = .function f → ∃ fields, v = .object fields) :
    ∃ fields, v = .object fields := by
  unfold Projection.compile at hprojection
  split at hprojection
  · exact hfunction _ rfl
  · obtain rfl := Except.ok.inj hprojection
    exact ⟨d, (Except.ok.inj hmade).symm⟩
  · obtain ⟨entries, -, hprojection⟩ := ok_of_bind hprojection
    obtain ⟨p, -, hp⟩ := ok_of_bind hprojection
    obtain rfl := Except.ok.inj hp
    cases p with
    | identity => exact ⟨d, (Except.ok.inj hmade).symm⟩
    | keep fields =>
      obtain ⟨kept, -, hkept⟩ := ok_of_bind hmade
      exact ⟨kept, (Except.ok.inj hkept).symm⟩
    | drop fields => exact ⟨_, (Except.ok.inj hmade).symm⟩
  · cases hprojection

end First

/-! ## The whole query -/

/-- What a whole query makes of the items in a store: it keeps what is accepted, projects it, and
then does one thing after another to the list. -/
def meaning (accepts : Predicate) (transform : Transform) (stages : List Stage)
    (items : List Item) : List Item :=
  stages.foldl (fun items stage => stage.onList items) (firstItems accepts transform items)

theorem mem_of_mem_onList {stage : Stage} (hkeeps : stage.keepsDocuments = true)
    {items : List Item} {x : Item} (hx : x ∈ stage.onList items) : x ∈ items := by
  cases stage with
  | condition accepts | projection transform => cases hkeeps
  | sort compare => exact List.mem_mergeSort.mp hx
  | offset count => exact List.mem_of_mem_drop hx
  | limit count => exact List.mem_of_mem_take hx

theorem mem_of_mem_foldl {x : Item} : ∀ (stages : List Stage) {items : List Item},
    (∀ stage ∈ stages, stage.keepsDocuments = true) →
    x ∈ stages.foldl (fun items stage => stage.onList items) items → x ∈ items
  | [], _, _, hx => hx
  | _ :: stages, _, hkeeps, hx => by
    obtain ⟨hstage, hkeeps⟩ := List.forall_mem_cons.mp hkeeps
    exact mem_of_mem_onList hstage (mem_of_mem_foldl stages hkeeps hx)

/-- Over a store that stays as it is, a new query that is built further gives its list-level meaning
in every way of taking results: all at once, handed over one by one, asked for one by one, and
iterated over. Asking beyond the end gives null. -/
theorem results_agree {s : Store σ} {I : σ → Prop} {log : σ → List Value} {ids : List Text}
    {doc : Text → Document} {callback : Value → Action σ Unit} (hs : Steady s I log ids doc)
    (hcallback : Notes callback I log) {condition : Given Predicate}
    {projection : Given Transform} {accepts : Predicate} {transform : Transform}
    (hcondition : Condition.compile condition = .ok accepts)
    (hprojection : Projection.compile projection = .ok transform)
    (idField : Option Text) {clauses : List Clause} {stages : List Stage}
    (hclauses : clauses.mapM Clause.stage = .ok stages)
    (haccepts : ∀ x ∈ storedItems idField ids doc, ∃ b, accepts x.document = .ok b)
    (htransform : ∀ x ∈ storedItems idField ids doc, accepted accepts x.document = true →
      ∃ d, transform x.document = .ok d)
    (hfunction : ∀ f, projection = .function f → ∀ x ∈ storedItems idField ids doc, ∀ d,
      f x.document = .ok d → ∃ fields, d = .object fields)
    (horder : ∀ before compare after, stages = before ++ .sort compare :: after →
      Comparator.IsPreorder compare fun d =>
        ∃ x ∈ meaning accepts transform before (storedItems idField ids doc), x.document = d)
    {w : σ} (hw : I w) :
    ∃ c docs, extend (make s condition projection idField) clauses = .ok c ∧
      docs = (meaning accepts transform stages (storedItems idField ids doc)).map Item.document ∧
      (∃ c' w', toList (c, w) = (.ok docs, c', w')) ∧
      (∃ c' w', each callback (c, w) = (.ok (), c', w') ∧ log w' = log w ++ docs) ∧
      (∀ k, ∃ c' w', nextTimes (docs.length + k) (c, w) =
        (.ok (docs ++ List.replicate k .null), c', w')) ∧
      ∃ c' w', iterate (c, w) = (.ok docs, c', w') := by
  let items := storedItems idField ids doc
  let chain := stages.reverse ++ firstStages condition projection accepts transform
  obtain ⟨hextend, hkeeps⟩ : extend (start s idField _) clauses = .ok (start s idField chain) ∧ _ :=
    extend_start (firstStages condition projection accepts transform) hclauses
  have hanswer : ∀ before : List Stage,
      answer (before.reverse ++ firstStages condition projection accepts transform) items =
        meaning accepts transform before items := fun before => by
    rw [answer_reverse_append, answer_firstStages hcondition hprojection, meaning]
  have hfirst : Fits idField ids doc never
      (firstStages condition projection accepts transform) := by
    refine fits_firstStages hcondition (fun x hx e he => ?_) fun x hx ha e he => ?_
    · obtain ⟨b, hb⟩ := haccepts x hx
      cases hb.symm.trans he
    · obtain ⟨d, hd⟩ := htransform x hx ha
      cases hd.symm.trans he
  have hfits : Fits idField ids doc never chain := by
    refine fits_reverse_append stages hfirst hkeeps fun before compare after hsplit => ?_
    rw [hanswer before]
    exact horder before compare after hsplit
  have hready : Ready (start s idField chain) I log ids doc (log w) w :=
    ⟨hs, hfits, rfl, rfl, sound_rewound (o := .still I log (log w)) ⟨hw, rfl⟩ chain⟩
  have hgive : (start s idField chain).toGive ids doc =
      (meaning accepts transform stages items).map Item.document := by
    rw [toGive, start, toCome_rewound, hanswer stages]
  have hnull : ∀ d ∈ (meaning accepts transform stages items).map Item.document, d ≠ .null := by
    intro d hd
    obtain ⟨x, hx, rfl⟩ := List.mem_map.mp hd
    obtain ⟨y, hy, rfl⟩ := List.mem_map.mp (mem_of_mem_foldl stages hkeeps hx)
    obtain ⟨hy, ha⟩ := List.mem_filter.mp hy
    obtain ⟨v, hv⟩ := htransform y hy ha
    obtain ⟨fields, rfl⟩ : ∃ fields, v = .object fields := by
      obtain ⟨id, -, rfl⟩ := List.mem_map.mp hy
      refine made_object hprojection hv fun f hf => ?_
      rw [hf] at hprojection
      exact hfunction f hf _ hy v (Except.ok.inj hprojection ▸ hv)
    simp [Item.projected, made, hv, Except.toOption]
  refine ⟨start s idField chain, _, ?_, rfl, ?_⟩
  · rw [make_eq_start hcondition hprojection]
    exact hextend
  rw [← hgive] at hnull ⊢
  refine ⟨toList_eq hready, each_eq hcallback hready, fun k => ?_, iterate_eq hready hnull⟩
  obtain ⟨c', w', hnext⟩ := nextTimes_eq
    (((start s idField chain).toGive ids doc).length + k) hready
  refine ⟨c', w', hnext.trans ?_⟩
  rw [List.take_append, List.take_of_length_le (by omega), List.take_replicate]
  congr 4
  omega

/-! ## A query over a small memory -/

/-- A memory with a list of what was noted. -/
def notebook : Store (Memory × List Value) :=
  Memory.store.focus Prod.fst fun m w => (m, w.2)

/-- A callback that adds to the notes. -/
def note (d : Value) : Action (Memory × List Value) Unit := fun w => (.ok (), w.1, w.2 ++ [d])

/-- A memory in which each identifier of a list has a readable document stays as it is. -/
theorem steady_notebook {m : Memory} {doc : Text → Document}
    (h : ∀ id ∈ m.map Prod.fst, Memory.store.read id m = (.ok (doc id), m)) :
    Steady notebook (fun w => w.1 = m) Prod.snd (m.map Prod.fst) doc where
  index w hw := ⟨w, by rw [← hw]; rfl, hw, rfl⟩
  read id hid w hw := by
    refine ⟨w, ?_, hw, rfl⟩
    change ((Memory.store.read id w.1).1, (Memory.store.read id w.1).2, w.2) = _
    rw [hw, h id hid, ← hw]

theorem notes_note (m : Memory) : Notes note (fun w => w.1 = m) Prod.snd :=
  fun d w hw => ⟨(w.1, w.2 ++ [d]), rfl, hw, rfl⟩

/-- Two documents that are on, and one that is off. -/
def lamps : Memory :=
  [("a".toText, "\x7b\"n\": 1, \"on\": true\x7d".toText),
    ("b".toText, "\x7b\"n\": 5, \"on\": false\x7d".toText),
    ("c".toText, "\x7b\"n\": 2, \"on\": true\x7d".toText)]

def lamp (id : Text) : Document :=
  let state (n : Int) (on : Bool) : Document :=
    [(.text "n".toText, .int n), (.text "on".toText, .bool on)]
  if id = "a".toText then state 1 true
  else if id = "b".toText then state 5 false
  else state 2 true

theorem read_lamp : ∀ id ∈ lamps.map Prod.fst,
    Memory.store.read id lamps = (.ok (lamp id), lamps) := by
  intro id hid
  obtain rfl | rfl | rfl : id = "a".toText ∨ id = "b".toText ∨ id = "c".toText := by
    simpa [lamps] using hid
  all_goals cbv

/-- A query for the lamps that are on. -/
def isOn : Given Predicate := .value (.object [(.text "on".toText, .bool true)])

/-- Only their identifiers and numbers. -/
def idAndNumber : Given Transform :=
  .value (.object [(.text "id".toText, .int 1), (.text "n".toText, .int 1)])

/-- From the second largest number on. -/
def fromSecond : List Clause :=
  [.sort (.value (.object [(.text "n".toText, .int (-1))])), .offset (.int 1), .limit (.int 3)]

theorem results_agree_lamps :
    ∃ c, extend (make notebook isOn idAndNumber (some "id".toText)) fromSecond = .ok c ∧
      (∃ c' w', iterate (c, lamps, []) = (.ok [.object
        [(.text "id".toText, .text "a".toText), (.text "n".toText, .int 1)]], c', w')) ∧
      ∃ c' m, each note (c, lamps, []) = (.ok (), c', m, [.object
        [(.text "id".toText, .text "a".toText), (.text "n".toText, .int 1)]]) := by
  let byNumber : Comparator := SortOrder.compareBy [⟨"n".toText, true⟩]
  let accepts : Predicate := Condition.meets [(.text "on".toText, .bool true)]
  let transform : Transform := Projection.apply (.keep [("id".toText, .same), ("n".toText, .same)])
  let stored : List Item := storedItems (some "id".toText) (lamps.map Prod.fst) lamp
  have hcondition : Condition.compile isOn = .ok accepts := rfl
  have hprojection : Projection.compile idAndNumber = .ok transform := rfl
  have hclauses : fromSecond.mapM Clause.stage = .ok [.sort byNumber, .offset 1, .limit 3] := rfl
  have haccepts : ∀ x ∈ stored, (accepts x.document).toOption.isSome := by decide
  have htransform : ∀ x ∈ stored, (transform x.document).toOption.isSome := by decide
  have hitems : meaning accepts transform [] stored =
      [⟨"a".toText, .object [(.text "id".toText, .text "a".toText), (.text "n".toText, .int 1)]⟩,
        ⟨"c".toText, .object [(.text "id".toText, .text "c".toText), (.text "n".toText, .int 2)]⟩] :=
    rfl
  have hlast : Item.sorted byNumber (meaning accepts transform [] stored) =
      (meaning accepts transform [] stored).reverse := by
    rw [hitems]
    cbv
  have horder : Comparator.IsPreorder byNumber
      fun d => ∃ x ∈ meaning accepts transform [] stored, x.document = d := by
    rw [hitems]
    exact Comparator.isPreorder_documents (by decide) (by decide) (by decide)
  have hsort : ∀ before compare after,
      [.sort byNumber, .offset 1, .limit 3] = before ++ Stage.sort compare :: after →
      Comparator.IsPreorder compare
        fun d => ∃ x ∈ meaning accepts transform before stored, x.document = d := by
    intro before compare after hsplit
    cases before with
    | nil =>
      obtain rfl : byNumber = compare := Stage.sort.inj (List.cons.inj hsplit).1
      exact horder
    | cons stage before =>
      have hmem : Stage.sort compare ∈ [Stage.offset 1, Stage.limit 3] := by
        rw [(List.cons.inj hsplit).2]
        exact List.mem_append_right before List.mem_cons_self
      simp at hmem
  have hmeaning : (meaning accepts transform [.sort byNumber, .offset 1, .limit 3] stored).map
      Item.document = [.object [(.text "id".toText, .text "a".toText), (.text "n".toText, .int 1)]] := by
    change (((Item.sorted byNumber (meaning accepts transform [] stored)).drop 1).take 3).map _ = _
    rw [hlast, hitems]
    rfl
  obtain ⟨c, docs, hc, hdocs, -, ⟨c₁, ⟨m, noted⟩, heach, hnoted⟩, -, c₂, w₂, hiterate⟩ :=
    results_agree (steady_notebook read_lamp) (notes_note lamps) hcondition hprojection
      (some "id".toText) hclauses (fun x hx => ok_of_isSome (haccepts x hx))
      (fun x hx _ => ok_of_isSome (htransform x hx)) (fun f hf => by cases hf) hsort
      (show (lamps, []).1 = lamps from rfl)
  obtain rfl := hdocs.trans hmeaning
  obtain rfl : noted = [_] := hnoted
  exact ⟨c, hc, ⟨c₂, w₂, hiterate⟩, c₁, m, heach⟩

end Cursor

end Cabinet
