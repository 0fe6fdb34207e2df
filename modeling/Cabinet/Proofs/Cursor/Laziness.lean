import Cabinet.Collection
import Cabinet.Proofs.Cursor.Feed
import Cabinet.Proofs.Cursor.Rewinding

/-!
# No document is read too many

Limits and offsets on top of a query decide how many of its documents are asked for. Only as many
documents are read as are needed to find these.

* `Feed.upTo` : the calls that pulls make until so many items were asked for; `Feed.upTo_limit` and
  `Feed.upTo_offset` say how many are asked for below a limit and an offset;
* `Stage.demand` : the same of a stage, as numbers;
* `Shortest`, `firstHolding` : the shortest start of a list in which so many elements are accepted;
* `Store.recording`, `callsFor` : a store with a record of its calls, and the calls that read documents;
* `Store.ReadableOn` : documents that can be read, on which a condition and a projection do not fail;
* `reads_shortest` : taking all results of a query with limits and offsets, or its first document, reads
  the shortest start of the index that holds as many matches as are asked for.
-/

namespace Cabinet

variable {σ : Type}

/-! ## Asking for some items only -/

namespace Feed

/-- The calls that are made until so many items were asked for, or none came. -/
noncomputable def upTo : ℕ∞ → Feed → List Call
  | n, ends calls => if n = 0 then [] else calls
  | n, gives calls _ rest => if n = 0 then [] else calls ++ rest.upTo (n - 1)

theorem eq_zero_or_succ (n : ℕ∞) : n = 0 ∨ ∃ m, n = m + 1 := by
  by_cases hn : n = 0
  · exact .inl hn
  · exact .inr ⟨n - 1, (tsub_add_cancel_of_le (Order.one_le_iff_ne_zero.mpr hn)).symm⟩

theorem succ_sub_one (n : ℕ∞) : n + 1 - 1 = n :=
  (ENat.addLECancellable_of_ne_top ENat.one_ne_top).add_tsub_cancel_right

@[simp] theorem upTo_zero (f : Feed) : f.upTo 0 = [] := by
  cases f <;> rw [upTo, if_pos rfl]

@[simp] theorem upTo_succ_ends (n : ℕ∞) (calls : List Call) : (ends calls).upTo (n + 1) = calls := by
  rw [upTo, if_neg (by simp)]

@[simp] theorem upTo_succ_gives (n : ℕ∞) (calls : List Call) (x : Item) (rest : Feed) :
    (gives calls x rest).upTo (n + 1) = calls ++ rest.upTo n := by
  rw [upTo, if_neg (by simp), succ_sub_one]

theorem upTo_succ_after (n : ℕ∞) (earlier : List Call) (f : Feed) :
    (f.after earlier).upTo (n + 1) = earlier ++ f.upTo (n + 1) := by
  cases f with
  | ends calls => simp [after]
  | gives calls x rest => simp [after]

theorem upTo_top (f : Feed) : f.upTo ⊤ = f.calls := by
  rw [← top_add (1 : ℕ∞)]
  induction f with
  | ends calls => exact upTo_succ_ends ⊤ calls
  | gives calls x rest ih => rw [upTo_succ_gives, ← top_add (1 : ℕ∞), ih, Feed.calls]

theorem upTo_projection (n : ℕ∞) (transform : Transform) (f : Feed) :
    (f.projection transform).upTo n = f.upTo n := by
  induction f generalizing n with
  | ends calls => rfl
  | gives calls x rest ih => rw [projection, upTo, upTo, ih]

/-- Below a limit no more items are asked for than it lets pass. -/
theorem upTo_limit (n : ℕ∞) (k : Nat) (f : Feed) : (f.limit k).upTo n = f.upTo (min n k) := by
  induction k generalizing n f with
  | zero =>
    rw [Nat.cast_zero, min_zero, upTo_zero, limit, upTo]
    split <;> rfl
  | succ k ih =>
    obtain rfl | ⟨m, rfl⟩ := eq_zero_or_succ n
    · rw [zero_min, upTo_zero, upTo_zero]
    · rw [Nat.cast_succ, min_add_add_right]
      cases f with
      | ends calls => rw [limit, upTo_succ_ends, upTo_succ_ends]
      | gives calls x rest => rw [limit, upTo_succ_gives, upTo_succ_gives, ih]

/-- Below an offset its items are asked for, too, unless nothing is asked for at all. -/
theorem upTo_offset (n : ℕ∞) (k : Nat) (f : Feed) :
    (f.offset k).upTo n = f.upTo (if n = 0 then 0 else n + k) := by
  induction k generalizing f with
  | zero => obtain rfl | ⟨m, rfl⟩ := eq_zero_or_succ n <;> simp [offset]
  | succ k ih =>
    obtain rfl | ⟨m, rfl⟩ := eq_zero_or_succ n
    · simp
    · rw [if_neg (by simp)] at ih ⊢
      rw [Nat.cast_succ, ← add_assoc]
      cases f with
      | ends calls => rw [offset, upTo_succ_ends, upTo_succ_ends]
      | gives calls x rest => rw [offset, upTo_succ_after, ih, upTo_succ_gives]

end Feed

/-- How many items a limit or an offset asks for when so many are asked of it. -/
noncomputable def Stage.demand : Stage → ℕ∞ → ℕ∞
  | .limit count, n => min n count.toNat
  | .offset count, n => if n = 0 then 0 else n + count.toNat
  | .condition _, n | .projection _, n | .sort _, n => n

/-- Limits and offsets on top of a feed ask for items one below another. -/
theorem upTo_feed (f : Feed) (n : ℕ∞) : ∀ (stages : List Stage),
    (∀ stage ∈ stages, stage.keepsDocuments = true) → (∀ compare, Stage.sort compare ∉ stages) →
    (feed stages f).upTo n = f.upTo (stages.foldl (fun n stage => stage.demand n) n)
  | [], _, _ => rfl
  | stage :: stages, hkeeps, hsort => by
    obtain ⟨hstage, hkeeps⟩ := List.forall_mem_cons.mp hkeeps
    have hbelow := fun m => upTo_feed f m stages hkeeps fun compare h =>
      hsort compare (List.mem_cons_of_mem _ h)
    rw [List.foldl_cons, ← hbelow]
    cases stage with
    | condition accepts | projection transform => cases hstage
    | sort compare => exact absurd List.mem_cons_self (hsort compare)
    | offset count => exact Feed.upTo_offset n _ _
    | limit count => exact Feed.upTo_limit n _ _

/-! ## The shortest start -/

section Shortest
variable {accepts : Text → Bool} {n : ℕ∞} {ids start : List Text}

/-- The shortest start of a list in which so many elements are accepted, or all of the list if it has
fewer of them. -/
structure Shortest (accepts : Text → Bool) (n : ℕ∞) (ids start : List Text) : Prop where
  begins : start <+: ids
  enough : n ≤ start.countP accepts ∨ start = ids
  least : ∀ other, other <+: ids → n ≤ other.countP accepts → start <+: other

/-- The elements up to the one that is the last to be accepted. -/
noncomputable def firstHolding (accepts : Text → Bool) : ℕ∞ → List Text → List Text
  | _, [] => []
  | n, id :: ids =>
    if n = 0 then [] else id :: firstHolding accepts (if accepts id then n - 1 else n) ids

theorem firstHolding_zero (accepts : Text → Bool) (ids : List Text) :
    firstHolding accepts 0 ids = [] := by
  cases ids with
  | nil => rfl
  | cons id ids => rw [firstHolding, if_pos rfl]

theorem firstHolding_succ (accepts : Text → Bool) (n : ℕ∞) (id : Text) (ids : List Text) :
    firstHolding accepts (n + 1) (id :: ids) =
      id :: firstHolding accepts (if accepts id then n else n + 1) ids := by
  rw [firstHolding, if_neg (by simp), Feed.succ_sub_one]

theorem shortest_firstHolding (accepts : Text → Bool) (n : ℕ∞) (ids : List Text) :
    Shortest accepts n ids (firstHolding accepts n ids) := by
  induction ids generalizing n with
  | nil => exact ⟨List.nil_prefix, .inr rfl, fun _ _ _ => List.nil_prefix⟩
  | cons id ids ih =>
    obtain rfl | ⟨m, rfl⟩ := Feed.eq_zero_or_succ n
    · rw [firstHolding_zero]
      exact ⟨List.nil_prefix, .inl bot_le, fun _ _ _ => List.nil_prefix⟩
    rw [firstHolding_succ]
    have hleast : ∀ {start : List Text}, (∀ rest, rest <+: ids →
        m + 1 ≤ (List.countP accepts (id :: rest) : ℕ∞) → start <+: rest) →
        ∀ other, other <+: id :: ids → m + 1 ≤ (other.countP accepts : ℕ∞) →
        id :: start <+: other := by
      intro start h other hother hn
      obtain rfl | ⟨rest, rfl, hrest⟩ := List.prefix_cons_iff.mp hother
      · simp at hn
      · exact (List.prefix_cons_inj id).mpr (h rest hrest hn)
    cases hid : accepts id with
    | true =>
      have hcount : ∀ rest, m + 1 ≤ (List.countP accepts (id :: rest) : ℕ∞) ↔
          m ≤ (rest.countP accepts : ℕ∞) := fun rest => by
        rw [List.countP_cons_of_pos hid, Nat.cast_succ, ENat.add_le_add_iff_right ENat.one_ne_top]
      have h := ih m
      rw [if_pos rfl]
      refine ⟨(List.prefix_cons_inj id).mpr h.begins, ?_, hleast fun rest hrest hn =>
        h.least rest hrest ((hcount rest).mp hn)⟩
      exact h.enough.imp (hcount _).mpr (congrArg (id :: ·))
    | false =>
      have hcount : ∀ rest, List.countP accepts (id :: rest) = rest.countP accepts := fun rest =>
        List.countP_cons_of_neg (by simp [hid])
      have h := ih (m + 1)
      rw [if_neg Bool.false_ne_true]
      refine ⟨(List.prefix_cons_inj id).mpr h.begins, ?_, hleast fun rest hrest hn =>
        h.least rest hrest (hcount rest ▸ hn)⟩
      exact h.enough.imp (fun hn => by rwa [hcount]) (congrArg (id :: ·))

theorem Shortest.isPrefix {other : List Text} (h : Shortest accepts n ids start)
    (h' : Shortest accepts n ids other) : start <+: other := by
  rcases h'.enough with hn | rfl
  · exact h.least other h'.begins hn
  · exact h.begins

/-- There is only one. -/
theorem Shortest.eq {other : List Text} (h : Shortest accepts n ids start)
    (h' : Shortest accepts n ids other) : start = other :=
  (h.isPrefix h').eq_of_length_le (h'.isPrefix h).length_le

end Shortest

/-! ## Stores with a record -/

/-- The store with a record of all operations that it is asked for. -/
def Store.recording (s : Store σ) : Store (σ × List Call) :=
  (s.focus Prod.fst fun w x => (w, x.2)).traced
    ⟨fun call x => (x.1, x.2 ++ [call]), fun _ => 0, id⟩ ⟨[], none⟩

/-- Listing the identifiers and reading some of them, if anything at all. -/
noncomputable def callsFor (n : ℕ∞) (ids : List Text) : List Call :=
  if n = 0 then [] else ⟨.index, none⟩ :: ids.map fun id => ⟨.read, some id⟩

theorem mem_of_mem_callsFor {n : ℕ∞} {ids : List Text} {id : Text}
    (h : ⟨.read, some id⟩ ∈ callsFor n ids) : id ∈ ids := by
  rw [callsFor] at h
  split at h
  · exact absurd h List.not_mem_nil
  · obtain h | h := List.mem_cons.mp h
    · cases h
    · obtain ⟨_, hid, heq⟩ := List.mem_map.mp h
      cases heq
      exact hid

/-- A document as a query first sees it. -/
abbrev seen (idField : Option Text) (doc : Text → Document) (id : Text) : Value :=
  .object (Stage.embed idField id (doc id))

section Recording
variable {s : Store σ} {I : σ → Prop} {idField : Option Text} {ids start : List Text}
  {doc : Text → Document} {accepts : Predicate} {transform : Transform}

theorem recording_index (x : σ × List Call) :
    s.recording.index x = ((s.index x.1).1, (s.index x.1).2, x.2 ++ [⟨.index, none⟩]) := rfl

theorem recording_read (id : Text) (x : σ × List Call) : s.recording.read id x =
    ((s.read id x.1).1, (s.read id x.1).2, x.2 ++ [⟨.read, some id⟩]) := rfl

/-- Some documents can be read, and a condition and a projection do not fail on them. -/
structure Store.ReadableOn (s : Store σ) (I : σ → Prop) (idField : Option Text)
    (doc : Text → Document) (accepts : Predicate) (transform : Transform) (ids : List Text) :
    Prop where
  read : ∀ id ∈ ids, ∀ w, I w → ∃ w', s.read id w = (.ok (doc id), w') ∧ I w'
  decides : ∀ id ∈ ids, ∃ b, accepts (seen idField doc id) = .ok b
  projects : ∀ id ∈ ids, accepted accepts (seen idField doc id) = true →
    ∃ d, transform (seen idField doc id) = .ok d

theorem upTo_reads (n : ℕ∞) : ((Feed.reads idField doc ids).condition accepts).upTo n =
    (firstHolding (fun id => accepted accepts (seen idField doc id)) n
      ids).map fun id => ⟨.read, some id⟩ := by
  induction ids generalizing n with
  | nil =>
    rw [Feed.reads, Feed.condition, Feed.upTo]
    exact ite_self _
  | cons id ids ih =>
    obtain rfl | ⟨m, rfl⟩ := Feed.eq_zero_or_succ n
    · rw [Feed.upTo_zero, firstHolding_zero]
      rfl
    rw [Feed.reads, Feed.condition, firstHolding_succ]
    cases ha : accepted accepts (seen idField doc id) with
    | true =>
      simp only [if_true]
      rw [Feed.upTo_succ_gives, ih]
      rfl
    | false =>
      simp only [Bool.false_eq_true, if_false]
      rw [Feed.upTo_succ_after, ih]
      rfl

/-- A condition that is asked for some items makes the calls that read the shortest start. -/
theorem upTo_condition (n : ℕ∞) : ((Feed.source idField ids doc).condition accepts).upTo n =
    callsFor n (firstHolding
      (fun id => accepted accepts (seen idField doc id)) n ids) := by
  rw [Feed.source, Feed.condition_after, callsFor]
  obtain rfl | ⟨m, rfl⟩ := Feed.eq_zero_or_succ n
  · rw [Feed.upTo_zero, if_pos rfl]
  · rw [Feed.upTo_succ_after, upTo_reads, if_neg (by simp)]
    rfl

/-- As far as its documents can be read, the store does the calls that it records. -/
theorem lists_recording (hindex : ∀ w, I w → ∃ w', s.index w = (.ok ids, w') ∧ I w')
    (h : s.ReadableOn I idField doc accepts transform start) (log : List Call) :
    s.recording.Lists (fun call => ∀ id, call = ⟨.read, some id⟩ → id ∈ start)
      (fun past x => I x.1 ∧ x.2 = log ++ past) ids doc where
  index past x hx := by
    obtain ⟨w', hrun, hw'⟩ := hindex x.1 hx.1
    rw [recording_index, hrun]
    exact ⟨_, rfl, hw', by rw [hx.2, List.append_assoc]⟩
  read id _ hfine past x hx := by
    obtain ⟨w', hrun, hw'⟩ := h.read id (hfine id rfl) x.1 hx.1
    rw [recording_read, hrun]
    exact ⟨_, rfl, hw', by rw [hx.2, List.append_assoc]⟩

end Recording

namespace Cursor

section Query
variable {s : Store σ} {I : σ → Prop} {ids : List Text} {doc : Text → Document}
  {condition : Given Predicate} {projection : Given Transform} {accepts : Predicate}
  {transform : Transform} {idField : Option Text}

/-- Draining a query with limits and offsets, as far as its calls can be made. -/
theorem drain_shortest (hindex : ∀ w, I w → ∃ w', s.index w = (.ok ids, w') ∧ I w')
    (hcondition : Condition.compile condition = .ok accepts)
    (hprojection : Projection.compile projection = .ok transform) {stages : List Stage}
    (hkeeps : ∀ stage ∈ stages, stage.keepsDocuments = true)
    (hsort : ∀ compare, Stage.sort compare ∉ stages) {start : List Text}
    (hstart : Shortest (fun id => accepted accepts (seen idField doc id))
      (stages.foldr Stage.demand ⊤) ids start)
    (hread : s.ReadableOn I idField doc accepts transform start) {w : σ} (hw : I w)
    (log : List Cabinet.Call) :
    let chain := stages.reverse ++ firstStages condition projection accepts transform
    ∃ p w', drain s.recording idField chain (Progress.rewound chain) (w, log) =
        (.ok (meaning accepts transform stages (storedItems idField ids doc)), p, w',
          log ++ callsFor (stages.foldr Stage.demand ⊤) start) ∧ I w' := by
  intro chain
  let source := Feed.source idField ids doc
  let fine : Cabinet.Call → Prop := fun call => ∀ id, call = ⟨.read, some id⟩ → id ∈ start
  let reached : List Cabinet.Call → σ × List Cabinet.Call → Prop :=
    fun past x => I x.1 ∧ x.2 = log ++ past
  have hreverse : ∀ stage ∈ stages.reverse, stage.keepsDocuments = true := fun stage h =>
    hkeeps stage (List.mem_reverse.mp h)
  have hsort' : ∀ compare, Stage.sort compare ∉ stages.reverse := fun compare h =>
    hsort compare (List.mem_reverse.mp h)
  have hdefined : Defined fine chain source :=
    defined_append (defined_firstStages hcondition (fun id _ h => hread.decides id (h id rfl))
      fun id _ h => hread.projects id (h id rfl)) stages.reverse hreverse
      fun compare h => absurd h (hsort' compare)
  have hcalls : (feed chain source).calls = callsFor (stages.foldr Stage.demand ⊤) start := by
    rw [feed_append, ← Feed.upTo_top, upTo_feed _ _ _ hreverse hsort', List.foldl_reverse,
      feed_firstStages hcondition hprojection, Feed.upTo_projection, upTo_condition,
      ← hstart.eq (shortest_firstHolding _ _ _)]
  have hitems : (feed chain source).items =
      meaning accepts transform stages (storedItems idField ids doc) := by
    rw [feed_append, items_feed _ hsort', items_firstStages hcondition hprojection,
      Feed.items_source, ← List.append_nil stages.reverse, answer_reverse_append]
    rfl
  have hfine : ∀ call ∈ (feed chain source).calls, fine call := by
    rw [hcalls]
    rintro call h id rfl
    exact mem_of_mem_callsFor h
  have hlists : s.recording.Lists fine reached ids doc := lists_recording hindex hread log
  have hbegun : reached [] (w, log) := ⟨hw, (List.append_nil log).symm⟩
  obtain ⟨p, ⟨w', log'⟩, hdrain, hw', hlog⟩ := drain_follows hlists hdefined hbegun hfine
  simp only at hlog
  rw [List.nil_append, hcalls] at hlog
  refine ⟨p, w', ?_, hw'⟩
  rw [hdrain, hitems, hlog]

/-- Taking all results of a cursor that was only built does what draining its chain does. -/
theorem toList_drained {chain : List Stage} {xs : List Item} {p : Progress chain} {w w' : σ}
    (h : drain s idField chain (Progress.rewound chain) w = (.ok xs, p, w')) :
    ∃ c', toList (start s idField chain, w) = (.ok (xs.map Item.document), c', w') :=
  (toList_iff rfl rfl).mpr ⟨xs, p, h, rfl⟩

/-- The first of the documents that meet a condition, if there is one. -/
def firstOf (condition : Given Predicate) : List Value → Except Failure Value
  | d :: _ => .ok d
  | [] => .error (.noMatch (Collection.conditionShown condition))

variable (doc) in
/-- A query with limits and offsets, over a store that lists its identifiers, makes no calls if nothing
is asked for. Otherwise it lists them once and reads, one after another, the shortest start of them in
which there are as many matches as are asked for, or all of them. So what cannot be read behind that
start, or what a condition or a projection fails on there, makes no difference to its results. The same
is true of asking for the first document, which asks for one match. -/
theorem reads_shortest (hindex : ∀ w, I w → ∃ w', s.index w = (.ok ids, w') ∧ I w')
    (hcondition : Condition.compile condition = .ok accepts)
    (hprojection : Projection.compile projection = .ok transform) :
    (∀ (idField : Option Text) (clauses : List Clause) (stages : List Stage),
      clauses.mapM Clause.stage = .ok stages → (∀ compare, Stage.sort compare ∉ stages) →
      ∃ c start, extend (make s.recording condition projection idField) clauses = .ok c ∧
        Shortest (fun id => accepted accepts (seen idField doc id))
          (stages.foldr Stage.demand ⊤) ids start ∧
        (s.ReadableOn I idField doc accepts transform start → ∀ w log, I w →
          ∃ c' w', toList (c, w, log) = (.ok ((meaning accepts transform stages
            (storedItems idField ids doc)).map Item.document), c', w',
              log ++ callsFor (stages.foldr Stage.demand ⊤) start) ∧ I w')) ∧
    ∃ start, Shortest (fun id => accepted accepts (seen none doc id)) 1 ids start ∧
      (s.ReadableOn I none doc accepts transform start → ∀ name freshId w log, I w →
        ∃ w', Collection.findOne ⟨s.recording, name, freshId⟩ condition projection (w, log) =
          (firstOf condition ((meaning accepts transform [.limit 1]
            (storedItems none ids doc)).map Item.document), w', log ++ callsFor 1 start) ∧ I w') := by
  constructor
  · intro idField clauses stages hclauses hsort
    obtain ⟨hextend, hkeeps⟩ := extend_start
      (firstStages condition projection accepts transform) hclauses
    rw [make_eq_start hcondition hprojection]
    refine ⟨_, _, hextend, shortest_firstHolding _ _ ids, fun hread w log hw => ?_⟩
    obtain ⟨p, w', hdrain, hw'⟩ := drain_shortest hindex hcondition hprojection hkeeps hsort
      (shortest_firstHolding _ _ ids) hread hw log
    obtain ⟨c', hlist⟩ := toList_drained hdrain
    exact ⟨c', w', hlist, hw'⟩
  · have hdemand : [Stage.limit 1].foldr Stage.demand ⊤ = 1 := by simp [Stage.demand]
    have hkeeps : ∀ stage ∈ [Stage.limit 1], stage.keepsDocuments = true := by simp [Stage.keepsDocuments]
    have hsort : ∀ compare, Stage.sort compare ∉ [Stage.limit 1] := by simp
    refine ⟨_, shortest_firstHolding _ 1 ids, fun hread name freshId w log hw => ?_⟩
    obtain ⟨p, w', hdrain, hw'⟩ := drain_shortest hindex hcondition hprojection hkeeps hsort
      (hdemand ▸ shortest_firstHolding _ 1 ids) hread hw log
    obtain ⟨c', hlist⟩ := toList_drained hdrain
    refine ⟨w', ?_, hw'⟩
    have hquery : Collection.find ⟨s.recording, name, freshId⟩ condition projection none =
        start s.recording none (firstStages condition projection accepts transform) :=
      make_eq_start hcondition hprojection
    rw [Collection.findOne, Action.bind_apply, Collection.runQuery, hquery]
    have hlist : toList ((start s.recording none (firstStages condition projection accepts
      transform)).addLimit 1, w, log) = _ := hlist
    rw [hlist, hdemand]
    cases (meaning accepts transform [.limit 1] (storedItems none ids doc)).map Item.document <;> rfl

end Query

/-! ## Lamps of which one is broken -/

/-- The document behind the lamps is no JSON text. -/
def brokenLamps : Memory := lamps ++ [("d".toText, "\x7b".toText)]

theorem read_brokenLamps {id : Text} (hid : id ∈ ["a".toText, "b".toText, "c".toText]) :
    Memory.store.read id brokenLamps = (.ok (lamp id), brokenLamps) := by
  simp only [List.mem_cons, List.not_mem_nil, or_false] at hid
  obtain rfl | rfl | rfl := hid
  all_goals cbv

/-- The second lamp that is on is found by reading three documents, the first one by reading one. -/
theorem reads_shortest_lamps :
    ∃ c, extend (make Memory.store.recording isOn .nothing none) [.offset (.int 1), .limit (.int 1)] =
        .ok c ∧
      (∃ c', toList (c, brokenLamps, []) = (.ok [.object (lamp "c".toText)], c', brokenLamps,
        [⟨.index, none⟩, ⟨.read, some "a".toText⟩, ⟨.read, some "b".toText⟩,
          ⟨.read, some "c".toText⟩])) ∧
      Collection.findOne ⟨Memory.store.recording, "id".toText, pure []⟩ isOn .nothing
          (brokenLamps, []) =
        (.ok (.object (lamp "a".toText)), brokenLamps,
          [⟨.index, none⟩, ⟨.read, some "a".toText⟩]) ∧
      ∃ e, (Memory.store.read "d".toText brokenLamps).1 = .error e := by
  let on : Predicate := Condition.meets [(.text "on".toText, .bool true)]
  let isOn? (id : Text) : Bool := accepted on (.object (lamp id))
  let ids : List Text := brokenLamps.map Prod.fst
  have hdecides : ∀ id ∈ ["a".toText, "b".toText, "c".toText],
      (on (.object (lamp id))).toOption.isSome := by decide
  have hread : ∀ ids ⊆ ["a".toText, "b".toText, "c".toText],
      Memory.store.ReadableOn (fun m => m = brokenLamps) none lamp on Projection.identity.apply
        ids := fun ids hids =>
    { read := fun id hid m hm => ⟨brokenLamps, hm ▸ read_brokenLamps (hids hid), rfl⟩
      decides := fun id hid => ok_of_isSome (hdecides id (hids hid))
      projects := fun id _ _ => ⟨.object (lamp id), rfl⟩ }
  have hindex : ∀ m, m = brokenLamps →
      ∃ m', Memory.store.index m = (.ok ids, m') ∧ m' = brokenLamps :=
    fun m hm => ⟨brokenLamps, by rw [hm]; rfl, rfl⟩
  obtain ⟨hlist, start, hstart, hone⟩ := reads_shortest lamp hindex
    (rfl : Condition.compile isOn = .ok on)
    (rfl : Projection.compile .nothing = .ok Projection.identity.apply)
  obtain ⟨c, start', hc, hstart', hmany⟩ :=
    hlist none [.offset (.int 1), .limit (.int 1)] [.offset 1, .limit 1] rfl (by simp)
  have ha : isOn? "a".toText = true := by decide
  have hb : isOn? "b".toText = false := by decide
  have hc' : isOn? "c".toText = true := by decide
  have hone' : (1 : ℕ∞) = 0 + 1 := (zero_add 1).symm
  have htwo : [Stage.offset 1, .limit 1].foldr Stage.demand ⊤ = 0 + 1 + 1 := by
    simp [Stage.demand]
  have hids : ids = ["a".toText, "b".toText, "c".toText, "d".toText] := rfl
  have hfirst : firstHolding isOn? 1 ids = ["a".toText] := by
    rw [hone', hids, firstHolding_succ, if_pos ha, firstHolding_zero]
  have hsecond : firstHolding isOn? (0 + 1 + 1) ids = ["a".toText, "b".toText, "c".toText] := by
    rw [hids, firstHolding_succ, if_pos ha, firstHolding_succ, if_neg (by simp [hb]),
      firstHolding_succ, if_pos hc', firstHolding_zero]
  obtain rfl := (hstart.eq (shortest_firstHolding _ _ _)).trans hfirst
  rw [htwo] at hstart' hmany
  obtain rfl := (hstart'.eq (shortest_firstHolding _ _ _)).trans hsecond
  obtain ⟨c', _, hthird, rfl⟩ := hmany (hread _ fun _ h => h) brokenLamps [] rfl
  obtain ⟨_, hfound, rfl⟩ := hone (hread _ (by simp)) "id".toText (pure []) brokenLamps [] rfl
  refine ⟨c, hc, ⟨c', hthird.trans ?_⟩, hfound.trans ?_, ?_⟩
  · rw [callsFor, if_neg (by simp)]
    rfl
  · rw [callsFor, if_neg (by simp)]
    rfl
  · exact ⟨_, by cbv⟩

end Cursor

end Cabinet
