import Cabinet.Proofs.Cursor.Upheld
import Cabinet.Proofs.Store.Blind

/-!
# Cursors that see no document

A cursor over a store that lets no document be read gives the same for any two states that the store
does not tell apart.

* `RunAlike` : two runs of a chain that give the same, with the same progress, in related states;
* `search_alike`, `project_alike`, `collect_alike`, `sortAll_alike`, `offsetBy_alike`, `limitTo_alike` :
  each stage runs alike if what is below it does, and so `pull_alike` and `drain_alike` say of chains;
* `Cursor.Barren`, `Cursor.Facing` : a cursor over a store that keeps no items, beside two related states;
  `ensures_pullItem` and `ensures_drainItems` say that it gets none;
* `blind_next` .. `blind_count` : so no call of the cursor sees a difference, `blind_request`.
-/

namespace Cabinet

variable {S σ α β : Type} {R : σ → σ → Prop}

open Cabinet.Action

/-! ## Two runs of a chain -/

/-- Two runs that give the same, with the same progress, in related states. -/
inductive RunAlike (R : σ → σ → Prop) : α × S × σ → α × S × σ → Prop where
  | mk (x : α) (p : S) {w v : σ} (h : R w v) : RunAlike R (x, p, w) (x, p, v)

namespace Stage

section Stages
variable {up : Pull S σ}

theorem search_alike (hup : ∀ p w v, R w v → RunAlike R (up p w) (up p v)) (accepts : Predicate)
    (fuel : Nat) (p : S) {w v : σ} (h : R w v) :
    RunAlike R (search up accepts fuel p w) (search up accepts fuel p v) := by
  induction fuel generalizing p w v with
  | zero => exact .mk _ p h
  | succ fuel ih =>
    have hpull := hup p w v h
    rw [search, search]
    generalize up p w = r, up p v = r' at hpull
    cases hpull with
    | mk x q h' =>
      rcases x with _ | _ | item
      · exact .mk _ q h'
      · exact .mk _ q h'
      · cases hitem : accepts item.document with
        | error e =>
          simp only [hitem]
          exact .mk _ q h'
        | ok b =>
          simp only [hitem]
          cases b with
          | true => exact .mk _ q h'
          | false => exact ih q h'

theorem project_alike (hup : ∀ p w v, R w v → RunAlike R (up p w) (up p v)) (transform : Transform)
    (p : S) {w v : σ} (h : R w v) :
    RunAlike R (project up transform p w) (project up transform p v) := by
  have hpull := hup p w v h
  rw [project, project]
  generalize up p w = r, up p v = r' at hpull
  cases hpull with
  | mk x q h' =>
    rcases x with _ | _ | item
    · exact .mk _ q h'
    · exact .mk _ q h'
    · cases hitem : transform item.document with
      | error e =>
        simp only [hitem]
        exact .mk _ q h'
      | ok d =>
        simp only [hitem]
        exact .mk _ q h'

theorem collect_alike (hup : ∀ p w v, R w v → RunAlike R (up p w) (up p v)) (fuel : Nat) (p : S)
    {w v : σ} (h : R w v) : RunAlike R (collect up fuel p w) (collect up fuel p v) := by
  induction fuel generalizing p w v with
  | zero => exact .mk _ p h
  | succ fuel ih =>
    have hpull := hup p w v h
    rw [collect, collect]
    generalize up p w = r, up p v = r' at hpull
    cases hpull with
    | mk x q h' =>
      rcases x with _ | _ | item
      · exact .mk _ q h'
      · exact .mk _ q h'
      · have hrest := ih q h'
        simp only
        generalize collect up fuel q _ = r at hrest
        generalize collect up fuel q _ = r' at hrest
        cases hrest with
        | mk x p h'' => cases x <;> exact .mk _ p h''

theorem serve_alike (p : S) {w v : σ} (h : R w v) (items : List Item) :
    RunAlike R (serve p w items) (serve p v items) := by
  cases items <;> exact .mk _ _ h

theorem sortAll_alike (hup : ∀ p w v, R w v → RunAlike R (up p w) (up p v)) {remaining : S → σ → Nat}
    (hremaining : ∀ p w v, R w v → remaining p w = remaining p v) (compare : Comparator)
    (q : Option (List Item) × S) {w v : σ} (h : R w v) :
    RunAlike R (sortAll up remaining compare q w) (sortAll up remaining compare q v) := by
  obtain ⟨stock, p⟩ := q
  cases stock with
  | some items => exact serve_alike p h items
  | none =>
    have hcollect := collect_alike hup (remaining p w + 1) p h
    rw [sortAll, sortAll, ← hremaining p w v h]
    generalize collect up (remaining p w + 1) p w = r at hcollect
    generalize collect up (remaining p w + 1) p v = r' at hcollect
    cases hcollect with
    | mk x q h' =>
      cases x with
      | error e => exact .mk _ _ h'
      | ok items =>
        cases hsort : SortOrder.sort Item.document compare items with
        | error e =>
          simp only [hsort]
          exact .mk _ _ h'
        | ok sorted =>
          simp only [hsort]
          exact serve_alike q h' sorted

theorem skip_alike (hup : ∀ p w v, R w v → RunAlike R (up p w) (up p v)) (count : Nat) (p : S)
    {w v : σ} (h : R w v) : RunAlike R (skip up count p w) (skip up count p v) := by
  induction count generalizing p w v with
  | zero => exact .mk _ p h
  | succ count ih =>
    have hpull := hup p w v h
    rw [skip, skip]
    generalize up p w = r, up p v = r' at hpull
    cases hpull with
    | mk x q h' =>
      rcases x with _ | _ | item
      · exact .mk _ q h'
      · exact .mk _ q h'
      · exact ih q h'

theorem offsetBy_alike (hup : ∀ p w v, R w v → RunAlike R (up p w) (up p v)) (count : Int)
    (q : Bool × S) {w v : σ} (h : R w v) :
    RunAlike R (offsetBy up count q w) (offsetBy up count q v) := by
  have hpass : ∀ (p : S) {w v : σ}, R w v →
      RunAlike R ((up p w).1, (true, (up p w).2.1), (up p w).2.2)
        ((up p v).1, (true, (up p v).2.1), (up p v).2.2) := by
    intro p w v h
    have hpull := hup p w v h
    generalize up p w = r, up p v = r' at hpull
    cases hpull with
    | mk x q h' => exact .mk _ _ h'
  obtain ⟨ready, p⟩ := q
  cases ready with
  | true => exact hpass p h
  | false =>
    have hskip := skip_alike hup count.toNat p h
    simp only [offsetBy, Bool.false_eq_true, if_false]
    generalize skip up count.toNat p w = r at hskip
    generalize skip up count.toNat p v = r' at hskip
    cases hskip with
    | mk x q h' =>
      rcases x with _ | _ | _
      · exact .mk _ _ h'
      · exact .mk _ _ h'
      · exact hpass q h'

theorem limitTo_alike (hup : ∀ p w v, R w v → RunAlike R (up p w) (up p v)) (q : Int × S) {w v : σ}
    (h : R w v) : RunAlike R (limitTo up q w) (limitTo up q v) := by
  obtain ⟨rest, p⟩ := q
  rw [limitTo, limitTo]
  by_cases hrest : rest ≤ 0
  · rw [if_pos hrest, if_pos hrest]
    exact .mk _ _ h
  · rw [if_neg hrest, if_neg hrest]
    have hpull := hup p w v h
    generalize up p w = r, up p v = r' at hpull
    cases hpull with
    | mk x q h' => exact .mk _ _ h'

end Stages

section Source
variable {s : Store σ}

theorem readNext_alike (hs : s.Hides R) (idField : Option Text) (ids : List Text) {w v : σ}
    (h : R w v) : RunAlike R (readNext s idField ids w) (readNext s idField ids v) := by
  cases ids with
  | nil => exact .mk _ _ h
  | cons id rest =>
    obtain ⟨r, w', v', hw, hv, h'⟩ := (hs.read id).cases h
    rw [readNext, readNext, hw, hv]
    cases r <;> exact .mk _ _ h'

theorem source_alike (hs : s.Hides R) (idField : Option Text) (pending : Option (List Text))
    {w v : σ} (h : R w v) :
    RunAlike R (source s idField pending w) (source s idField pending v) := by
  cases pending with
  | some ids => exact readNext_alike hs idField ids h
  | none =>
    obtain ⟨r, w', v', hw, hv, h'⟩ := hs.index.cases h
    rw [source, source, hw, hv]
    cases r with
    | error e => exact .mk _ _ h'
    | ok ids => exact readNext_alike hs idField ids h'

end Source

end Stage

section Chains
variable {s : Store σ}

theorem remaining_alike (hs : s.Hides R) {w v : σ} (h : R w v) : ∀ (chain : List Stage)
    (p : Progress chain), Progress.remaining s chain p w = Progress.remaining s chain p v
  | [], none => by
    rw [Progress.remaining, Progress.remaining, (hs.index w v h).1]
  | [], some _ => rfl
  | .condition _ :: rest, p | .projection _ :: rest, p => remaining_alike hs h rest p
  | .sort _ :: _, (some _, _) => rfl
  | .sort _ :: rest, (none, p) => remaining_alike hs h rest p
  | .offset _ :: rest, (_, p) | .limit _ :: rest, (_, p) => remaining_alike hs h rest p

theorem pull_alike (hs : s.Hides R) (idField : Option Text) : ∀ (chain : List Stage)
    (p : Progress chain) (w v : σ), R w v →
    RunAlike R (pull s idField chain p w) (pull s idField chain p v)
  | [], p, _, _, h => Stage.source_alike hs idField p h
  | .condition accepts :: rest, p, w, v, h => by
    have hsearch : ∀ n n', n = n' → RunAlike R (Stage.search (pull s idField rest) accepts n p w)
        (Stage.search (pull s idField rest) accepts n' p v) := by
      rintro n _ rfl
      exact Stage.search_alike (pull_alike hs idField rest) accepts n p h
    exact hsearch _ _ (congrArg (· + 1) (remaining_alike hs h rest p))
  | .projection transform :: rest, p, _, _, h =>
    Stage.project_alike (pull_alike hs idField rest) transform p h
  | .sort compare :: rest, p, _, _, h =>
    Stage.sortAll_alike (pull_alike hs idField rest)
      (fun p _ _ h => remaining_alike hs h rest p) compare p h
  | .offset count :: rest, p, _, _, h => Stage.offsetBy_alike (pull_alike hs idField rest) count p h
  | .limit _ :: rest, p, _, _, h => Stage.limitTo_alike (pull_alike hs idField rest) p h

theorem drain_alike (hs : s.Hides R) (idField : Option Text) (chain : List Stage)
    (p : Progress chain) {w v : σ} (h : R w v) :
    RunAlike R (drain s idField chain p w) (drain s idField chain p v) := by
  rw [drain, drain, remaining_alike hs h chain p]
  exact Stage.collect_alike (pull_alike hs idField chain) _ p h

end Chains

/-! ## Cursors -/

namespace Cursor

variable {s : Store σ} {c : Cursor σ}

/-- A cursor over a store that has no items in stock and keeps none. -/
structure Barren (s : Store σ) (c : Cursor σ) : Prop where
  store : c.store = s
  stock : ∀ w, Progress.Each (Stage.Stocked fun _ => False) (fun _ (_ : σ) => True) c.chain
    c.progress w
  results : ∀ xs ∈ c.results, xs = []

theorem barren_start (s : Store σ) (idField : Option Text) : Barren s (start s idField []) where
  store := rfl
  stock _ := trivial
  results _ h := by cases h

theorem Barren.latch (h : Barren s c) (e : QueryError) : Barren s (c.latch e) := by
  obtain ⟨waiting, hwaiting⟩ := latch_eq c e
  rw [hwaiting]
  exact ⟨h.store, h.stock, h.results⟩

theorem stocked_none (known : Item → Prop) : Stage.Stocked known none := fun _ h => by cases h

theorem Barren.push (h : Barren s c) (stage : Stage) : Barren s (c.push stage) := by
  refine ⟨(push_store c stage).trans h.store, fun w => ?_, ?_⟩
  · cases stage with
    | condition accepts | projection transform | offset count | limit count => exact h.stock w
    | sort compare => exact ⟨stocked_none _, h.stock w⟩
  · rw [push_results]
    exact h.results

theorem Barren.progress (h : Barren s c) {p : Progress c.chain} {w : σ}
    (hp : Progress.Each (Stage.Stocked fun _ => False) (fun _ (_ : σ) => True) c.chain p w) :
    Barren s { c with progress := p } :=
  ⟨h.store, fun _ => Progress.each_mono (fun _ h => h) (fun _ _ => trivial) c.chain hp, h.results⟩

/-- No items are kept where there are none. -/
theorem Barren.keep (h : Barren s c) : Barren s { c with results := some [] } :=
  ⟨h.store, h.stock, fun _ hxs => (Option.some.inj hxs).symm⟩

theorem Barren.restart (h : Barren s c) :
    Barren s { c with progress := Progress.rewound c.chain } :=
  ⟨h.store, fun _ => Progress.each_rewound (stocked_none _) trivial c.chain, h.results⟩

theorem Barren.rewind (h : Barren s c) : Barren s c.rewind :=
  ⟨h.store, h.restart.stock, fun _ hxs => by cases hxs⟩

theorem Barren.addTo (h : Barren s c) (clause : Clause) :
    Barren s ((clause.addTo c).toOption.getD c) := by
  obtain ⟨stage, -, hadd⟩ | ⟨e, hadd⟩ | hadd := addTo_cases clause
  · rw [hadd]
    exact h.push stage
  · rw [hadd]
    exact h.latch e
  · rw [hadd]
    exact h

theorem barren_make (s : Store σ) (condition : Given Predicate) (projection : Given Transform)
    (idField : Option Text) : Barren s (make s condition projection idField) := by
  have hcondition : Barren s ((start s idField []).add condition Condition.compile addCondition) :=
    add_keeps (Barren s) (barren_start s idField) (barren_start s idField).latch fun accepts =>
      (barren_start s idField).push (.condition accepts)
  exact add_keeps (Barren s) hcondition hcondition.latch fun transform =>
    hcondition.push (.projection transform)

/-! ### No items come -/

section Unread
variable (hs : s.Hides R)
include hs

theorem source_barren (idField : Option Text) :
    Guards (Stage.source s idField) (fun _ _ => True) (fun _ => False) fun _ _ _ => True := by
  have hreads : s.Reads (fun _ => True) fun _ => False :=
    ⟨fun _ _ => trivial, fun _ _ _ => trivial, fun id w d _ => hs.unread id w d⟩
  refine (source_reads hreads idField).mono ?_ fun _ _ _ _ => trivial
  rintro x ⟨d, hd, -⟩
  exact hd

/-- A cursor without items gets none, and stays without. -/
theorem ensures_pullItem :
    Ensures (fun x : Cursor σ × σ => Barren s x.1) pullItem fun item => item = none := by
  rintro ⟨c, w⟩ h
  obtain rfl : c.store = s := h.store
  have hpull := pull_keeps (source_barren hs c.idField) c.chain (fun _ _ _ _ h => h.elim)
    c.progress w (h.stock w)
  simp only [pullItem]
  generalize pull c.store c.idField c.chain c.progress w = r at hpull ⊢
  cases hpull with
  | error hp => exact ⟨h.progress hp, good_of_failed⟩
  | ok hp =>
    refine ⟨h.progress hp.2, fun item hitem => ?_⟩
    rw [← Except.ok.inj hitem]
    exact Option.eq_none_iff_forall_not_mem.mpr hp.1

theorem ensures_drainItems :
    Ensures (fun x : Cursor σ × σ => Barren s x.1) drainItems fun items => items = [] := by
  rintro ⟨c, w⟩ h
  obtain rfl : c.store = s := h.store
  have hdrain := drain_keeps (source_barren hs c.idField) (fun _ _ _ _ h => h.elim) (h.stock w)
  simp only [drainItems]
  generalize drain c.store c.idField c.chain c.progress w = r at hdrain ⊢
  cases hdrain with
  | error hp => exact ⟨h.progress hp, good_of_failed⟩
  | ok hp =>
    refine ⟨h.progress hp.2, fun items hitems => ?_⟩
    rw [← Except.ok.inj hitems]
    exact List.eq_nil_iff_forall_not_mem.mpr hp.1

/-! ### Calls -/

omit hs in
/-- A cursor without items, beside two related states of its store. -/
structure Facing (s : Store σ) (R : σ → σ → Prop) (x y : Cursor σ × σ) : Prop where
  cursor : x.1 = y.1
  barren : Barren s x.1
  state : R x.2 y.2

omit hs in
/-- It suffices to run an action with one cursor without items, in two related states. -/
theorem blind_facing {a : Run σ α} (ha : ∀ c w v, Barren s c → R w v →
    (a (c, w)).1 = (a (c, v)).1 ∧ Facing s R (a (c, w)).2 (a (c, v)).2) : Blind (Facing s R) a := by
  rintro ⟨c, w⟩ ⟨c', v⟩ ⟨hcursor, hc, h⟩
  obtain rfl : c = c' := hcursor
  exact ha c w v hc h

omit hs in
theorem blind_check : Blind (Facing s R) check := by
  refine blind_facing fun c w v hc h => ?_
  simp only [check]
  cases c.waiting with
  | none => exact ⟨rfl, rfl, hc, h⟩
  | some e => exact ⟨rfl, rfl, hc, h⟩

theorem blind_pullItem : Blind (Facing s R) pullItem := by
  refine blind_facing fun c w v hc h => ?_
  have hbarren := (ensures_pullItem hs (c, w) hc).1
  have hpull := pull_alike (hc.store ▸ hs) c.idField c.chain c.progress w v h
  simp only [pullItem] at hbarren ⊢
  generalize pull c.store c.idField c.chain c.progress w = r at hpull hbarren ⊢
  generalize pull c.store c.idField c.chain c.progress v = r' at hpull ⊢
  cases hpull with
  | mk x p h' => exact ⟨rfl, rfl, hbarren, h'⟩

theorem blind_drainItems : Blind (Facing s R) drainItems := by
  refine blind_facing fun c w v hc h => ?_
  have hbarren := (ensures_drainItems hs (c, w) hc).1
  have hdrain := drain_alike (hc.store ▸ hs) c.idField c.chain c.progress h
  simp only [drainItems] at hbarren ⊢
  generalize drain c.store c.idField c.chain c.progress w = r at hdrain hbarren ⊢
  generalize drain c.store c.idField c.chain c.progress v = r' at hdrain ⊢
  cases hdrain with
  | mk x p h' => exact ⟨rfl, rfl, hbarren, h'⟩

theorem blind_fuel : Blind (Facing s R) fuel := by
  refine blind_facing fun c w v hc h => ?_
  have hremaining := remaining_alike (hc.store ▸ hs) h c.chain c.progress
  refine ⟨?_, rfl, hc, h⟩
  simp only [fuel, hremaining]

theorem blind_lists : Blind (Facing s R) (onStore Store.index) := by
  refine blind_facing fun c w v hc h => ?_
  have hindex : Blind R c.store.index := (hc.store ▸ hs : c.store.Hides R).index
  obtain ⟨hresult, hstate⟩ := hindex w v h
  exact ⟨hresult, rfl, hc, hstate⟩

omit hs in
/-- What is kept in the cursor is not read off the store. -/
theorem blind_modify {f : Cursor σ → Cursor σ} (hf : ∀ c, Barren s c → Barren s (f c)) :
    Blind (Facing s R) (modify fun (c, w) => (f c, w)) :=
  blind_facing fun c _ _ hc h => ⟨rfl, rfl, hf c hc, h⟩

theorem blind_next : Blind (Facing s R) next :=
  blind_check.bind fun _ => (blind_pullItem hs).bind fun _ => blind_pure _

theorem blind_iterateFor (fuel : Nat) : Blind (Facing s R) (iterateFor fuel) := by
  induction fuel with
  | zero => exact blind_pure _
  | succ fuel ih =>
    refine (blind_next hs).bind fun d => ?_
    by_cases hd : d = .null
    · rw [if_pos hd]
      exact blind_pure _
    · rw [if_neg hd]
      exact ih.bind fun _ => blind_pure _

theorem blind_iterate : Blind (Facing s R) iterate :=
  (blind_fuel hs).bind fun n => blind_iterateFor hs n

theorem blind_index : Blind (Facing s R) index := by
  refine blind_check.bind fun _ => Blind.get_bind (fun x y h => ?_) fun x _ _ => ?_
  · rw [h.cursor]
  · cases x.1.identifiers with
    | some ids => exact blind_pure _
    | none =>
      refine (blind_lists hs).bind fun ids => ?_
      have hkeep : ∀ c, Barren s c → Barren s { c with identifiers := some ids } :=
        fun c h => ⟨h.store, h.stock, h.results⟩
      exact (blind_modify hkeep).bind fun _ => blind_pure _

/-- All items are none. -/
theorem blind_items : Blind (Facing s R) items := by
  refine blind_check.bind fun _ => Blind.get_bind (fun x y h => ?_) fun x _ _ => ?_
  · rw [h.cursor]
  · cases x.1.results with
    | some items => exact blind_pure _
    | none =>
      refine (blind_drainItems hs).bind_good (fun _ _ h => h.barren) (ensures_drainItems hs) ?_
      rintro items rfl
      exact (blind_modify fun _ => Barren.keep).bind fun _ => blind_pure _

theorem blind_toList : Blind (Facing s R) toList := (blind_items hs).bind fun _ => blind_pure _

/-- Nothing is handed over, so it does not matter to what. -/
theorem blind_handOver (callback : Value → Action σ Unit) (fuel : Nat) :
    Blind (Facing s R) (handOver callback fuel) := by
  cases fuel with
  | zero => exact blind_pure _
  | succ fuel =>
    refine (blind_pullItem hs).bind_good (fun _ _ h => h.barren) (ensures_pullItem hs) ?_
    rintro item rfl
    exact blind_pure _

theorem ensures_handOver (callback : Value → Action σ Unit) (fuel : Nat) :
    Ensures (fun x : Cursor σ × σ => Barren s x.1) (handOver callback fuel) fun items => items = [] := by
  cases fuel with
  | zero => exact ensures_pure rfl
  | succ fuel =>
    refine (ensures_pullItem hs).bind fun item hitem => ?_
    rw [hitem]
    exact ensures_pure rfl

theorem blind_each (callback : Value → Action σ Unit) : Blind (Facing s R) (each callback) := by
  refine blind_check.bind fun _ => Blind.get_bind (fun x y h => ?_) fun x _ h => ?_
  · rw [h.cursor]
  · cases hresults : x.1.results with
    | some items =>
      obtain rfl := h.barren.results items hresults
      exact blind_pure _
    | none =>
      have hhand : Blind (Facing s R) (do handOver callback (← fuel)) :=
        (blind_fuel hs).bind fun n => blind_handOver hs callback n
      have hnone : Ensures (fun x : Cursor σ × σ => Barren s x.1)
          (do handOver callback (← fuel)) fun items => items = [] :=
        (ensures_of_state fun _ h => h).bind fun n _ => ensures_handOver hs callback n
      have hrestart : Ensures (fun x : Cursor σ × σ => Barren s x.1)
          (modify fun (c, w) => ({ c with progress := Progress.rewound c.chain }, w)) fun _ => True :=
        ensures_of_state fun _ h => h.restart
      refine Blind.bind_good (hhand.tryCatch fun e => ?_) (fun _ _ h => h.barren)
        (hnone.tryCatch fun e => hrestart.bind fun _ _ => ensures_throw e) ?_
      · exact (blind_modify fun _ => Barren.restart).bind fun _ => blind_throw e
      · rintro items rfl
        exact blind_modify fun _ => Barren.keep

theorem blind_count : Blind (Facing s R) count := by
  refine blind_check.bind fun _ => Blind.get_bind (fun x y h => ?_) fun x _ _ => ?_
  · rw [h.cursor]
  · cases x.1.chain.isEmpty with
    | true => exact (blind_index hs).bind fun _ => blind_pure _
    | false => exact (blind_items hs).bind fun _ => blind_pure _

omit hs in
/-- What else changes the state of the store does not tell related states apart. -/
def Request.Relates (R : σ → σ → Prop) : Request σ → Prop
  | .call (.change f) => ∀ w v, R w v → R (f w) (f v)
  | _ => True

theorem blind_request {q : Request σ} (hq : q.Relates R) : Blind (Facing s R) q.run := by
  cases q with
  | items => exact (blind_items hs).map _
  | iterate => exact (blind_iterate hs).map _
  | call asked =>
    cases asked with
    | build clause => exact blind_facing fun _ _ _ hc h => ⟨rfl, rfl, hc.addTo clause, h⟩
    | next => exact (blind_next hs).map _
    | index => exact (blind_index hs).map _
    | toList => exact (blind_toList hs).map _
    | each callback => exact (blind_each hs callback).map _
    | count => exact (blind_count hs).map _
    | rewind => exact blind_facing fun _ _ _ hc h => ⟨rfl, rfl, hc.rewind, h⟩
    | change f => exact blind_facing fun _ w v hc h => ⟨rfl, rfl, hc, hq w v h⟩

end Unread

end Cursor

end Cabinet
