import Cabinet.Proofs.Cursor.SuccessiveSorts
import Cabinet.Proofs.Cursor.Upheld

/-!
# Leaving out and limiting what a query gives

What a chain gives up to its end is some items, one after another. An offset in front of the chain gives
what remains of them after as many as it leaves out, a limit as many of them as it may. This holds
whatever the stages of the chain do, and where the chain was in some progress already.

* `Stage.Gives` : a chain gives some items and then ends;
* `Stage.Bounds`, `bounds_pull` : each item that comes leaves fewer remaining, so no loop over a chain
  stops before the chain ends;
* `drain_iff` : all items of a chain are those that it gives;
* `Stage.Gives.offsetBy`, `Stage.Gives.limitTo` : what an offset and a limit give;
* `Cursor.toList_offset`, `Cursor.toList_limit`, `Cursor.toList_window` : the same of the documents of a
  query.
-/

namespace Cabinet

variable {S σ : Type}

namespace Stage

variable {up : Pull S σ} {remaining : S → σ → Nat} {p p' : S} {w w' : σ} {xs : List Item}

/-- Asked again and again, a chain gives some items and then ends. -/
inductive Gives (up : Pull S σ) : List Item → S → σ → S → σ → Prop where
  | none {p p' : S} {w w' : σ} (h : up p w = (.ok .none, p', w')) : Gives up [] p w p' w'
  | item {x : Item} {xs : List Item} {p p₁ p' : S} {w w₁ w' : σ}
      (h : up p w = (.ok (some x), p₁, w₁)) (rest : Gives up xs p₁ w₁ p' w') :
      Gives up (x :: xs) p w p' w'

/-- Collecting with fuel to spare ends because the chain does. -/
theorem gives_of_collect : ∀ {fuel : Nat} {xs : List Item} {p : S} {w : σ},
    collect up fuel p w = (.ok xs, p', w') → xs.length < fuel → Gives up xs p w p' w'
  | 0, _, _, _, _, hfuel => absurd hfuel (by omega)
  | fuel + 1, xs, p, w, h, hfuel => by
    obtain ⟨hnone, rfl⟩ | ⟨x, rest, p₁, w₁, hitem, hrest, rfl⟩ := collect_ok h
    · exact .none hnone
    · exact .item hitem (gives_of_collect hrest (by simpa using hfuel))

theorem Gives.collect (h : Gives up xs p w p' w') : ∀ {fuel : Nat}, xs.length < fuel →
    collect up fuel p w = (.ok xs, p', w') := by
  induction h with
  | none hnone =>
    intro fuel hfuel
    cases fuel with
    | zero => exact absurd hfuel (by simp)
    | succ fuel => rw [Stage.collect, hnone]
  | item hitem _ ih =>
    intro fuel hfuel
    cases fuel with
    | zero => exact absurd hfuel (by simp)
    | succ fuel =>
      rw [Stage.collect, hitem]
      simp only [ih (Nat.lt_of_succ_lt_succ hfuel)]

/-! ## Fewer items remain -/

/-- Each item that comes leaves fewer remaining. -/
structure Bounds (up : Pull S σ) (remaining : S → σ → Nat) : Prop where
  less : ∀ {p w x p' w'}, up p w = (.ok (some x), p', w') → remaining p' w' < remaining p w

theorem Bounds.collect (hup : Bounds up remaining) : ∀ {fuel : Nat} {xs : List Item} {p : S} {w : σ},
    collect up fuel p w = (.ok xs, p', w') → xs.length ≤ remaining p w
  | 0, _, _, _, h => by
    cases h
    exact Nat.zero_le _
  | fuel + 1, _, p, w, h => by
    obtain ⟨-, rfl⟩ | ⟨x, rest, p₁, w₁, hitem, hrest, rfl⟩ := collect_ok h
    · exact Nat.zero_le _
    · exact Nat.lt_of_le_of_lt (hup.collect hrest) (hup.less hitem)

theorem Bounds.gives (hup : Bounds up remaining) (h : Gives up xs p w p' w') :
    xs.length ≤ remaining p w := by
  induction h with
  | none _ => exact Nat.zero_le _
  | item hitem _ ih => exact Nat.lt_of_le_of_lt ih (hup.less hitem)

theorem Bounds.search (hup : Bounds up remaining) {accepts : Predicate} {x : Item} :
    ∀ {fuel : Nat} {p : S} {w : σ}, search up accepts fuel p w = (.ok (some x), p', w') →
    remaining p' w' < remaining p w
  | 0, _, _, h => by cases h
  | fuel + 1, p, w, h => by
    rw [Stage.search] at h
    generalize hpull : up p w = r at h
    rcases r with ⟨_ | _ | y, p₁, w₁⟩
    · cases h
    · cases h
    · have hless := hup.less hpull
      simp only at h
      split at h
      · cases h
        exact hless
      · exact Nat.lt_trans (hup.search h) hless
      · cases h

theorem Bounds.project (hup : Bounds up remaining) (transform : Transform) :
    Bounds (project up transform) remaining where
  less {p w x p' w'} h := by
    obtain ⟨y, hpull, hy, -⟩ := project_ok h
    obtain ⟨y, rfl, -⟩ := Option.map_eq_some_iff.mp hy.symm
    exact hup.less hpull

/-- How many items remain behind a sort: its stock, once there is one. -/
def sortRemaining (remaining : S → σ → Nat) : Option (List Item) × S → σ → Nat
  | (some stock, _), _ => stock.length
  | (none, p), w => remaining p w

theorem Bounds.sortAll (hup : Bounds up remaining) (compare : Comparator) :
    Bounds (sortAll up remaining compare) (sortRemaining remaining) := by
  have hserve : ∀ {stock : List Item} {p : S} {w : σ} {x q w'},
      serve p w stock = (.ok (some x), q, w') → sortRemaining remaining q w' < stock.length := by
    intro stock p w x q w' h
    cases stock with
    | nil => cases h
    | cons y stock =>
      cases h
      exact Nat.lt_succ_self _
  refine ⟨?_⟩
  rintro ⟨_ | stock, p⟩ w x q w' h
  · rw [Stage.sortAll] at h
    generalize hcollect : Stage.collect up (remaining p w + 1) p w = r at h
    rcases r with ⟨_ | xs, p₁, w₁⟩
    · cases h
    · cases hsort : SortOrder.sort Item.document compare xs with
      | error e =>
        simp only [hsort] at h
        cases h
      | ok ys =>
        simp only [hsort] at h
        calc sortRemaining remaining q w' < ys.length := hserve h
          _ = xs.length := (Order.sort_perm hsort).length_eq
          _ ≤ remaining p w := hup.collect hcollect
  · exact hserve h

theorem Bounds.skip (hup : Bounds up remaining) : ∀ {count : Nat} {b : Bool} {p : S} {w : σ},
    skip up count p w = (.ok b, p', w') → b = true → remaining p' w' ≤ remaining p w
  | 0, _, _, _, h, _ => by
    cases h
    exact Nat.le_refl _
  | count + 1, b, p, w, h, hb => by
    rw [Stage.skip] at h
    generalize hpull : up p w = r at h
    rcases r with ⟨_ | _ | y, p₁, w₁⟩
    · cases h
    · cases h
      cases hb
    · exact Nat.le_trans (hup.skip h hb) (Nat.le_of_lt (hup.less hpull))

theorem Bounds.offsetBy (hup : Bounds up remaining) (count : Int) :
    Bounds (offsetBy up count) fun q => remaining q.2 := by
  refine ⟨?_⟩
  rintro ⟨ready, p⟩ w x ⟨ready', p'⟩ w' h
  rw [Stage.offsetBy] at h
  cases ready with
  | true =>
    simp only [if_true] at h
    generalize hpull : up p w = r at h
    obtain ⟨_, p₁, w₁⟩ := r
    cases h
    exact hup.less hpull
  | false =>
    simp only [Bool.false_eq_true, if_false] at h
    generalize hskip : Stage.skip up count.toNat p w = r at h
    rcases r with ⟨_ | _ | _, p₁, w₁⟩
    · cases h
    · cases h
    · simp only at h
      generalize hpull : up p₁ w₁ = r at h
      obtain ⟨_, p₂, w₂⟩ := r
      cases h
      exact Nat.lt_of_lt_of_le (hup.less hpull) (hup.skip hskip rfl)

theorem Bounds.limitTo (hup : Bounds up remaining) : Bounds (limitTo up) fun q => remaining q.2 := by
  refine ⟨?_⟩
  rintro ⟨left, p⟩ w x ⟨left', p'⟩ w' h
  rw [Stage.limitTo] at h
  split at h
  · cases h
  · generalize hpull : up p w = r at h
    obtain ⟨_, p₁, w₁⟩ := r
    cases h
    exact hup.less hpull

/-! ## Offsets and limits -/

/-- Leaving out items leaves the rest to come. If too few come, the chain has ended. -/
theorem Gives.skip (h : Gives up xs p w p' w') : ∀ (count : Nat),
    (∃ p₁ w₁, skip up count p w = (.ok true, p₁, w₁) ∧ Gives up (xs.drop count) p₁ w₁ p' w') ∨
      (skip up count p w = (.ok false, p', w') ∧ xs.drop count = []) := by
  induction h with
  | none hnone =>
    intro count
    cases count with
    | zero => exact .inl ⟨_, _, rfl, .none hnone⟩
    | succ count =>
      rw [Stage.skip, hnone]
      exact .inr ⟨rfl, rfl⟩
  | item hitem rest ih =>
    intro count
    cases count with
    | zero => exact .inl ⟨_, _, rfl, .item hitem rest⟩
    | succ count =>
      rw [Stage.skip, hitem]
      exact ih count

/-- An offset that has left out its items passes on all others. -/
theorem Gives.ready (h : Gives up xs p w p' w') (count : Int) :
    Gives (offsetBy up count) xs (true, p) w (true, p') w' := by
  induction h with
  | none hnone => exact .none (by simp only [Stage.offsetBy, if_true, hnone])
  | item hitem _ ih => exact .item (by simp only [Stage.offsetBy, if_true, hitem]) ih

theorem Gives.offsetBy (h : Gives up xs p w p' w') (count : Int) :
    ∃ q, Gives (offsetBy up count) (xs.drop count.toNat) (false, p) w q w' := by
  obtain ⟨p₁, w₁, hskip, hrest⟩ | ⟨hskip, hnone⟩ := h.skip count.toNat
  · refine ⟨(true, p'), ?_⟩
    -- The first item comes right after those that are left out.
    have hready := hrest.ready count
    have hfirst : Stage.offsetBy up count (false, p) w = Stage.offsetBy up count (true, p₁) w₁ := by
      simp only [Stage.offsetBy, Bool.false_eq_true, if_false, if_true, hskip]
    generalize xs.drop count.toNat = ys at hready
    cases hready with
    | none hend => exact .none (hfirst.trans hend)
    | item hitem rest => exact .item (hfirst.trans hitem) rest
  · rw [hnone]
    refine ⟨(false, p'), .none ?_⟩
    simp only [Stage.offsetBy, Bool.false_eq_true, if_false, hskip]

theorem Gives.limitTo (h : Gives up xs p w p' w') : ∀ (count : Nat),
    ∃ q w₁, Gives (limitTo up) (xs.take count) (Int.ofNat count, p) w q w₁ := by
  have hended : ∀ (p : S) (w : σ),
      Gives (Stage.limitTo up) [] (Int.ofNat 0, p) w (Int.ofNat 0, p) w := fun _ _ => .none rfl
  have hpositive : ∀ count : Nat, ¬ Int.ofNat (count + 1) ≤ 0 := fun count => by simp
  have hless : ∀ count : Nat, Int.ofNat (count + 1) - 1 = Int.ofNat count := fun count => by simp
  induction h with
  | @none p p' w w' hnone =>
    intro count
    cases count with
    | zero => exact ⟨_, _, hended _ _⟩
    | succ count =>
      refine ⟨(Int.ofNat (count + 1) - 1, p'), w', .none ?_⟩
      rw [Stage.limitTo, if_neg (hpositive count), hnone]
  | item hitem rest ih =>
    intro count
    cases count with
    | zero => exact ⟨_, _, hended _ _⟩
    | succ count =>
      obtain ⟨q, w₁, hrest⟩ := ih count
      refine ⟨q, w₁, .item ?_ hrest⟩
      rw [Stage.limitTo, if_neg (hpositive count), hitem, hless]

end Stage

/-! ## Chains -/

section Chains
variable {s : Store σ} {idField : Option Text}

theorem bounds_source : Stage.Bounds (Stage.source s idField) (Progress.remaining s []) := by
  have hnext : ∀ {ids : List Text} {w : σ} {x p' w'},
      Stage.readNext s idField ids w = (.ok (some x), p', w') →
      Progress.remaining s [] p' w' < ids.length := by
    intro ids w x p' w' h
    cases ids with
    | nil => cases h
    | cons id ids =>
      rw [Stage.readNext] at h
      split at h
      · cases h
        exact Nat.lt_succ_self _
      · cases h
  refine ⟨fun {pending w x p' w'} h => ?_⟩
  cases pending with
  | some ids => exact hnext h
  | none =>
    rw [Stage.source] at h
    simp only [Progress.remaining]
    generalize s.index w = r at h ⊢
    rcases r with ⟨_ | ids, w₁⟩
    · cases h
    · exact hnext h

theorem bounds_pull : ∀ (chain : List Stage),
    Stage.Bounds (pull s idField chain) (Progress.remaining s chain)
  | [] => bounds_source
  | .condition _ :: rest => ⟨fun h => (bounds_pull rest).search h⟩
  | .projection transform :: rest => (bounds_pull rest).project transform
  | .sort compare :: rest => by
    have hremaining : Progress.remaining s (.sort compare :: rest) =
        Stage.sortRemaining (Progress.remaining s rest) := by
      funext ⟨stock, p⟩ w
      cases stock <;> rfl
    rw [hremaining]
    exact (bounds_pull rest).sortAll compare
  | .offset count :: rest => (bounds_pull rest).offsetBy count
  | .limit _ :: rest => (bounds_pull rest).limitTo

/-- All items that remain in a chain are those that it gives. -/
theorem drain_iff {chain : List Stage} {p p' : Progress chain} {w w' : σ} {xs : List Item} :
    drain s idField chain p w = (.ok xs, p', w') ↔
      Stage.Gives (pull s idField chain) xs p w p' w' :=
  ⟨fun h => Stage.gives_of_collect h (Nat.lt_succ_of_le ((bounds_pull chain).collect h)),
    fun h => h.collect (Nat.lt_succ_of_le ((bounds_pull chain).gives h))⟩

end Chains

/-! ## Queries -/

namespace Cursor

variable {c : Cursor σ} {w w' : σ} {docs : List Value}

/-- Where taking all results succeeds, no error waits. -/
theorem waiting_of_toList {x : Cursor σ × σ} (h : toList (c, w) = (.ok docs, x)) :
    c.waiting = none := by
  cases hc : c.waiting with
  | none => rfl
  | some e =>
    rw [toList, Action.bind_apply, items, check_bind_waiting hc] at h
    cases h

/-- A query over a store whose results are not yet kept. -/
structure IsNew (s : Store σ) (c : Cursor σ) : Prop where
  store : c.store = s
  results : c.results = none

section New
variable {s : Store σ}

theorem IsNew.latch (h : IsNew s c) (e : QueryError) : IsNew s (c.latch e) := by
  obtain ⟨waiting, hwaiting⟩ := latch_eq c e
  rw [hwaiting]
  exact ⟨h.store, h.results⟩

theorem isNew_make (s : Store σ) (condition : Given Predicate) (projection : Given Transform)
    (idField : Option Text) : IsNew s (make s condition projection idField) := by
  have hbare : IsNew s ⟨s, idField, [], none, none, none, none⟩ := ⟨rfl, rfl⟩
  have hcondition : IsNew s ((start s idField []).add condition Condition.compile addCondition) :=
    add_keeps (IsNew s) hbare hbare.latch fun _ => ⟨rfl, rfl⟩
  exact add_keeps (IsNew s) hcondition hcondition.latch fun _ => ⟨hcondition.store, hcondition.results⟩

theorem IsNew.addTo {clause : Clause} {c' : Cursor σ} (h : IsNew s c) (hadd : clause.addTo c = .ok c') :
    IsNew s c' := by
  obtain rfl : (clause.addTo c).toOption.getD c = c' := by
    rw [hadd]
    rfl
  obtain ⟨stage, -, hpush⟩ | ⟨e, hlatch⟩ | hsame := addTo_cases clause
  · rw [hpush]
    exact ⟨(push_store c stage).trans h.store, (push_results c stage).trans h.results⟩
  · rw [hlatch]
    exact h.latch e
  · rw [hsame]
    exact h

theorem IsNew.extend {clauses : List Clause} : ∀ {c c' : Cursor σ}, IsNew s c →
    extend c clauses = .ok c' → IsNew s c' := by
  induction clauses with
  | nil =>
    intro c c' h hextend
    obtain rfl := Except.ok.inj hextend
    exact h
  | cons clause clauses ih =>
    intro c c' h hextend
    rw [Cursor.extend, List.foldlM_cons] at hextend
    obtain ⟨c₁, hadd, hrest⟩ := ok_of_bind hextend
    exact ih (h.addTo hadd) hrest

end New

/-- What an offset leaves of the documents of a query, and the store is afterwards as after the whole
query. -/
theorem toList_offset {c' : Cursor σ} (hr : c.results = none)
    (h : toList (c, w) = (.ok docs, c', w')) (count : Nat) :
    ∃ c', toList (c.addOffset count, w) = (.ok (docs.drop count), c', w') := by
  have hc : c.waiting = none := waiting_of_toList h
  obtain ⟨xs, p, hdrain, rfl⟩ := (toList_iff hc hr).mp ⟨c', h⟩
  obtain ⟨q, hrest⟩ := (drain_iff.mp hdrain).offsetBy count
  refine (toList_iff (c := c.addOffset count) hc hr).mpr ⟨_, q, drain_iff.mpr hrest, ?_⟩
  rw [Int.toNat_natCast, List.map_drop]

/-- What a limit leaves of the documents of a query. -/
theorem toList_limit {c' : Cursor σ} (hr : c.results = none)
    (h : toList (c, w) = (.ok docs, c', w')) (count : Nat) :
    ∃ c' w₁, toList (c.addLimit count, w) = (.ok (docs.take count), c', w₁) := by
  have hc : c.waiting = none := waiting_of_toList h
  obtain ⟨xs, p, hdrain, rfl⟩ := (toList_iff hc hr).mp ⟨c', h⟩
  obtain ⟨q, w₁, hrest⟩ := (drain_iff.mp hdrain).limitTo count
  obtain ⟨c', htaken⟩ := (toList_iff (c := c.addLimit count) hc hr).mpr
    ⟨_, q, drain_iff.mpr hrest, List.map_take.symm⟩
  exact ⟨c', w₁, htaken⟩

/-- Where a query gives all its documents, the same query with an offset and a limit on top gives what
remains of them after as many, up to as many. It leaves the store as it is, if listing and reading do. -/
theorem toList_window {s : Store σ} {first : Cursor σ} (hfirst : IsNew s first) {clauses : List Clause}
    (hc : extend first clauses = .ok c) {c' : Cursor σ} (h : toList (c, w) = (.ok docs, c', w'))
    (offset limit : Nat) :
    ∃ page page' w₁, extend first (clauses ++ [.offset (.int offset), .limit (.int limit)]) = .ok page ∧
      toList (page, w) = (.ok ((docs.drop offset).take limit), page', w₁) ∧
      ((s.Reads (fun v => v = w) fun _ => True) → w₁ = w) := by
  have hnew : IsNew s c := hfirst.extend hc
  obtain ⟨c₁, hoffset⟩ := toList_offset hnew.results h offset
  have hresults : (c.addOffset offset).results = none := hnew.results
  obtain ⟨page', w₁, hpage⟩ := toList_limit hresults hoffset limit
  refine ⟨(c.addOffset offset).addLimit limit, page', w₁, ?_, hpage, fun hreads => ?_⟩
  · rw [extend, List.foldlM_append]
    change (extend first clauses >>= _) = _
    rw [hc]
    rfl
  · have hkeeps := ((lasting_over hreads).toList ((c.addOffset offset).addLimit limit, w)
      ⟨hnew.store, rfl⟩).1
    rw [hpage] at hkeeps
    exact hkeeps.2

end Cursor

end Cabinet
