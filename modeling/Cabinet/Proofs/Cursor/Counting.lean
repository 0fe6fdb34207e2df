import Cabinet.Proofs.Cursor.Calls

/-!
# Counting and taking all results

Counting the results of a bare chain takes the identifiers in the store, which are kept apart from
the results and from the progress of the chain.

* `count_eq_length` : behind at least one stage, counting takes all items;
* `Call.IsQuiet`, `Counted` : calls after which the identifiers and the items of a bare chain are the
  same in number, and what they keep true; `counted_run` for one call, `counted_after` for many;
* `count_agrees` : counting gives the number of results, behind at least one stage after any calls,
  and for a bare chain that was only called quietly since it was new or started anew;
* `count_disagrees` : a bare chain that was only partly taken, or whose store was written to, counts
  otherwise.
-/

namespace Cabinet

variable {σ : Type}

namespace Cursor

open Progress (toCome)

/-- Behind at least one stage, counting is taking all results. -/
theorem count_eq_length {c : Cursor σ} (hchain : c.chain ≠ []) (w : σ) :
    count (c, w) = ((toList (c, w)).1.map List.length, (toList (c, w)).2) := by
  cases hc : c.waiting with
  | some e =>
    have hcount : count (c, w) = (.error (.query e), c, w) := check_bind_waiting hc _
    have hitems : items (c, w) = (.error (.query e), c, w) := check_bind_waiting hc _
    rw [hcount, toList, Action.bind_apply, hitems]
    rfl
  | none =>
    have hempty : c.chain.isEmpty = false := by simpa using hchain
    rw [count_apply hc, hempty, toList, Action.bind_apply]
    generalize items (c, w) = r
    rcases r with ⟨_ | xs, c', w'⟩
    · rfl
    · simp [Except.map, Action.pure_apply]

/-! ## Bare chains -/

section Bare
variable {s : Store σ} {I : σ → Prop} {ids : List Text} {doc : Text → Document}

/-- A call that takes no single item out of the chain and does not change the store; a callback
leaves the store as it is, too. -/
def Call.IsQuiet (I : σ → Prop) : Call σ → Prop
  | .next | .change _ => False
  | .each callback => ∀ d w, I w → I (callback d w).2
  | .build _ | .index | .toList | .count | .rewind => True

/-- What is kept in a cursor over a store with these identifiers: the identifiers themselves, as many
results, or progress that has not begun. -/
structure Counted (s : Store σ) (I : σ → Prop) (ids : List Text) (c : Cursor σ) (w : σ) : Prop where
  store : c.store = s
  state : I w
  identifiers : ∀ kept ∈ c.identifiers, kept = ids
  results : ∀ xs ∈ c.results, xs.length = ids.length
  progress : c.results = none → c.progress = Progress.rewound c.chain

variable {c : Cursor σ} {w : σ}

theorem Counted.toCome_length (h : Counted s I ids c w) (hchain : c.chain = [])
    (hr : c.results = none) : (toCome c.idField ids doc c.chain c.progress).length = ids.length := by
  rw [h.progress hr, toCome_rewound, hchain]
  simp [answer, storedItems]

theorem Counted.ready (h : Counted s I ids c w) (hs : Steady s I (fun _ => []) ids doc)
    (hchain : c.chain = []) (hc : c.waiting = none) (hr : c.results = none) :
    Ready c I (fun _ => []) ids doc [] w where
  steady := h.store.symm ▸ hs
  fits := by
    rw [hchain]
    trivial
  waiting := hc
  results := hr
  sound := by
    rw [h.progress hr]
    exact sound_rewound (And.intro h.state rfl) c.chain

theorem Counted.latch (h : Counted s I ids c w) (e : QueryError) :
    Counted s I ids (c.latch e) w := by
  obtain ⟨waiting, hwaiting⟩ := latch_eq c e
  rw [hwaiting]
  exact ⟨h.store, h.state, h.identifiers, h.results, h.progress⟩

/-- A cursor that starts anew keeps nothing. -/
theorem counted_rewind (hstore : c.store = s) (hw : I w) : Counted s I ids c.rewind w where
  store := hstore
  state := hw
  identifiers _ hkept := by cases hkept
  results _ hxs := by cases hxs
  progress _ := rfl

theorem index_counted (hs : Steady s I (fun _ => []) ids doc) (h : Counted s I ids c w)
    (hc : c.waiting = none) :
    ∃ c' w', index (c, w) = (.ok ids, c', w') ∧ Counted s I ids c' w' := by
  cases hi : c.identifiers with
  | some kept =>
    obtain rfl := h.identifiers kept (by rw [hi]; rfl)
    refine ⟨c, w, ?_, h⟩
    simp only [index, Action.bind_apply, check_apply hc, Action.get_apply, hi, Action.pure_apply]
  | none =>
    obtain ⟨w', hindex, hw', -⟩ := hs.index w h.state
    rw [← h.store] at hindex
    rw [index_apply hc hi, hindex]
    refine ⟨_, w', rfl, h.store, hw', ?_, h.results, h.progress⟩
    intro kept hkept
    exact (Option.some.inj hkept).symm

theorem items_counted (hs : Steady s I (fun _ => []) ids doc) (h : Counted s I ids c w)
    (hchain : c.chain = []) (hc : c.waiting = none) :
    ∃ xs c' w', items (c, w) = (.ok xs, c', w') ∧ xs.length = ids.length ∧
      Counted s I ids c' w' := by
  cases hr : c.results with
  | some xs =>
    refine ⟨xs, c, w, ?_, h.results xs (by rw [hr]; rfl), h⟩
    simp only [items, Action.bind_apply, check_apply hc, Action.get_apply, hr, Action.pure_apply]
  | none =>
    have hready := h.ready hs hchain hc hr
    obtain ⟨p, w', hdrain, -, hp⟩ := drain_steady hready.steady [] hready.fits hready.sound
    have hlength : (toCome c.idField ids doc c.chain c.progress).length = ids.length :=
      h.toCome_length hchain hr
    rw [items_apply hc hr, hdrain]
    refine ⟨_, _, w', rfl, hlength, h.store, (still_of_sound hp).1, h.identifiers, ?_, ?_⟩
    · intro xs hxs
      rw [← Option.some.inj hxs, hlength]
    · intro hnone
      cases hnone

/-- Handing over items leaves the store as it is and only makes progress, and where no callback fails
all items are given. -/
theorem handOver_length {callback : Value → Action σ Unit}
    (hcallback : ∀ d w, I w → I (callback d w).2) : ∀ (fuel : Nat) {c : Cursor σ} {w : σ},
    Ready c I (fun _ => []) ids doc [] w →
    (toCome c.idField ids doc c.chain c.progress).length < fuel →
    ∃ r p w', handOver callback fuel (c, w) = (r, { c with progress := p }, w') ∧ I w' ∧
      ∀ xs, r = .ok xs → xs.length = (toCome c.idField ids doc c.chain c.progress).length
  | 0, _, _, _, hfuel => absurd hfuel (Nat.not_lt_zero _)
  | fuel + 1, c, w, h, hfuel => by
    obtain ⟨p, w₁, hr, htail, hp⟩ := pull_steady h.steady [] h.fits h.sound
    have hpull : pullItem (c, w) =
        (.ok (toCome c.idField ids doc c.chain c.progress).head?, { c with progress := p }, w₁) := by
      simp only [pullItem, hr]
    rw [handOver, Action.bind_apply, hpull]
    cases hcome : toCome c.idField ids doc c.chain c.progress with
    | nil =>
      refine ⟨.ok [], p, w₁, rfl, (still_of_sound hp).1, fun xs hxs => ?_⟩
      rw [← Except.ok.inj hxs]
    | cons x rest =>
      rw [hcome, List.tail_cons] at htail
      rw [hcome, List.length_cons] at hfuel
      have hw₂ := hcallback x.document w₁ (still_of_sound hp).1
      simp only [List.head?_cons, onStore, Action.bind_apply]
      generalize callback x.document w₁ = r at hw₂ ⊢
      rcases r with ⟨e | _, w₂⟩
      · exact ⟨.error e, p, w₂, rfl, hw₂, fun xs hxs => by cases hxs⟩
      · have hready : Ready { c with progress := p } I (fun _ => []) ids doc [] w₂ :=
          ⟨h.steady, h.fits, h.waiting, h.results,
            sound_move (fun _ => And.intro hw₂ rfl) (fun _ => And.intro hw₂ rfl) c.chain hp⟩
        obtain ⟨r, q, w₃, hrest, hw₃, hall⟩ := handOver_length hcallback fuel hready (by
          rw [htail]
          omega)
        rw [htail] at hall
        simp only [hrest]
        cases r with
        | error e => exact ⟨.error e, q, w₃, rfl, hw₃, fun xs hxs => by cases hxs⟩
        | ok more =>
          refine ⟨.ok (x :: more), q, w₃, rfl, hw₃, fun xs hxs => ?_⟩
          rw [← Except.ok.inj hxs, List.length_cons, List.length_cons, hall more rfl]

theorem forM_state {callback : Value → Action σ Unit}
    (hcallback : ∀ d w, I w → I (callback d w).2) (c : Cursor σ) : ∀ (xs : List Item) {w : σ}, I w →
    ∃ r w', (xs.forM fun x => onStore fun _ => callback x.document) (c, w) = (r, c, w') ∧ I w'
  | [], w, hw => ⟨.ok (), w, rfl, hw⟩
  | x :: xs, w, hw => by
    have hw₁ := hcallback x.document w hw
    show ∃ r w', ((onStore fun _ => callback x.document) >>= fun _ =>
      xs.forM fun x => onStore fun _ => callback x.document) (c, w) = (r, c, w') ∧ I w'
    simp only [Action.bind_apply, onStore]
    generalize callback x.document w = r at hw₁ ⊢
    rcases r with ⟨e | _, w₁⟩
    · exact ⟨.error e, w₁, rfl, hw₁⟩
    · exact forM_state hcallback c xs hw₁

theorem each_counted {callback : Value → Action σ Unit}
    (hcallback : ∀ d w, I w → I (callback d w).2) (hs : Steady s I (fun _ => []) ids doc)
    (h : Counted s I ids c w) (hchain : c.chain = []) (hc : c.waiting = none) :
    ∃ r c' w', each callback (c, w) = (r, c', w') ∧ Counted s I ids c' w' := by
  cases hr : c.results with
  | some xs =>
    obtain ⟨r, w', hrun, hw'⟩ := forM_state hcallback c xs h.state
    refine ⟨r, c, w', ?_, h.store, hw', h.identifiers, h.results, h.progress⟩
    simp only [each, Action.bind_apply, check_apply hc, Action.get_apply, hr, hrun]
  | none =>
    have hready := h.ready hs hchain hc hr
    have hle := Progress.length_toCome_le (hready.steady.answers []) c.chain hready.sound
    obtain ⟨r, p, w', hrun, hw', hall⟩ :=
      handOver_length hcallback _ hready (Nat.lt_succ_of_le hle)
    rw [each_apply hc hr, hrun]
    cases r with
    | error e =>
      exact ⟨_, _, w', rfl, h.store, hw', h.identifiers, h.results, fun _ => rfl⟩
    | ok xs =>
      refine ⟨_, _, w', rfl, h.store, hw', h.identifiers, ?_, fun hnone => by cases hnone⟩
      intro ys hys
      rw [← Option.some.inj hys, hall xs rfl]
      exact h.toCome_length hchain hr

/-- Counting a bare chain gives the number of its items. -/
theorem count_counted (hs : Steady s I (fun _ => []) ids doc) (h : Counted s I ids c w)
    (hchain : c.chain = []) (hc : c.waiting = none) :
    ∃ c' w', count (c, w) = (.ok ids.length, c', w') ∧ Counted s I ids c' w' := by
  obtain ⟨c', w', hindex, h'⟩ := index_counted hs h hc
  refine ⟨c', w', ?_, h'⟩
  rw [count_apply hc, hchain, hindex]
  rfl

/-! ## Histories -/

/-- A quiet call keeps it, as long as the chain stays bare. -/
theorem counted_run (hs : Steady s I (fun _ => []) ids doc) {call : Call σ}
    (hquiet : call.IsQuiet I) {x : Cursor σ × σ} (h : Counted s I ids x.1 x.2)
    (hbare : (call.run x).1.chain = []) : Counted s I ids (call.run x).1 (call.run x).2 := by
  have hchain : x.1.chain = [] := List.suffix_nil.mp (hbare ▸ (run_keeps call x).1)
  obtain ⟨c, w⟩ := x
  have hwaits : ∀ {α : Type} {a : Run σ α} {f : Unit → Run σ α} {e : QueryError},
      a = check >>= f → c.waiting = some e → Counted s I ids (a (c, w)).2.1 (a (c, w)).2.2 := by
    intro α a f e ha hc
    rw [ha, check_bind_waiting hc]
    exact h
  cases call with
  | next => exact hquiet.elim
  | change f => exact hquiet.elim
  | rewind => exact counted_rewind h.store h.state
  | build clause =>
    rw [Call.run] at hbare ⊢
    obtain ⟨stage, -, hadd⟩ | ⟨e, hadd⟩ | hadd := addTo_cases clause
    · rw [hadd, push_chain] at hbare
      cases hbare
    · rw [hadd]
      exact h.latch e
    · rw [hadd]
      exact h
  | index =>
    cases hc : c.waiting with
    | some e => exact hwaits rfl hc
    | none =>
      obtain ⟨c', w', hrun, h'⟩ := index_counted hs h hc
      rw [Call.run, hrun]
      exact h'
  | toList =>
    cases hc : c.waiting with
    | some e =>
      have hitems : items (c, w) = (.error (.query e), c, w) := check_bind_waiting hc _
      rw [Call.run, toList, Action.bind_apply, hitems]
      exact h
    | none =>
      obtain ⟨xs, c', w', hrun, -, h'⟩ := items_counted hs h hchain hc
      rw [Call.run, toList, Action.bind_apply, hrun]
      exact h'
  | each callback =>
    cases hc : c.waiting with
    | some e => exact hwaits rfl hc
    | none =>
      obtain ⟨r, c', w', hrun, h'⟩ := each_counted hquiet hs h hchain hc
      rw [Call.run, hrun]
      exact h'
  | count =>
    cases hc : c.waiting with
    | some e => exact hwaits rfl hc
    | none =>
      obtain ⟨c', w', hrun, h'⟩ := count_counted hs h hchain hc
      rw [Call.run, hrun]
      exact h'

/-- Quiet calls keep it, as long as the chain stays bare. -/
theorem counted_after (hs : Steady s I (fun _ => []) ids doc) {calls : List (Call σ)}
    (hquiet : ∀ call ∈ calls, call.IsQuiet I) {x : Cursor σ × σ} (h : Counted s I ids x.1 x.2)
    (hbare : (after calls x).1.chain = []) :
    Counted s I ids (after calls x).1 (after calls x).2 := by
  induction calls generalizing x with
  | nil => exact h
  | cons call calls ih =>
    obtain ⟨hcall, hrest⟩ := List.forall_mem_cons.mp hquiet
    have hfirst : (call.run x).1.chain = [] :=
      List.suffix_nil.mp (hbare ▸ (after_keeps calls (call.run x)).1)
    exact ih hrest (counted_run hs hcall h hfirst) hbare

/-- A new cursor has not begun, and keeps nothing. -/
theorem counted_make (hw : I w) (condition : Given Predicate) (projection : Given Transform)
    (idField : Option Text) : Counted s I ids (make s condition projection idField) w := by
  let bare : Cursor σ := ⟨s, idField, [], none, none, none, none⟩
  have hbare : Counted s I ids bare w := ⟨rfl, hw, nofun, nofun, fun _ => rfl⟩
  have hcondition : Counted s I ids (bare.add condition Condition.compile addCondition) w :=
    add_keeps (fun c => Counted s I ids c w) hbare hbare.latch fun accepts =>
      ⟨rfl, hw, nofun, nofun, fun _ => rfl⟩
  exact add_keeps (fun c => Counted s I ids c w) hcondition hcondition.latch fun transform =>
    ⟨hcondition.store, hw, hcondition.identifiers, hcondition.results, hcondition.progress⟩

/-- There were no calls, or the last of them started anew. -/
def StartsAnew (calls : List (Call σ)) : Prop := calls = [] ∨ ∃ before, calls = before ++ [.rewind]

theorem counted_startsAnew {calls : List (Call σ)} (h : StartsAnew calls)
    {condition : Given Predicate} {projection : Given Transform} {idField : Option Text} {w₀ : σ}
    (hw : I (after calls (make s condition projection idField, w₀)).2) :
    Counted s I ids (after calls (make s condition projection idField, w₀)).1
      (after calls (make s condition projection idField, w₀)).2 := by
  have hnew : Counted s (fun _ => True) [] (make s condition projection idField) w₀ :=
    counted_make trivial condition projection idField
  rcases h with rfl | ⟨before, rfl⟩
  · exact counted_make hw condition projection idField
  · rw [after_append] at hw ⊢
    exact counted_rewind ((after_keeps before _).2.trans hnew.store) hw

/-- Counting gives the number of results that taking all of them would give, in every state of a
cursor with at least one stage. So it does in a state of a bare one that since it was new, or started
anew, was only called quietly, over a store that stays as it is. -/
theorem count_agrees {condition : Given Predicate} {projection : Given Transform}
    {idField : Option Text} {calls : List (Call σ)} {w₀ : σ}
    (hafter : after calls (make s condition projection idField, w₀) = (c, w))
    (hbare : c.chain = [] → ∃ before quiet, calls = before ++ quiet ∧ StartsAnew before ∧
      I (after before (make s condition projection idField, w₀)).2 ∧
      Steady s I (fun _ => []) ids doc ∧ ∀ call ∈ quiet, call.IsQuiet I) :
    (count (c, w)).1 = (toList (c, w)).1.map List.length := by
  by_cases hchain : c.chain = []
  · obtain ⟨before, quiet, rfl, hanew, hw, hs, hquiet⟩ := hbare hchain
    rw [after_append] at hafter
    have h := counted_after hs hquiet (counted_startsAnew hanew hw) (by rw [hafter]; exact hchain)
    rw [hafter] at h
    cases hc : c.waiting with
    | some e =>
      have hcount : count (c, w) = (.error (.query e), c, w) := check_bind_waiting hc _
      have hitems : items (c, w) = (.error (.query e), c, w) := check_bind_waiting hc _
      rw [hcount, toList, Action.bind_apply, hitems]
      rfl
    | none =>
      obtain ⟨c₁, w₁, hcount, -⟩ := count_counted hs h hchain hc
      obtain ⟨xs, c₂, w₂, hitems, hlength, -⟩ := items_counted hs h hchain hc
      rw [hcount, toList, Action.bind_apply, hitems]
      simp [Except.map, Action.pure_apply, hlength]
  · rw [count_eq_length hchain]

end Bare

/-! ## Lamps -/

/-- A query for all lamps. -/
def allLamps : Cursor Memory := make Memory.store .nothing .nothing none

theorem steady_lamps : Steady Memory.store (fun m => m = lamps) (fun _ => []) (lamps.map Prod.fst)
    lamp where
  index m hm := ⟨lamps, by rw [hm]; rfl, rfl, rfl⟩
  read id hid m hm := ⟨lamps, by rw [hm]; exact read_lamp id hid, rfl, rfl⟩

/-- One lamp is taken and the query started anew, then it is counted and taken as a whole. -/
def takenTwice : List (Call Memory) := [.next, .rewind, .count, .each fun _ => pure (), .toList]

theorem count_agrees_lamps :
    ∃ c, after takenTwice (allLamps, lamps) = (c, lamps) ∧
      c.chain = [] ∧ (count (c, lamps)).1 = (toList (c, lamps)).1.map List.length := by
  have hquiet : ∀ call ∈ [Call.count, .each fun _ => pure (), .toList],
      call.IsQuiet fun m => m = lamps := by
    simp only [List.forall_mem_cons, Call.IsQuiet]
    exact ⟨trivial, fun _ _ hm => hm, trivial, nofun⟩
  have hbegun : (after [.next, .rewind] (allLamps, lamps)).2 = lamps := by cbv
  obtain ⟨⟨c, m⟩, hafter⟩ : ∃ x, after takenTwice (allLamps, lamps) = x := ⟨_, rfl⟩
  obtain rfl : m = lamps := (congrArg Prod.snd hafter).symm.trans (by cbv)
  have hbare : c.chain = [] :=
    (congrArg (fun x => x.1.chain) hafter).symm.trans (by cbv)
  exact ⟨c, hafter, hbare, count_agrees hafter fun _ =>
    ⟨[.next, .rewind], _, rfl, .inr ⟨[.next], rfl⟩, hbegun, steady_lamps, hquiet⟩⟩

/-- All lamps were taken and one is brought in: counting sees it, taking all again does not. Of all
lamps one was taken: counting counts it, taking all does not give it again. -/
theorem count_disagrees :
    let bringIn : Call Memory := .change fun m => (Memory.store.write "d".toText (.object []) m).2
    let grown := after [.toList, bringIn] (allLamps, lamps)
    let begun := after [.next] (allLamps, lamps)
    ((count grown).1, (toList grown).1.map List.length) = (.ok 4, .ok 3) ∧
      ((count begun).1, (toList begun).1.map List.length) = (.ok 3, .ok 2) := by
  constructor
  · cbv
  · cbv

end Cursor

end Cabinet
