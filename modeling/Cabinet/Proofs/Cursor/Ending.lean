import Cabinet.Proofs.Cursor.Paging
import Cabinet.Proofs.Cursor.Resuming

/-!
# Pulling comes to an end, for good

A chain lists the identifiers once and reads behind them one after another, so it runs dry. The loops over a
chain have no bound of their own, and end because it does.

* `Stage.Drains`, `Stage.Seeks` : all items of a chain and a search in it, as loops without a bound;
  `drains_iff`, `seeks_iff` : they end, in what `drain` and a condition give;
* `Stage.RunsDry` : once a pull gave nothing, no later one gives anything; `runsDry_pull` : this is so of
  every chain, whose progress is then `Progress.Dry`;
* `Store.noting` : a store with a record of its answers to listings and of the documents asked for;
* `InOrder`, `source_noted` : a record in which nothing is asked for twice;
* `Turn`, `Turn.after` : pulls, drains and changes of the store, one after another;
* `pulling_ends` : whatever the turns are, and whatever fails in them, the record is in order, each loop ends,
  and a chain that has ended stays so.
-/

namespace Cabinet

variable {S σ : Type}

namespace Stage

/-! ## Loops without a bound -/

/-- All items of a chain, up to its end or to a failure. -/
inductive Drains (up : Pull S σ) : S → σ → Except Failure (List Item) × S × σ → Prop where
  | none {p p' : S} {w w' : σ} (h : up p w = (.ok .none, p', w')) : Drains up p w (.ok [], p', w')
  | failure {e : Failure} {p p' : S} {w w' : σ} (h : up p w = (.error e, p', w')) :
    Drains up p w (.error e, p', w')
  | item {x : Item} {r : Except Failure (List Item)} {p p₁ p' : S} {w w₁ w' : σ}
    (h : up p w = (.ok (some x), p₁, w₁)) (rest : Drains up p₁ w₁ (r, p', w')) :
    Drains up p w (r.map (x :: ·), p', w')

/-- The first item of a chain that is accepted, if one is and nothing fails before it. -/
inductive Seeks (up : Pull S σ) (accepts : Predicate) :
    S → σ → Except Failure (Option Item) × S × σ → Prop where
  | none {p p' : S} {w w' : σ} (h : up p w = (.ok .none, p', w')) :
    Seeks up accepts p w (.ok .none, p', w')
  | failure {e : Failure} {p p' : S} {w w' : σ} (h : up p w = (.error e, p', w')) :
    Seeks up accepts p w (.error e, p', w')
  | undecided {x : Item} {e : Failure} {p p' : S} {w w' : σ} (h : up p w = (.ok (some x), p', w'))
    (hx : accepts x.document = .error e) : Seeks up accepts p w (.error e, p', w')
  | found {x : Item} {p p' : S} {w w' : σ} (h : up p w = (.ok (some x), p', w'))
    (hx : accepts x.document = .ok true) : Seeks up accepts p w (.ok (some x), p', w')
  | next {x : Item} {r : Except Failure (Option Item) × S × σ} {p p₁ : S} {w w₁ : σ}
    (h : up p w = (.ok (some x), p₁, w₁)) (hx : accepts x.document = .ok false)
    (rest : Seeks up accepts p₁ w₁ r) : Seeks up accepts p w r

section Loops
variable {up : Pull S σ} {remaining : S → σ → Nat} {accepts : Predicate}

/-- Where fewer and fewer items remain, the loop ends before the fuel does. -/
theorem drains_collect (hup : Bounds up remaining) : ∀ {fuel : Nat} {p : S} {w : σ},
    remaining p w < fuel → Drains up p w (collect up fuel p w)
  | 0, _, _, hfuel => absurd hfuel (Nat.not_lt_zero _)
  | fuel + 1, p, w, hfuel => by
    rw [Stage.collect]
    rcases hpull : up p w with ⟨_ | _ | x, p₁, w₁⟩
    · exact .failure hpull
    · exact .none hpull
    · have hless := hup.less hpull
      have hrest := drains_collect hup (show remaining p₁ w₁ < fuel by omega)
      simp only
      generalize Stage.collect up fuel p₁ w₁ = r at hrest
      rcases r with ⟨_ | xs, p', w'⟩
      · exact .item hpull hrest
      · exact .item hpull hrest

theorem Drains.eq_collect (hup : Bounds up remaining) {p : S} {w : σ} {r : Except Failure (List Item) × S × σ}
    (h : Drains up p w r) : ∀ {fuel : Nat}, remaining p w ≤ fuel → r = collect up (fuel + 1) p w := by
  induction h with
  | none hpull | failure hpull =>
    intro fuel _
    rw [Stage.collect, hpull]
  | @item x r p p₁ p' w w₁ w' hpull _ ih =>
    intro fuel hfuel
    have hless := hup.less hpull
    obtain ⟨n, rfl⟩ : ∃ n, fuel = n + 1 := ⟨fuel - 1, by omega⟩
    rw [Stage.collect, hpull]
    simp only [← ih (show remaining p₁ w₁ ≤ n by omega)]
    cases r <;> rfl

theorem seeks_search (hup : Bounds up remaining) : ∀ {fuel : Nat} {p : S} {w : σ},
    remaining p w < fuel → Seeks up accepts p w (search up accepts fuel p w)
  | 0, _, _, hfuel => absurd hfuel (Nat.not_lt_zero _)
  | fuel + 1, p, w, hfuel => by
    rw [Stage.search]
    rcases hpull : up p w with ⟨_ | _ | x, p₁, w₁⟩
    · exact .failure hpull
    · exact .none hpull
    · have hless := hup.less hpull
      simp only
      split
      · next hx => exact .found hpull hx
      · next hx => exact .next hpull hx (seeks_search hup (by omega))
      · next hx => exact .undecided hpull hx

theorem Seeks.eq_search (hup : Bounds up remaining) {p : S} {w : σ}
    {r : Except Failure (Option Item) × S × σ} (h : Seeks up accepts p w r) :
    ∀ {fuel : Nat}, remaining p w ≤ fuel → r = search up accepts (fuel + 1) p w := by
  induction h with
  | none hpull | failure hpull =>
    intro fuel _
    rw [Stage.search, hpull]
  | undecided hpull hx | found hpull hx =>
    intro fuel _
    rw [Stage.search, hpull]
    simp only [hx]
  | next hpull hx _ ih =>
    intro fuel hfuel
    have hless := hup.less hpull
    obtain ⟨n, rfl⟩ : ∃ n, fuel = n + 1 := ⟨fuel - 1, by omega⟩
    rw [Stage.search, hpull]
    simp only [hx]
    exact ih (by omega)

end Loops

end Stage

section Chains
variable {s : Store σ} {idField : Option Text} {chain : List Stage}

/-- Draining a chain is the loop without a bound. -/
theorem drains_iff {p : Progress chain} {w : σ} {r : Except Failure (List Item) × Progress chain × σ} :
    Stage.Drains (pull s idField chain) p w r ↔ r = drain s idField chain p w := by
  have hbounds : Stage.Bounds (pull s idField chain) _ := bounds_pull chain
  constructor
  · exact fun h => h.eq_collect hbounds (Nat.le_refl _)
  · rintro rfl
    exact Stage.drains_collect hbounds (Nat.lt_succ_self _)

/-- So is the search of a condition in front of it. -/
theorem seeks_iff {accepts : Predicate} {p : Progress chain} {w : σ}
    {r : Except Failure (Option Item) × Progress chain × σ} :
    Stage.Seeks (pull s idField chain) accepts p w r ↔ r = pull s idField (.condition accepts :: chain) p w := by
  have hbounds : Stage.Bounds (pull s idField chain) _ := bounds_pull chain
  constructor
  · exact fun h => h.eq_search hbounds (Nat.le_refl _)
  · rintro rfl
    exact Stage.seeks_search hbounds (Nat.lt_succ_self _)

end Chains

/-! ## Chains that have run dry -/

namespace Stage

/-- Once a pull gave nothing the progress is dry, and in dry progress no pull gives anything, nor asks for
anything. -/
structure RunsDry (up : Pull S σ) (dry : S → Prop) : Prop where
  ends : ∀ {p w p' w'}, up p w = (.ok none, p', w') → dry p'
  stays : ∀ {p} w, dry p → ∃ p', up p w = (.ok none, p', w) ∧ dry p'

section Dry
variable {up : Pull S σ} {remaining : S → σ → Nat} {dry : S → Prop}

theorem Seeks.ended (hup : RunsDry up dry) {accepts : Predicate} {p : S} {w : σ}
    {r : Except Failure (Option Item) × S × σ} (h : Seeks up accepts p w r) (hr : r.1 = .ok .none) :
    dry r.2.1 := by
  induction h with
  | none hpull => exact hup.ends hpull
  | failure | undecided | found => cases hr
  | next _ _ _ ih => exact ih hr

theorem RunsDry.search (hup : RunsDry up dry) (hbounds : Bounds up remaining) (accepts : Predicate) :
    RunsDry (fun p w => search up accepts (remaining p w + 1) p w) dry where
  ends {p w p' w'} h := by
    have hseeks : Seeks up accepts p w (Stage.search up accepts (remaining p w + 1) p w) :=
      seeks_search hbounds (Nat.lt_succ_self _)
    rw [h] at hseeks
    exact hseeks.ended hup rfl
  stays {p} w hp := by
    obtain ⟨p', hpull, hp'⟩ := hup.stays w hp
    refine ⟨p', ?_, hp'⟩
    simp only [Stage.search, hpull]

theorem RunsDry.project (hup : RunsDry up dry) (transform : Transform) :
    RunsDry (project up transform) dry where
  ends {p w p' w'} h := by
    obtain ⟨x, hpull, hx, -⟩ := project_ok h
    obtain rfl := Option.map_eq_none_iff.mp hx.symm
    exact hup.ends hpull
  stays {p} w hp := by
    obtain ⟨p', hpull, hp'⟩ := hup.stays w hp
    refine ⟨p', ?_, hp'⟩
    rw [Stage.project, hpull]

/-- A sort has run dry when its stock is empty, or when it has none and what is below has run dry. -/
def SortDry (dry : S → Prop) (q : Option (List Item) × S) : Prop :=
  q.1 = some [] ∨ q.1 = none ∧ dry q.2

theorem RunsDry.sortAll (hup : RunsDry up dry) (remaining : S → σ → Nat) (compare : Comparator) :
    RunsDry (sortAll up remaining compare) (SortDry dry) := by
  have hserve : ∀ {p : S} {w : σ} {stock : List Item} {q : Option (List Item) × S} {w' : σ},
      serve p w stock = (.ok none, q, w') → SortDry dry q := by
    intro p w stock q w' h
    cases stock with
    | nil =>
      cases h
      exact .inl rfl
    | cons x stock => cases h
  constructor
  · rintro ⟨_ | stock, p⟩ w q w' h
    · rw [Stage.sortAll] at h
      rcases hcollect : Stage.collect up (remaining p w + 1) p w with ⟨_ | xs, p₁, w₁⟩
      · rw [hcollect] at h
        cases h
      · simp only [hcollect] at h
        split at h
        · cases h
        · exact hserve h
    · exact hserve h
  · rintro ⟨_ | stock, p⟩ w (hstock | ⟨hstock, hp⟩)
    · cases hstock
    · obtain ⟨p', hpull, -⟩ := hup.stays w hp
      refine ⟨(some [], p'), ?_, .inl rfl⟩
      rw [Stage.sortAll, Stage.collect, hpull]
      rfl
    · obtain rfl := Option.some.inj hstock
      exact ⟨(some [], p), rfl, .inl rfl⟩
    · cases hstock

/-- Too few items can only be left out if what is below has run dry. -/
theorem RunsDry.skip (hup : RunsDry up dry) : ∀ {count : Nat} {p p' : S} {w w' : σ},
    skip up count p w = (.ok false, p', w') → dry p'
  | 0, _, _, _, _, h => by cases h
  | count + 1, p, p', w, w', h => by
    rw [Stage.skip] at h
    rcases hpull : up p w with ⟨_ | _ | x, p₁, w₁⟩
    · rw [hpull] at h
      cases h
    · rw [hpull] at h
      cases h
      exact hup.ends hpull
    · simp only [hpull] at h
      exact hup.skip h

theorem RunsDry.offsetBy (hup : RunsDry up dry) (count : Int) :
    RunsDry (offsetBy up count) fun q => dry q.2 := by
  constructor
  · rintro ⟨ready, p⟩ w ⟨ready', p'⟩ w' h
    rw [Stage.offsetBy] at h
    cases ready with
    | true =>
      simp only [if_true] at h
      rcases hpull : up p w with ⟨r, p₁, w₁⟩
      rw [hpull] at h
      cases h
      exact hup.ends hpull
    | false =>
      simp only [Bool.false_eq_true, if_false] at h
      rcases hskip : Stage.skip up count.toNat p w with ⟨_ | _ | _, p₁, w₁⟩
      · simp only [hskip] at h
        cases h
      · simp only [hskip] at h
        cases h
        exact hup.skip hskip
      · simp only [hskip] at h
        rcases hpull : up p₁ w₁ with ⟨r, p₂, w₂⟩
        rw [hpull] at h
        cases h
        exact hup.ends hpull
  · rintro ⟨ready, p⟩ w hp
    obtain ⟨p', hpull, hp'⟩ := hup.stays w hp
    rw [Stage.offsetBy]
    cases ready with
    | true => exact ⟨(true, p'), by simp only [if_true, hpull], hp'⟩
    | false =>
      simp only [Bool.false_eq_true, if_false]
      cases count.toNat with
      | zero => exact ⟨(true, p'), by simp only [Stage.skip, hpull], hp'⟩
      | succ n => exact ⟨(false, p'), by simp only [Stage.skip, hpull], hp'⟩

theorem RunsDry.limitTo (hup : RunsDry up dry) : RunsDry (limitTo up) fun q => q.1 ≤ 0 ∨ dry q.2 := by
  constructor
  · rintro ⟨left, p⟩ w ⟨left', p'⟩ w' h
    rw [Stage.limitTo] at h
    split at h
    · next hleft =>
      cases h
      exact .inl hleft
    · rcases hpull : up p w with ⟨r, p₁, w₁⟩
      rw [hpull] at h
      cases h
      exact .inr (hup.ends hpull)
  · rintro ⟨left, p⟩ w hq
    rw [Stage.limitTo]
    by_cases hleft : left ≤ 0
    · exact ⟨(left, p), if_pos hleft, .inl hleft⟩
    · obtain ⟨p', hpull, hp'⟩ := hup.stays w (hq.resolve_left hleft)
      exact ⟨(left - 1, p'), by rw [if_neg hleft, hpull], .inr hp'⟩

end Dry

end Stage

/-- Nothing can come out of the chain any more. -/
def Progress.Dry : (chain : List Stage) → Progress chain → Prop
  | [], pending => pending = some []
  | .condition _ :: rest, p => Dry rest p
  | .projection _ :: rest, p => Dry rest p
  | .sort _ :: rest, q => Stage.SortDry (Dry rest) q
  | .offset _ :: rest, q => Dry rest q.2
  | .limit _ :: rest, q => q.1 ≤ 0 ∨ Dry rest q.2

section Chains
variable {s : Store σ} {idField : Option Text}

open Progress (Dry)

theorem runsDry_source (s : Store σ) (idField : Option Text) :
    Stage.RunsDry (Stage.source s idField) fun pending => pending = some [] := by
  have hnext : ∀ {ids : List Text} {w : σ} {p' w'},
      Stage.readNext s idField ids w = (.ok none, p', w') → p' = some [] := by
    intro ids w p' w' h
    cases ids with
    | nil =>
      cases h
      rfl
    | cons id ids =>
      rw [Stage.readNext] at h
      split at h <;> cases h
  constructor
  · rintro (_ | ids) w p' w' h
    · rw [Stage.source] at h
      rcases hindex : s.index w with ⟨_ | ids, w₁⟩
      · rw [hindex] at h
        cases h
      · rw [hindex] at h
        exact hnext h
    · exact hnext h
  · rintro _ w rfl
    exact ⟨some [], rfl, rfl⟩

theorem runsDry_pull (s : Store σ) (idField : Option Text) :
    ∀ chain : List Stage, Stage.RunsDry (pull s idField chain) (Dry chain)
  | [] => runsDry_source s idField
  | .condition accepts :: rest => (runsDry_pull s idField rest).search (bounds_pull rest) accepts
  | .projection transform :: rest => (runsDry_pull s idField rest).project transform
  | .sort compare :: rest => (runsDry_pull s idField rest).sortAll _ compare
  | .offset count :: rest => (runsDry_pull s idField rest).offsetBy count
  | .limit _ :: rest => (runsDry_pull s idField rest).limitTo

/-- Taking all items leaves the chain dry. -/
theorem dry_of_drain {chain : List Stage} {p p' : Progress chain} {w w' : σ} {xs : List Item}
    (h : drain s idField chain p w = (.ok xs, p', w')) : Dry chain p' := by
  have hgives := drain_iff.mp h
  clear h
  induction hgives with
  | none hpull => exact (runsDry_pull s idField chain).ends hpull
  | item _ _ ih => exact ih

theorem drain_dry (s : Store σ) (idField : Option Text) {chain : List Stage} {p : Progress chain}
    (hp : Dry chain p) (w : σ) : ∃ p', drain s idField chain p w = (.ok [], p', w) ∧ Dry chain p' := by
  obtain ⟨p', hpull, hp'⟩ := (runsDry_pull s idField chain).stays w hp
  exact ⟨p', drain_iff.mpr (.none hpull), hp'⟩

end Chains

/-! ## A record of what is asked for -/

/-- What a store was asked for: the identifiers, with the answer, or a document. -/
inductive Asked where
  | index (answer : Except Failure (List Text))
  | read (id : Text)

/-- The store with a record of what a cursor asks it for. -/
def Store.noting (s : Store σ) : Store (σ × List Asked) :=
  { s.focus Prod.fst fun w x => (w, x.2) with
    index := fun x => let (r, w) := s.index x.1; (r, w, x.2 ++ [.index r])
    read := fun id x => let (r, w) := s.read id x.1; (r, w, x.2 ++ [.read id]) }

/-- Listings that failed. -/
def refusals (failures : List Failure) : List Asked := failures.map fun e => .index (.error e)

/-- After listings that failed, the identifiers were listed once, and from then on only documents were asked
for: those of the first identifiers, one after another. -/
def InOrder (record : List Asked) : Prop :=
  ∃ failures, record = refusals failures ∨
    ∃ ids start, start <+: ids ∧ record = refusals failures ++ .index (.ok ids) :: start.map .read

/-- What is pending tells what was asked for: nothing but listings that failed, or the identifiers in front of
what is left. -/
def Noted : Option (List Text) → σ × List Asked → Prop
  | none, x => ∃ failures, x.2 = refusals failures
  | some left, x => ∃ failures taken,
    x.2 = refusals failures ++ .index (.ok (taken ++ left)) :: taken.map .read

theorem Noted.inOrder {pending : Option (List Text)} {x : σ × List Asked} (h : Noted pending x) :
    InOrder x.2 := by
  cases pending with
  | none =>
    obtain ⟨failures, hx⟩ := h
    exact ⟨failures, .inl hx⟩
  | some left =>
    obtain ⟨failures, taken, hx⟩ := h
    exact ⟨failures, .inr ⟨taken ++ left, taken, List.prefix_append taken left, hx⟩⟩

theorem readNext_noted {s : Store σ} {idField : Option Text} {ids : List Text} {x : σ × List Asked}
    (hx : Noted (some ids) x) : Ends (fun y p x => (∀ i ∈ y, True) ∧ Noted p x) (fun _ => Noted)
      (Stage.readNext s.noting idField ids x) := by
  cases ids with
  | nil => exact .ok ⟨known_none, hx⟩
  | cons id rest =>
    obtain ⟨failures, taken, hrecord⟩ := hx
    have hread : ∀ w : σ, Noted (some rest) (w, x.2 ++ [Asked.read id]) := fun w =>
      ⟨failures, taken ++ [id], by simp [hrecord]⟩
    rw [Stage.readNext]
    simp only [Store.noting]
    rcases s.read id x.1 with ⟨_ | d, w⟩
    · exact .error (hread w)
    · exact .ok ⟨fun _ _ => trivial, hread w⟩

/-- Whatever the store does, its source asks for the identifiers until it has them, and then for one document
after another. -/
theorem source_noted (s : Store σ) (idField : Option Text) :
    Guards (Stage.source s.noting idField) Noted (fun _ => True) fun _ => Noted := by
  rintro (_ | ids) x hx
  · obtain ⟨failures, hrecord⟩ := hx
    rw [Stage.source]
    simp only [Store.noting]
    rcases s.index x.1 with ⟨e | ids, w⟩
    · exact .error ⟨failures ++ [e], by simp [hrecord, refusals]⟩
    · exact readNext_noted ⟨failures, [], by simp [hrecord]⟩
  · exact readNext_noted hx

/-! ## Turns -/

/-- What becomes of a chain: a pull, a drain, or a change that something else makes to the store. -/
inductive Turn (σ : Type) where
  | pull
  | drain
  | change (f : σ → σ)

namespace Turn

/-- The progress of a chain and the state of its store after a turn, also where that fails. -/
def run (s : Store σ) (idField : Option Text) (chain : List Stage) :
    Turn σ → Progress chain × σ → Progress chain × σ
  | pull, (p, w) => (Cabinet.pull s idField chain p w).2
  | drain, (p, w) => (Cabinet.drain s idField chain p w).2
  | change f, (p, w) => (p, f w)

/-- The same after some turns. -/
def after (s : Store σ) (idField : Option Text) (chain : List Stage) (turns : List (Turn σ))
    (x : Progress chain × σ) : Progress chain × σ :=
  turns.foldl (fun x turn => turn.run s idField chain x) x

/-- The turn over the store with a record, which something else leaves alone. -/
def noted : Turn σ → Turn (σ × List Asked)
  | pull => pull
  | drain => drain
  | change f => change fun x => (f x.1, x.2)

open Progress (Each)
open Stage (Stocked)

section Keeping
variable {s : Store σ} {idField : Option Text} {chain : List Stage}

/-- What each turn keeps is kept by all of them. -/
theorem after_keeps (s : Store σ) (idField : Option Text) {P : Progress chain × σ → Prop}
    {turns : List (Turn σ)} (hrun : ∀ turn ∈ turns, ∀ x, P x → P (turn.run s idField chain x)) :
    ∀ x, P x → P (after s idField chain turns x) := by
  induction turns with
  | nil => exact fun _ h => h
  | cons turn turns ih =>
    obtain ⟨hturn, hturns⟩ := List.forall_mem_cons.mp hrun
    exact fun x h => ih hturns _ (hturn x h)

/-- A chain that has run dry stays so. -/
theorem run_dry (turn : Turn σ) {x : Progress chain × σ} (hx : Progress.Dry chain x.1) :
    Progress.Dry chain (turn.run s idField chain x).1 := by
  obtain ⟨p, w⟩ := x
  cases turn with
  | pull =>
    obtain ⟨p', hpull, hp'⟩ := (runsDry_pull s idField chain).stays w hx
    rw [run, hpull]
    exact hp'
  | drain =>
    obtain ⟨p', hdrain, hp'⟩ := drain_dry s idField hx w
    rw [run, hdrain]
    exact hp'
  | change f => exact hx

theorem run_noted (turn : Turn σ) {x : Progress chain × σ × List Asked}
    (hx : Each (Stocked fun _ => True) Noted chain x.1 x.2) :
    Each (Stocked fun _ => True) Noted chain (turn.noted.run s.noting idField chain x).1
      (turn.noted.run s.noting idField chain x).2 := by
  obtain ⟨p, w⟩ := x
  cases turn with
  | pull =>
    have hpull := pull_keeps (source_noted s idField) chain (fun _ _ _ _ _ _ => trivial) p w hx
    exact hpull.keeps
  | drain =>
    have hdrain := drain_keeps (source_noted s idField) (fun _ _ _ _ _ _ => trivial) hx
    exact hdrain.keeps
  | change f =>
    refine Progress.each_mono (fun _ h => h) (fun pending h => ?_) chain hx
    cases pending <;> exact h

end Keeping

/-! ## Pulling ends -/

/-- A chain of any stages over any store is pulled and drained, while something else changes the store, and
whatever asks or is asked may fail. From its start on, the identifiers are listed successfully once at most, and
the documents of this list are asked for in order, each at most once. Draining it and searching in it end, also
as loops without a bound. And once a pull gave nothing or all items were taken, no later pull gives anything. -/
theorem pulling_ends (s : Store σ) (idField : Option Text) (chain : List Stage) :
    (∀ (turns : List (Turn σ)) (w : σ), InOrder (after s.noting idField chain (turns.map noted)
      (Progress.rewound chain, w, [])).2.2) ∧
    (∀ p w r, Stage.Drains (Cabinet.pull s idField chain) p w r ↔ r = Cabinet.drain s idField chain p w) ∧
    (∀ accepts p w r, Stage.Seeks (Cabinet.pull s idField chain) accepts p w r ↔
      r = Cabinet.pull s idField (.condition accepts :: chain) p w) ∧
    ∀ p w p' w', Cabinet.pull s idField chain p w = (.ok none, p', w') ∨
        (∃ xs, Cabinet.drain s idField chain p w = (.ok xs, p', w')) →
      ∀ (turns : List (Turn σ)) q v, after s idField chain turns (p', w') = (q, v) →
        (Cabinet.pull s idField chain q v).1 = .ok none := by
  refine ⟨fun turns w => ?_, fun _ _ _ => drains_iff, fun _ _ _ _ => seeks_iff,
    fun p w p' w' h turns q v hafter => ?_⟩
  · have hstart : Each (Stocked fun _ => True) Noted chain (Progress.rewound chain) (w, []) :=
      Progress.each_rewound (fun _ h => (nomatch h)) ⟨[], rfl⟩ chain
    have hruns : ∀ turn ∈ turns.map noted, ∀ x, Each (Stocked fun _ => True) Noted chain x.1 x.2 →
        Each (Stocked fun _ => True) Noted chain (turn.run s.noting idField chain x).1
          (turn.run s.noting idField chain x).2 := by
      rintro _ hturn x hx
      obtain ⟨turn, -, rfl⟩ := List.mem_map.mp hturn
      exact run_noted turn hx
    have hafter := after_keeps s.noting idField hruns (Progress.rewound chain, w, []) hstart
    obtain ⟨pending, hpending, -⟩ := Progress.exists_pending chain hafter
    exact hpending.inOrder
  · have hdry : Progress.Dry chain p' := by
      rcases h with hpull | ⟨xs, hdrain⟩
      · exact (runsDry_pull s idField chain).ends hpull
      · exact dry_of_drain hdrain
    have hstays : Progress.Dry chain (after s idField chain turns (p', w')).1 :=
      after_keeps s idField (P := fun x => Progress.Dry chain x.1) (fun turn _ _ => run_dry turn)
        (p', w') hdry
    rw [hafter] at hstays
    obtain ⟨q', hpull, -⟩ := (runsDry_pull s idField chain).stays v hstays
    rw [hpull]

/-! ## A lamp that is on -/

/-- The lamps that are on, among the first two lamps. -/
def firstLit : List Stage :=
  [.condition (Condition.meets [(.text "on".toText, .bool true)]), .limit 2]

/-- The lamps are read, but one of them is taken away in between, and then there are other lamps. -/
def evening : List (Turn Memory) :=
  [.pull, .change fun m => m.drop 1, .drain, .change fun _ => Cursor.lamps ++ [("d".toText, "\x7b\x7d".toText)]]

theorem pulling_ends_lamps :
    InOrder (after Memory.store.noting none firstLit (evening.map noted)
      (Progress.rewound firstLit, Cursor.lamps, [])).2.2 ∧
    ∃ p m, Cabinet.drain Memory.store none firstLit (Progress.rewound firstLit) Cursor.lamps =
        (.ok [⟨"a".toText, .object (Cursor.lamp "a".toText)⟩], p, m) ∧
      ∀ q v, after Memory.store none firstLit evening (p, m) = (q, v) →
        (Cabinet.pull Memory.store none firstLit q v).1 = .ok none := by
  obtain ⟨horder, -, -, hends⟩ := pulling_ends Memory.store none firstLit
  have hlit : (Cabinet.drain Memory.store none firstLit (Progress.rewound firstLit) Cursor.lamps).1 =
      .ok [⟨"a".toText, .object (Cursor.lamp "a".toText)⟩] := by
    rw [firstLit]
    cbv
  rcases hdrain : Cabinet.drain Memory.store none firstLit (Progress.rewound firstLit) Cursor.lamps with
    ⟨r, p, m⟩
  rw [hdrain] at hlit
  obtain rfl : r = .ok _ := hlit
  exact ⟨horder evening Cursor.lamps, p, m, rfl, fun q v => hends _ _ p m (.inr ⟨_, hdrain⟩) evening q v⟩

end Turn

end Cabinet
