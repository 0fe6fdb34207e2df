import Cabinet.Cursor.Basic
import Cabinet.Proofs.Order.Arbitrary
import Cabinet.Proofs.Store.Ensures

/-!
# What pulls keep

Whatever a store does, a pull keeps what is true of the progress as long as each stage does.

* `Ends good bad` : a result that is good, or a failure that is bad in the way expected; `Ends.keeps` : what is
  true in the end, whichever it is;
* `Guards up keeps known bad` : pulls keep `keeps`, give only items that are `known`, and fail only
  in a state that is `bad`;
* `search_guards`, `project_guards`, `collect_guards`, `sortAll_guards`, `offsetBy_guards`,
  `limitTo_guards` : each stage guards what is below it;
* `Progress.Each` : what is true of the stock of each sort and of what is pending;
* `Stage.IsTotal`, `pull_guards`, `drain_guards` : a chain of functions that never fail guards its
  source, and where it fails no sort has a stock;
* `Store.Reads`, `source_listed`, `source_reads` : what a source keeps, and what it gives;
* `pull_keeps`, `drain_keeps` : any chain keeps what its source keeps, also where it fails.
-/

namespace Cabinet

variable {S σ : Type}

/-- A result that is good, or a failure that is bad in the way expected. -/
inductive Ends {α : Type} (good : α → S → σ → Prop) (bad : Failure → S → σ → Prop) :
    Except Failure α × S × σ → Prop where
  | ok {x : α} {p : S} {w : σ} (h : good x p w) : Ends good bad (.ok x, p, w)
  | error {e : Failure} {p : S} {w : σ} (h : bad e p w) : Ends good bad (.error e, p, w)

/-- What a result keeps, good or bad, is true in the end. -/
theorem Ends.keeps {α : Type} {good : α → Prop} {keeps : S → σ → Prop} {r : Except Failure α × S × σ}
    (h : Ends (fun x p w => good x ∧ keeps p w) (fun _ => keeps) r) : keeps r.2.1 r.2.2 := by
  cases h with
  | ok h => exact h.2
  | error h => exact h

/-- From progress in which `keeps` is true, a pull gives a known item, or none, and keeps it true, or
it fails badly. -/
def Guards (up : Pull S σ) (keeps : S → σ → Prop) (known : Item → Prop)
    (bad : Failure → S → σ → Prop) : Prop :=
  ∀ p w, keeps p w → Ends (fun x p w => (∀ i ∈ x, known i) ∧ keeps p w) bad (up p w)

theorem Guards.mono {up : Pull S σ} {keeps : S → σ → Prop} {known known' : Item → Prop}
    {bad bad' : Failure → S → σ → Prop} (h : Guards up keeps known bad)
    (hknown : ∀ x, known x → known' x) (hbad : ∀ e p w, bad e p w → bad' e p w) :
    Guards up keeps known' bad' := by
  intro p w hp
  have hup := h p w hp
  generalize up p w = r at hup ⊢
  cases hup with
  | ok h => exact .ok ⟨fun x hx => hknown x (h.1 x hx), h.2⟩
  | error h => exact .error (hbad _ _ _ h)

theorem known_none {known : Item → Prop} : ∀ i ∈ (none : Option Item), known i :=
  fun _ hi => by cases hi

theorem known_some {known : Item → Prop} {x : Item} (hx : known x) : ∀ i ∈ some x, known i :=
  fun _ hi => Option.some.inj hi ▸ hx

namespace Stage

section Stages
variable {up : Pull S σ} {keeps : S → σ → Prop} {known : Item → Prop}
  {bad : Failure → S → σ → Prop}

/-! ## One stage -/

theorem search_guards (hup : Guards up keeps known bad) {accepts : Predicate}
    (hfails : ∀ x e, known x → accepts x.document = .error e → ∀ p w, keeps p w → bad e p w)
    (fuel : Nat) : Guards (search up accepts fuel) keeps known bad := by
  induction fuel with
  | zero => exact fun p w hp => .ok ⟨known_none, hp⟩
  | succ fuel ih =>
    intro p w hp
    have hpull := hup p w hp
    rw [search]
    generalize up p w = r at hpull ⊢
    cases hpull with
    | error h => exact .error h
    | @ok x p' w' h =>
      obtain ⟨hx, hp'⟩ := h
      cases x with
      | none => exact .ok ⟨known_none, hp'⟩
      | some x =>
        cases ha : accepts x.document with
        | error e =>
          simp only [ha]
          exact .error (hfails x e (hx x rfl) ha p' w' hp')
        | ok b =>
          simp only [ha]
          cases b with
          | true => exact .ok ⟨hx, hp'⟩
          | false => exact ih p' w' hp'

theorem project_guards (hup : Guards up keeps known bad) {transform : Transform}
    (hfails : ∀ x e, known x → transform x.document = .error e → ∀ p w, keeps p w → bad e p w)
    (hknown : ∀ x d, known x → transform x.document = .ok d → known { x with document := d }) :
    Guards (project up transform) keeps known bad := by
  intro p w hp
  have hpull := hup p w hp
  rw [project]
  generalize up p w = r at hpull ⊢
  cases hpull with
  | error h => exact .error h
  | @ok x p' w' h =>
    obtain ⟨hx, hp'⟩ := h
    cases x with
    | none => exact .ok ⟨known_none, hp'⟩
    | some x =>
      cases ht : transform x.document with
      | error e =>
        simp only [ht]
        exact .error (hfails x e (hx x rfl) ht p' w' hp')
      | ok d =>
        simp only [ht]
        exact .ok ⟨known_some (hknown x d (hx x rfl) ht), hp'⟩

theorem collect_guards (hup : Guards up keeps known bad) (fuel : Nat) : ∀ (p : S) (w : σ),
    keeps p w → Ends (fun items p w => (∀ x ∈ items, known x) ∧ keeps p w) bad
      (collect up fuel p w) := by
  induction fuel with
  | zero => exact fun p w hp => .ok ⟨fun _ hx => absurd hx List.not_mem_nil, hp⟩
  | succ fuel ih =>
    intro p w hp
    have hpull := hup p w hp
    rw [collect]
    generalize up p w = r at hpull ⊢
    cases hpull with
    | error h => exact .error h
    | @ok x p' w' h =>
      obtain ⟨hx, hp'⟩ := h
      cases x with
      | none => exact .ok ⟨fun _ hx => absurd hx List.not_mem_nil, hp'⟩
      | some x =>
        have hrest := ih p' w' hp'
        simp only
        generalize collect up fuel p' w' = r at hrest ⊢
        cases hrest with
        | error h => exact .error h
        | ok h => exact .ok ⟨List.forall_mem_cons.mpr ⟨hx x rfl, h.1⟩, h.2⟩

/-- The items in stock are known. -/
def Stocked (known : Item → Prop) (stock : Option (List Item)) : Prop :=
  ∀ items ∈ stock, ∀ x ∈ items, known x

theorem serve_guards {p : S} {w : σ} (hp : keeps p w) {items : List Item}
    (hitems : ∀ x ∈ items, known x) (bad : Failure → Option (List Item) × S → σ → Prop) :
    Ends (fun x q w => (∀ i ∈ x, known i) ∧ Stocked known q.1 ∧ keeps q.2 w) bad
      (serve p w items) := by
  have hstock : ∀ {rest : List Item}, (∀ x ∈ rest, known x) → Stocked known (some rest) := by
    intro rest hrest items hitems
    obtain rfl := Option.some.inj hitems
    exact hrest
  cases items with
  | nil => exact .ok ⟨known_none, hstock hitems, hp⟩
  | cons x rest =>
    obtain ⟨hx, hrest⟩ := List.forall_mem_cons.mp hitems
    exact .ok ⟨known_some hx, hstock hrest, hp⟩

/-- A sort has a stock only once all items have come, so where it fails it has none. -/
theorem sortAll_guards (hup : Guards up keeps known bad) {compare : Comparator}
    (remaining : S → σ → Nat)
    (hfails : ∀ items e, SortOrder.sort Item.document compare items = .error e →
      ∀ p w, keeps p w → bad e p w) :
    Guards (sortAll up remaining compare) (fun q w => Stocked known q.1 ∧ keeps q.2 w) known
      (fun e q w => q.1 = none ∧ bad e q.2 w) := by
  rintro ⟨stock, p⟩ w ⟨hstock, hp⟩
  cases stock with
  | some items => exact serve_guards hp (hstock items rfl) _
  | none =>
    have hcollect := collect_guards hup (remaining p w + 1) p w hp
    rw [sortAll]
    generalize collect up (remaining p w + 1) p w = r at hcollect ⊢
    cases hcollect with
    | error h => exact .error ⟨rfl, h⟩
    | @ok items p' w' h =>
      obtain ⟨hitems, hp'⟩ := h
      cases hsort : SortOrder.sort Item.document compare items with
      | error e =>
        simp only [hsort]
        exact .error ⟨rfl, hfails items e hsort p' w' hp'⟩
      | ok sorted =>
        simp only [hsort]
        exact serve_guards hp' (fun x hx => hitems x ((Order.sort_perm hsort).mem_iff.mp hx)) _

theorem skip_guards (hup : Guards up keeps known bad) (count : Nat) : ∀ (p : S) (w : σ),
    keeps p w → Ends (fun _ p w => keeps p w) bad (skip up count p w) := by
  induction count with
  | zero => exact fun p w hp => .ok hp
  | succ count ih =>
    intro p w hp
    have hpull := hup p w hp
    rw [skip]
    generalize up p w = r at hpull ⊢
    cases hpull with
    | error h => exact .error h
    | @ok x p' w' h =>
      cases x with
      | none => exact .ok h.2
      | some x => exact ih p' w' h.2

theorem offsetBy_guards (hup : Guards up keeps known bad) (count : Int) :
    Guards (offsetBy up count) (fun q w => keeps q.2 w) known (fun e q w => bad e q.2 w) := by
  have hpass : ∀ (p : S) (w : σ), keeps p w →
      Ends (fun x (q : Bool × S) w => (∀ i ∈ x, known i) ∧ keeps q.2 w)
        (fun e q w => bad e q.2 w) ((up p w).1, (true, (up p w).2.1), (up p w).2.2) := by
    intro p w hp
    have hpull := hup p w hp
    generalize up p w = r at hpull ⊢
    cases hpull with
    | error h => exact .error h
    | ok h => exact .ok h
  rintro ⟨ready, p⟩ w hp
  cases ready with
  | true => exact hpass p w hp
  | false =>
    have hskip := skip_guards hup count.toNat p w hp
    simp only [offsetBy, Bool.false_eq_true, if_false]
    generalize skip up count.toNat p w = r at hskip ⊢
    cases hskip with
    | error h => exact .error h
    | @ok all p' w' h =>
      cases all with
      | true => exact hpass p' w' h
      | false => exact .ok ⟨known_none, h⟩

theorem limitTo_guards (hup : Guards up keeps known bad) :
    Guards (limitTo up) (fun q w => keeps q.2 w) known (fun e q w => bad e q.2 w) := by
  rintro ⟨rest, p⟩ w hp
  simp only [limitTo]
  by_cases hrest : rest ≤ 0
  · rw [if_pos hrest]
    exact .ok ⟨known_none, hp⟩
  · rw [if_neg hrest]
    have hpull := hup p w hp
    generalize up p w = r at hpull ⊢
    cases hpull with
    | error h => exact .error h
    | ok h => exact .ok h

end Stages

/-! ## Chains of functions that never fail -/

/-- The function of a stage never fails. -/
def IsTotal : Stage → Prop
  | .condition accepts => ∀ d, ∃ b, accepts d = .ok b
  | .projection transform => ∀ d, ∃ d', transform d = .ok d'
  | .sort compare => ∀ d e, ∃ n, compare d e = .ok n
  | .offset _ | .limit _ => True

/-- A comparator that never fails sorts every list. -/
theorem sort_ok {compare : Comparator} (h : IsTotal (.sort compare)) (items : List Item) :
    ∃ sorted, SortOrder.sort Item.document compare items = .ok sorted := by
  refine Order.sort_ok (fun x y => ?_) items
  obtain ⟨n, hn⟩ := h x.document y.document
  rw [hn]
  exact ⟨_, rfl⟩

end Stage

namespace Progress

/-- Something is true of the stock of each sort, and of the identifiers that are pending. -/
def Each (stock : Option (List Item) → Prop) (pending : Option (List Text) → σ → Prop) :
    (chain : List Stage) → Progress chain → σ → Prop
  | [], p, w => pending p w
  | .condition _ :: rest, p, w => Each stock pending rest p w
  | .projection _ :: rest, p, w => Each stock pending rest p w
  | .sort _ :: rest, q, w => stock q.1 ∧ Each stock pending rest q.2 w
  | .offset _ :: rest, q, w => Each stock pending rest q.2 w
  | .limit _ :: rest, q, w => Each stock pending rest q.2 w

theorem each_mono {stock stock' : Option (List Item) → Prop}
    {pending pending' : Option (List Text) → σ → Prop} {w w' : σ}
    (hstock : ∀ items, stock items → stock' items)
    (hpending : ∀ p, pending p w → pending' p w') : ∀ (chain : List Stage) {p : Progress chain},
    Each stock pending chain p w → Each stock' pending' chain p w'
  | [], p, h => hpending p h
  | .condition _ :: rest, _, h => each_mono hstock hpending rest h
  | .projection _ :: rest, _, h => each_mono hstock hpending rest h
  | .sort _ :: rest, _, h => ⟨hstock _ h.1, each_mono hstock hpending rest h.2⟩
  | .offset _ :: rest, _, h => each_mono hstock hpending rest h
  | .limit _ :: rest, _, h => each_mono hstock hpending rest h

theorem each_rewound {stock : Option (List Item) → Prop}
    {pending : Option (List Text) → σ → Prop} {w : σ} (hstock : stock none)
    (hpending : pending none w) : ∀ chain : List Stage,
    Each stock pending chain (rewound chain) w
  | [] => hpending
  | .condition _ :: rest => each_rewound hstock hpending rest
  | .projection _ :: rest => each_rewound hstock hpending rest
  | .sort _ :: rest => ⟨hstock, each_rewound hstock hpending rest⟩
  | .offset _ :: rest => each_rewound hstock hpending rest
  | .limit _ :: rest => each_rewound hstock hpending rest

end Progress

section Chains
variable {s : Store σ} {idField : Option Text} {pending : Option (List Text) → σ → Prop}
  {known : Item → Prop} {bad : Failure → Option (List Text) → σ → Prop}

open Progress (Each)
open Stage (Stocked)

/-- A chain of functions that never fail guards what its source does. Where the source fails, no sort
on the way has a stock. -/
theorem pull_guards (hsource : Guards (Stage.source s idField) pending known bad)
    (hknown : ∀ x d, known x → known { x with document := d }) : ∀ (chain : List Stage),
    (∀ stage ∈ chain, stage.IsTotal) →
    Guards (pull s idField chain) (Each (Stocked known) pending chain) known
      fun e p w => Each (· = none) (bad e) chain p w
  | [], _ => hsource
  | .condition accepts :: rest, h => by
    obtain ⟨haccepts, hrest⟩ := List.forall_mem_cons.mp h
    intro p w hp
    refine Stage.search_guards (pull_guards hsource hknown rest hrest) (fun x e _ he => ?_) _ p w hp
    obtain ⟨b, hb⟩ := haccepts x.document
    cases hb.symm.trans he
  | .projection transform :: rest, h => by
    obtain ⟨htransform, hrest⟩ := List.forall_mem_cons.mp h
    refine Stage.project_guards (pull_guards hsource hknown rest hrest) (fun x e _ he => ?_)
      fun x d hx _ => hknown x d hx
    obtain ⟨d, hd⟩ := htransform x.document
    cases hd.symm.trans he
  | .sort compare :: rest, h => by
    obtain ⟨hcompare, hrest⟩ := List.forall_mem_cons.mp h
    refine Stage.sortAll_guards (pull_guards hsource hknown rest hrest) _ fun items e he => ?_
    obtain ⟨sorted, hsorted⟩ := Stage.sort_ok hcompare items
    cases hsorted.symm.trans he
  | .offset count :: rest, h =>
    Stage.offsetBy_guards (pull_guards hsource hknown rest (List.forall_mem_cons.mp h).2) count
  | .limit _ :: rest, h =>
    Stage.limitTo_guards (pull_guards hsource hknown rest (List.forall_mem_cons.mp h).2)

theorem drain_guards (hsource : Guards (Stage.source s idField) pending known bad)
    (hknown : ∀ x d, known x → known { x with document := d }) {chain : List Stage}
    (hchain : ∀ stage ∈ chain, stage.IsTotal) {p : Progress chain} {w : σ}
    (hp : Each (Stocked known) pending chain p w) :
    Ends (fun items p w => (∀ x ∈ items, known x) ∧ Each (Stocked known) pending chain p w)
      (fun e p w => Each (· = none) (bad e) chain p w) (drain s idField chain p w) :=
  Stage.collect_guards (pull_guards hsource hknown chain hchain) _ p w hp

end Chains

/-! ## Sources -/

/-- Whatever a store is asked for in a state of a class, it stays in the class, and the documents that
it reads have a property. -/
structure Store.Reads (s : Store σ) (I : σ → Prop) (P : Document → Prop) : Prop where
  index : ∀ w, I w → I (s.index w).2
  read : ∀ id w, I w → I (s.read id w).2
  document : ∀ id w d, I w → (s.read id w).1 = .ok d → P d

/-- The identifiers that are pending are among those of a class, and the state is one of a class. -/
def Pending (listed : Text → Prop) (states : σ → Prop) (pending : Option (List Text)) (w : σ) : Prop :=
  (∀ ids ∈ pending, ∀ id ∈ ids, listed id) ∧ states w

section Sources
variable {s : Store σ} {idField : Option Text} {states : σ → Prop} {known : Item → Prop}

/-- A source stays within the states that listing and reading stay within. -/
theorem source_listed {listed : Text → Prop}
    (hindex : Action.Ensures states s.index fun ids => ∀ id ∈ ids, listed id)
    (hread : ∀ id, listed id → Action.Ensures states (s.read id) fun d =>
      known ⟨id, .object (Stage.embed idField id d)⟩) :
    Guards (Stage.source s idField) (Pending listed states) known fun _ => Pending listed states := by
  have hpending : ∀ {ids : List Text} {w : σ}, (∀ id ∈ ids, listed id) → states w →
      Pending listed states (some ids) w :=
    fun hids hw => ⟨fun _ h => Option.some.inj h ▸ hids, hw⟩
  have hnext : ∀ (ids : List Text) (w : σ), (∀ id ∈ ids, listed id) → states w →
      Ends (fun x p w => (∀ i ∈ x, known i) ∧ Pending listed states p w)
        (fun _ => Pending listed states) (Stage.readNext s idField ids w) := by
    intro ids w hids hw
    cases ids with
    | nil => exact .ok ⟨known_none, hpending hids hw⟩
    | cons id rest =>
      obtain ⟨hid, hrest⟩ := List.forall_mem_cons.mp hids
      obtain ⟨hstate, hdocument⟩ := hread id hid w hw
      rw [Stage.readNext]
      generalize s.read id w = r at hstate hdocument
      rcases r with ⟨_ | d, w'⟩
      · exact .error (hpending hrest hstate)
      · exact .ok ⟨known_some (hdocument d rfl), hpending hrest hstate⟩
  intro pending w hp
  obtain ⟨hids, hw⟩ := hp
  cases pending with
  | some ids => exact hnext ids w (hids ids rfl) hw
  | none =>
    obtain ⟨hstate, hlisted⟩ := hindex w hw
    rw [Stage.source]
    generalize s.index w = r at hstate hlisted
    rcases r with ⟨_ | ids, w'⟩
    · exact .error ⟨fun _ h => (nomatch h), hstate⟩
    · exact hnext ids w' (hlisted ids rfl) hstate

theorem source_reads {I : σ → Prop} {P : Document → Prop} (h : s.Reads I P) (idField : Option Text) :
    Guards (Stage.source s idField) (fun _ w => I w)
      (fun x => ∃ d, P d ∧ x.document = .object (Stage.embed idField x.id d)) fun _ _ w => I w := by
  have hpending : Pending (fun _ => True) I = fun _ w => I w := by
    funext p w
    exact propext (and_iff_right fun _ _ _ _ => trivial)
  rw [← hpending]
  refine source_listed (fun w hw => ⟨h.index w hw, fun _ _ _ _ => trivial⟩) fun id _ w hw => ?_
  exact ⟨h.read id w hw, fun d hd => ⟨d, h.document id w d hw hd, rfl⟩⟩

end Sources

/-! ## Any chain -/

section Any
variable {s : Store σ} {idField : Option Text} {pending : Option (List Text) → σ → Prop}
  {known : Item → Prop}

open Progress (Each)
open Stage (Stocked)

/-- Any chain keeps what its source keeps, also where a function on the way fails. What comes out is
known if the projections make known items of known ones. -/
theorem pull_keeps (hsource : Guards (Stage.source s idField) pending known fun _ => pending) :
    ∀ chain : List Stage, (∀ transform, .projection transform ∈ chain →
      ∀ x d, known x → transform x.document = .ok d → known { x with document := d }) →
    Guards (pull s idField chain) (Each (Stocked known) pending chain) known
      fun _ => Each (Stocked known) pending chain
  | [], _ => hsource
  | .condition accepts :: rest, h => by
    have hrest := pull_keeps hsource rest fun t ht => h t (List.mem_cons_of_mem _ ht)
    intro p w hp
    exact Stage.search_guards hrest (fun _ _ _ _ _ _ hp => hp) _ p w hp
  | .projection transform :: rest, h => by
    have hrest := pull_keeps hsource rest fun t ht => h t (List.mem_cons_of_mem _ ht)
    exact Stage.project_guards hrest (fun _ _ _ _ _ _ hp => hp) (h transform List.mem_cons_self)
  | .sort compare :: rest, h => by
    have hrest := pull_keeps hsource rest fun t ht => h t (List.mem_cons_of_mem _ ht)
    refine (Stage.sortAll_guards hrest _ fun _ _ _ _ _ hp => hp).mono (fun _ hx => hx) ?_
    rintro e ⟨stock, p⟩ w ⟨hstock, hp⟩
    obtain rfl : stock = none := hstock
    exact ⟨fun _ h => (nomatch h), hp⟩
  | .offset count :: rest, h =>
    Stage.offsetBy_guards
      (pull_keeps hsource rest fun t ht => h t (List.mem_cons_of_mem _ ht)) count
  | .limit _ :: rest, h =>
    Stage.limitTo_guards (pull_keeps hsource rest fun t ht => h t (List.mem_cons_of_mem _ ht))

theorem drain_keeps (hsource : Guards (Stage.source s idField) pending known fun _ => pending)
    {chain : List Stage} (hchain : ∀ transform, .projection transform ∈ chain →
      ∀ x d, known x → transform x.document = .ok d → known { x with document := d })
    {p : Progress chain} {w : σ} (hp : Each (Stocked known) pending chain p w) :
    Ends (fun items p w => (∀ x ∈ items, known x) ∧ Each (Stocked known) pending chain p w)
      (fun _ => Each (Stocked known) pending chain) (drain s idField chain p w) :=
  Stage.collect_guards (pull_keeps hsource chain hchain) _ p w hp

end Any

namespace Progress

/-- What is true of the state alone is true whatever the progress. -/
theorem each_state {stock : Option (List Item) → Prop} (hstock : ∀ items, stock items)
    {states : σ → Prop} {w : σ} : ∀ (chain : List Stage) {p : Progress chain},
    Each stock (fun _ => states) chain p w ↔ states w
  | [], _ => .rfl
  | .condition _ :: rest, _ => each_state hstock rest
  | .projection _ :: rest, _ => each_state hstock rest
  | .sort _ :: rest, _ => (and_iff_right (hstock _)).trans (each_state hstock rest)
  | .offset _ :: rest, _ => each_state hstock rest
  | .limit _ :: rest, _ => each_state hstock rest

end Progress

end Cabinet
