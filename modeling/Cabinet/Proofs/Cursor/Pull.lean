import Cabinet.Proofs.Cursor.Answer

/-!
# What a chain still has to give

Every stage hides some progress, but all that progress stands for one list: the items that are
still to come. A pull takes the head of that list and leaves its tail, under any nesting of stages.

* `Served` : the result of a pull, by what was to come before it;
* `Serves up toCome sound failed` : from sound progress, `up` takes the head of `toCome`;
* `search_serves`, `project_serves`, `sortAll_serves`, `offsetBy_serves`, `limitTo_serves` : each
  stage serves its list if what is below serves its own;
* `Outlook`, `Answers` : what is known of a store's states, and a store that answers accordingly;
* `Progress.toCome`, `Progress.Sound`, `pull_serves` : the same of a whole chain;
* `drain_drained` : draining gives all that is to come.
-/

namespace Cabinet

variable {S σ : Type}

/-- The result of a pull: nothing if nothing was to come, the first item if one was, or a failure
that may be. -/
inductive Served (toCome : S → List Item) (sound : S → σ → Prop) (failed : Failure → σ → Prop)
    (p : S) : Except Failure (Option Item) × S × σ → Prop where
  | none {p' : S} {w' : σ} (before : toCome p = []) (after : toCome p' = []) (keeps : sound p' w') :
    Served toCome sound failed p (.ok .none, p', w')
  | item {x : Item} {p' : S} {w' : σ} (before : toCome p = x :: toCome p') (keeps : sound p' w') :
    Served toCome sound failed p (.ok (some x), p', w')
  | failure {e : Failure} {p' : S} {w' : σ} (may : failed e w') :
    Served toCome sound failed p (.error e, p', w')

/-- From sound progress a pull takes the first of the items that are to come. -/
def Serves (up : Pull S σ) (toCome : S → List Item) (sound : S → σ → Prop)
    (failed : Failure → σ → Prop) : Prop :=
  ∀ p w, sound p w → Served toCome sound failed p (up p w)

/-- The result of pulling all items: all that was to come, or a failure that may be. -/
inductive Drained (toCome : S → List Item) (sound : S → σ → Prop) (failed : Failure → σ → Prop)
    (p : S) : Except Failure (List Item) × S × σ → Prop where
  | items {p' : S} {w' : σ} (after : toCome p' = []) (keeps : sound p' w') :
    Drained toCome sound failed p (.ok (toCome p), p', w')
  | failure {e : Failure} {p' : S} {w' : σ} (may : failed e w') :
    Drained toCome sound failed p (.error e, p', w')

/-- Where nothing fails, a pull gives the head of what was to come and leaves its tail. -/
theorem Served.of_never {toCome : S → List Item} {sound : S → σ → Prop}
    {failed : Failure → σ → Prop} {p : S} {r : Except Failure (Option Item) × S × σ}
    (h : Served toCome sound failed p r) (hnever : ∀ e w, ¬ failed e w) :
    ∃ p' w', r = (.ok (toCome p).head?, p', w') ∧ toCome p' = (toCome p).tail ∧ sound p' w' := by
  cases h with
  | @none p' w' before after keeps =>
    exact ⟨p', w', by rw [before]; rfl, by rw [after, before]; rfl, keeps⟩
  | @item x p' w' before keeps => exact ⟨p', w', by rw [before]; rfl, by rw [before]; rfl, keeps⟩
  | failure may => exact absurd may (hnever _ _)

/-- Where nothing fails, draining gives all that was to come. -/
theorem Drained.of_never {toCome : S → List Item} {sound : S → σ → Prop}
    {failed : Failure → σ → Prop} {p : S} {r : Except Failure (List Item) × S × σ}
    (h : Drained toCome sound failed p r) (hnever : ∀ e w, ¬ failed e w) :
    ∃ p' w', r = (.ok (toCome p), p', w') ∧ toCome p' = [] ∧ sound p' w' := by
  cases h with
  | @items p' w' after keeps => exact ⟨p', w', rfl, after, keeps⟩
  | failure may => exact absurd may (hnever _ _)

/-- What is known of all items to come stays known, as pulls only take from them. -/
theorem Serves.within {up : Pull S σ} {toCome : S → List Item} {sound : S → σ → Prop}
    {failed : Failure → σ → Prop} (h : Serves up toCome sound failed) (known : Item → Prop) :
    Serves up toCome (fun p w => sound p w ∧ ∀ x ∈ toCome p, known x) failed := by
  rintro p w ⟨hp, hknown⟩
  have hpull := h p w hp
  generalize up p w = r at hpull ⊢
  cases hpull with
  | none before after keeps => exact .none before after ⟨keeps, by simp [after]⟩
  | failure may => exact .failure may
  | @item x p' w' before keeps =>
    rw [before] at hknown
    exact .item before ⟨keeps, (List.forall_mem_cons.mp hknown).2⟩

namespace Stage

section Stages
variable {up : Pull S σ} {toCome : S → List Item} {sound : S → σ → Prop}
  {failed : Failure → σ → Prop} {known : Item → Prop}

/-! ## Stages on documents -/

/-- A function on known documents only fails where the store may fail in the same way. -/
def FailsAs (sound : S → σ → Prop) (failed : Failure → σ → Prop) (known : Item → Prop) {α : Type}
    (f : Value → Except Failure α) : Prop :=
  ∀ x, known x → ∀ e, f x.document = .error e → ∀ p w, sound p w → failed e w

/-- Each round of the search either ends it or leaves one item fewer to come. -/
theorem search_served (hup : Serves up toCome sound failed) {accepts : Predicate}
    (hknown : ∀ p w, sound p w → ∀ x ∈ toCome p, known x)
    (hfails : FailsAs sound failed known accepts) : ∀ (fuel : Nat) (p : S) (w : σ), sound p w →
    (toCome p).length < fuel → Served (fun p => onList (.condition accepts) (toCome p)) sound failed
      p (search up accepts fuel p w)
  | 0, p, w, _, hfuel => absurd hfuel (by omega)
  | fuel + 1, p, w, hp, hfuel => by
    have hpull := hup p w hp
    rw [search]
    generalize up p w = r at hpull ⊢
    cases hpull with
    | none before after keeps => exact .none (by rw [before]; rfl) (by rw [after]; rfl) keeps
    | failure may => exact .failure may
    | @item x p' w' before keeps =>
      have hx : known x := hknown p w hp x (by simp [before])
      rw [before, List.length_cons] at hfuel
      cases ha : accepts x.document with
      | error e =>
        simp only [ha]
        exact .failure (hfails x hx e ha p' w' keeps)
      | ok b =>
        cases b with
        | true =>
          simp only [ha]
          exact .item (by simp [before, onList, accepted, ha, Except.toOption]) keeps
        | false =>
          simp only [ha]
          have hskip : onList (.condition accepts) (toCome p) =
              onList (.condition accepts) (toCome p') := by
            simp [before, onList, accepted, ha, Except.toOption]
          have hrest := search_served hup hknown hfails fuel p' w' keeps (by omega)
          generalize search up accepts fuel p' w' = r at hrest ⊢
          cases hrest with
          | none before after keeps => exact .none (hskip.trans before) after keeps
          | item before keeps => exact .item (hskip.trans before) keeps
          | failure may => exact .failure may

theorem search_serves (hup : Serves up toCome sound failed) {accepts : Predicate}
    {remaining : S → σ → Nat} (hremaining : ∀ p w, sound p w → (toCome p).length ≤ remaining p w)
    (hknown : ∀ p w, sound p w → ∀ x ∈ toCome p, known x)
    (hfails : FailsAs sound failed known accepts) :
    Serves (fun p w => search up accepts (remaining p w + 1) p w)
      (fun p => onList (.condition accepts) (toCome p)) sound failed := fun p w hp =>
  search_served hup hknown hfails _ p w hp (Nat.lt_succ_of_le (hremaining p w hp))

theorem project_serves (hup : Serves up toCome sound failed) {transform : Transform}
    (hknown : ∀ p w, sound p w → ∀ x ∈ toCome p, known x)
    (hfails : FailsAs sound failed known transform) :
    Serves (project up transform) (fun p => onList (.projection transform) (toCome p)) sound
      failed := by
  intro p w hp
  have hpull := hup p w hp
  rw [project]
  generalize up p w = r at hpull ⊢
  cases hpull with
  | none before after keeps => exact .none (by simp [before, onList]) (by simp [after, onList]) keeps
  | failure may => exact .failure may
  | @item x p' w' before keeps =>
    have hx : known x := hknown p w hp x (by simp [before])
    cases ht : transform x.document with
    | error e =>
      simp only [ht]
      exact .failure (hfails x hx e ht p' w' keeps)
    | ok d =>
      simp only [ht]
      refine .item ?_ keeps
      simp [before, onList, Item.projected, made, ht, Except.toOption]

/-! ## Stages on the list -/

/-- Pulling all items takes one item in each round. -/
theorem collect_drained (hup : Serves up toCome sound failed) : ∀ (fuel : Nat) (p : S) (w : σ),
    sound p w → (toCome p).length < fuel → Drained toCome sound failed p (collect up fuel p w)
  | 0, p, w, _, hfuel => absurd hfuel (by omega)
  | fuel + 1, p, w, hp, hfuel => by
    have hpull := hup p w hp
    rw [collect]
    generalize up p w = r at hpull ⊢
    cases hpull with
    | none before after keeps => exact before ▸ .items after keeps
    | failure may => exact .failure may
    | @item x p' w' before keeps =>
      rw [before, List.length_cons] at hfuel
      have hrest := collect_drained hup fuel p' w' keeps (by omega)
      simp only
      generalize collect up fuel p' w' = r at hrest ⊢
      cases hrest with
      | failure may => exact .failure may
      | items after keeps =>
        simp only [← before]
        exact .items after keeps

/-- The items to come behind a sort: its stock, or once it is asked all from below. -/
def sortToCome (toCome : S → List Item) (compare : Comparator) :
    Option (List Item) × S → List Item
  | (some stock, _) => stock
  | (none, p) => onList (.sort compare) (toCome p)

theorem sortAll_serves (hup : Serves up toCome sound failed) {compare : Comparator}
    {remaining : S → σ → Nat} (hremaining : ∀ p w, sound p w → (toCome p).length ≤ remaining p w)
    (hknown : ∀ p w, sound p w → ∀ x ∈ toCome p, known x)
    (horder : Comparator.IsPreorder compare fun d => ∃ x, known x ∧ x.document = d) :
    Serves (sortAll up remaining compare) (sortToCome toCome compare)
      (fun q w => sound q.2 w) failed := by
  have hserve : ∀ (p : S) (w : σ) (items : List Item) (q : Option (List Item) × S), sound p w →
      sortToCome toCome compare q = items →
      Served (sortToCome toCome compare) (fun q w => sound q.2 w) failed q (serve p w items) := by
    intro p w items q hp hq
    cases items with
    | nil => exact .none hq rfl hp
    | cons x rest => exact .item hq hp
  rintro ⟨stock, p⟩ w hp
  cases stock with
  | some items => exact hserve p w items _ hp rfl
  | none =>
    have hall := collect_drained hup (remaining p w + 1) p w hp
      (Nat.lt_succ_of_le (hremaining p w hp))
    have hsort := sort_eq horder (toCome p) fun x hx => ⟨x, hknown p w hp x hx, rfl⟩
    simp only [sortAll]
    generalize collect up (remaining p w + 1) p w = r at hall ⊢
    cases hall with
    | failure may => exact .failure may
    | items after keeps =>
      simp only [hsort]
      exact hserve _ _ _ _ keeps rfl

/-- The result of leaving out items: whether all of them came, or a failure that may be. -/
inductive Skipped (toCome : S → List Item) (sound : S → σ → Prop) (failed : Failure → σ → Prop)
    (p : S) (count : Nat) : Except Failure Bool × S × σ → Prop where
  | all {p' : S} {w' : σ} (before : toCome p' = (toCome p).drop count) (keeps : sound p' w') :
    Skipped toCome sound failed p count (.ok true, p', w')
  | short {p' : S} {w' : σ} (before : (toCome p).drop count = []) (after : toCome p' = [])
    (keeps : sound p' w') : Skipped toCome sound failed p count (.ok false, p', w')
  | failure {e : Failure} {p' : S} {w' : σ} (may : failed e w') :
    Skipped toCome sound failed p count (.error e, p', w')

theorem skip_skipped (hup : Serves up toCome sound failed) : ∀ (count : Nat) (p : S) (w : σ),
    sound p w → Skipped toCome sound failed p count (skip up count p w)
  | 0, p, w, hp => .all rfl hp
  | count + 1, p, w, hp => by
    have hpull := hup p w hp
    rw [skip]
    generalize up p w = r at hpull ⊢
    cases hpull with
    | none before after keeps => exact .short (by simp [before]) after keeps
    | failure may => exact .failure may
    | @item x p' w' before keeps =>
      have hrest := skip_skipped hup count p' w' keeps
      have hdrop : (toCome p).drop (count + 1) = (toCome p').drop count := by rw [before]; rfl
      simp only
      generalize skip up count p' w' = r at hrest ⊢
      cases hrest with
      | all before keeps => exact .all (before.trans hdrop.symm) keeps
      | short before after keeps => exact .short (hdrop.trans before) after keeps
      | failure may => exact .failure may

/-- The items to come behind an offset, which has left out its items or has not. -/
def offsetToCome (toCome : S → List Item) (count : Int) : Bool × S → List Item
  | (true, p) => toCome p
  | (false, p) => onList (.offset count) (toCome p)

theorem offsetBy_serves (hup : Serves up toCome sound failed) (count : Int) :
    Serves (offsetBy up count) (offsetToCome toCome count) (fun q w => sound q.2 w) failed := by
  have hpass : ∀ (p : S) (w : σ) (q : Bool × S), sound p w → offsetToCome toCome count q = toCome p →
      Served (offsetToCome toCome count) (fun q w => sound q.2 w) failed q
        ((up p w).1, (true, (up p w).2.1), (up p w).2.2) := by
    intro p w q hp hq
    have hpull := hup p w hp
    generalize up p w = r at hpull ⊢
    cases hpull with
    | none before after keeps => exact .none (hq.trans before) after keeps
    | item before keeps => exact .item (hq.trans before) keeps
    | failure may => exact .failure may
  rintro ⟨ready, p⟩ w hp
  cases ready with
  | true => exact hpass p w _ hp rfl
  | false =>
    have hskip := skip_skipped hup count.toNat p w hp
    simp only [offsetBy, Bool.false_eq_true, if_false]
    generalize skip up count.toNat p w = r at hskip ⊢
    cases hskip with
    | all before keeps => exact hpass _ _ _ keeps before.symm
    | short before after keeps =>
      exact .none before (by simp [offsetToCome, onList, after]) keeps
    | failure may => exact .failure may

theorem limitTo_serves (hup : Serves up toCome sound failed) :
    Serves (limitTo up) (fun q => onList (.limit q.1) (toCome q.2)) (fun q w => sound q.2 w)
      failed := by
  rintro ⟨rest, p⟩ w hp
  simp only [limitTo]
  by_cases hrest : rest ≤ 0
  · rw [if_pos hrest]
    have hnone : rest.toNat = 0 := by omega
    exact .none (by simp [onList, hnone]) (by simp [onList, hnone]) hp
  · rw [if_neg hrest]
    obtain ⟨n, hn⟩ : ∃ n, (rest - 1).toNat = n := ⟨_, rfl⟩
    have hsucc : rest.toNat = n + 1 := by omega
    have hpull := hup p w hp
    generalize up p w = r at hpull ⊢
    cases hpull with
    | none before after keeps =>
      exact .none (by simp [onList, before]) (by simp [onList, after]) keeps
    | item before keeps => exact .item (by simp [onList, before, hsucc, hn]) keeps
    | failure may => exact .failure may

end Stages

end Stage

/-! ## Stores and chains -/

/-- What is known of a store's states: before the identifiers are listed, afterwards, and when
something has failed. -/
structure Outlook (σ : Type) where
  fresh : σ → Prop
  listed : σ → Prop
  failed : Failure → σ → Prop

/-- The result of asking a store: this answer, or a failure that may be. -/
inductive Answered {α : Type} (x : α) (good : σ → Prop) (failed : Failure → σ → Prop) :
    Except Failure α × σ → Prop where
  | ok {w : σ} (keeps : good w) : Answered x good failed (.ok x, w)
  | failure {e : Failure} {w : σ} (may : failed e w) : Answered x good failed (.error e, w)

/-- A store that lists these identifiers and reads these documents, if it does not fail. A store
that fails to list its identifiers lists none. -/
structure Answers (s : Store σ) (o : Outlook σ) (ids : List Text) (doc : Text → Document) :
    Prop where
  index : ∀ w, o.fresh w → Answered ids o.listed o.failed (s.index w)
  index_none : ∀ w, o.fresh w → ∀ e, (s.index w).1 = .error e → ids = []
  read : ∀ id ∈ ids, ∀ w, o.listed w → Answered (doc id) o.listed o.failed (s.read id w)

section Chains
variable (s : Store σ) (o : Outlook σ) (idField : Option Text) (ids : List Text)
  (doc : Text → Document)

/-- What is asked of the functions in a chain: on the documents that reach them, predicates and
transforms fail only as they may, and comparators are preorders. -/
def Fits (may : Failure → Prop) : List Stage → Prop
  | [] => True
  | .condition accepts :: rest => Fits may rest ∧
      ∀ x ∈ answer rest (storedItems idField ids doc), ∀ e, accepts x.document = .error e → may e
  | .projection transform :: rest => Fits may rest ∧
      ∀ x ∈ answer rest (storedItems idField ids doc), ∀ e, transform x.document = .error e → may e
  | .sort compare :: rest => Fits may rest ∧ Comparator.IsPreorder compare
      fun d => ∃ x ∈ answer rest (storedItems idField ids doc), x.document = d
  | .offset _ :: rest | .limit _ :: rest => Fits may rest

variable {idField ids doc} in
/-- Stages that keep documents fit in front of a chain if each comparator among them is a preorder
on the documents that reach it. -/
theorem fits_reverse_append {may : Failure → Prop} : ∀ (stages : List Stage) {chain : List Stage},
    Fits idField ids doc may chain → (∀ stage ∈ stages, stage.keepsDocuments = true) →
    (∀ before compare after, stages = before ++ .sort compare :: after →
      Comparator.IsPreorder compare fun d =>
        ∃ x ∈ answer (before.reverse ++ chain) (storedItems idField ids doc), x.document = d) →
    Fits idField ids doc may (stages.reverse ++ chain)
  | [], _, hchain, _, _ => hchain
  | stage :: stages, chain, hchain, hkeeps, horder => by
    obtain ⟨hstage, hkeeps⟩ := List.forall_mem_cons.mp hkeeps
    rw [List.reverse_cons, List.append_assoc]
    refine fits_reverse_append stages ?_ hkeeps fun before compare after hsplit => ?_
    · cases stage with
      | condition accepts | projection transform => cases hstage
      | sort compare => exact ⟨hchain, horder [] compare stages rfl⟩
      | offset count | limit count => exact hchain
    · have hafter := horder (stage :: before) compare after (by rw [hsplit]; rfl)
      rwa [List.reverse_cons, List.append_assoc] at hafter

namespace Progress

/-- The items that are still to come, by the progress of a chain. -/
def toCome : (chain : List Stage) → Progress chain → List Item
  | [], pending => storedItems idField (pending.getD ids) doc
  | .condition accepts :: rest, p => Stage.onList (.condition accepts) (toCome rest p)
  | .projection transform :: rest, p => Stage.onList (.projection transform) (toCome rest p)
  | .sort compare :: rest, q => Stage.sortToCome (toCome rest) compare q
  | .offset count :: rest, q => Stage.offsetToCome (toCome rest) count q
  | .limit _ :: rest, (left, p) => Stage.onList (.limit left) (toCome rest p)

/-- The progress of the chain below its first stage. -/
def below {rest : List Stage} : {stage : Stage} → Progress (stage :: rest) → Progress rest
  | .condition _, p | .projection _, p => p
  | .sort _, q | .offset _, q | .limit _, q => q.2

/-- Progress over a store in a state that can be: what is pending is among the identifiers, and
behind each stage only items of its whole answer are to come. -/
def Sound : (chain : List Stage) → Progress chain → σ → Prop
  | [], none, w => o.fresh w
  | [], some left, w => (∀ id ∈ left, id ∈ ids) ∧ o.listed w
  | stage :: rest, p, w => Sound rest p.below w ∧
      ∀ x ∈ toCome idField ids doc (stage :: rest) p,
        x ∈ answer (stage :: rest) (storedItems idField ids doc)

variable {s o idField ids doc}

theorem sound_state : ∀ (chain : List Stage) {p : Progress chain} {w : σ},
    Sound o idField ids doc chain p w → o.fresh w ∨ o.listed w
  | [], none, _, h => .inl h
  | [], some _, _, h => .inr h.2
  | _ :: rest, _, _, h => sound_state rest h.1

theorem sound_answer : ∀ (chain : List Stage) {p : Progress chain} {w : σ},
    Sound o idField ids doc chain p w → ∀ x ∈ toCome idField ids doc chain p,
    x ∈ answer chain (storedItems idField ids doc)
  | [], none, _, _, _, hx => hx
  | [], some left, _, h, x, hx => by
    obtain ⟨id, hid, rfl⟩ := List.mem_map.mp hx
    exact List.mem_map.mpr ⟨id, h.1 id hid, rfl⟩
  | _ :: _, _, _, h, x, hx => h.2 x hx

theorem length_toCome_le (hs : Answers s o ids doc) : ∀ (chain : List Stage) {p : Progress chain}
    {w : σ}, Sound o idField ids doc chain p w →
    (toCome idField ids doc chain p).length ≤ remaining s chain p w
  | [], none, w, h => by
    have hlist := hs.index w h
    have hnone := hs.index_none w h
    simp only [remaining, toCome, storedItems, List.length_map, Option.getD_none]
    generalize s.index w = r at hlist hnone ⊢
    cases hlist with
    | ok keeps => exact Nat.le_refl _
    | failure may => simp [hnone _ rfl]
  | [], some left, w, h => by simp [remaining, toCome, storedItems]
  | .condition accepts :: rest, _, _, h =>
    Nat.le_trans (List.length_filter_le _ _) (length_toCome_le hs rest h.1)
  | .projection transform :: rest, _, _, h =>
    Nat.le_trans (Nat.le_of_eq (List.length_map _)) (length_toCome_le hs rest h.1)
  | .sort compare :: rest, (some stock, _), _, h => Nat.le_refl _
  | .sort compare :: rest, (none, _), _, h =>
    Nat.le_trans (Nat.le_of_eq (List.length_mergeSort _)) (length_toCome_le hs rest h.1)
  | .offset count :: rest, (true, _), _, h => length_toCome_le hs rest h.1
  | .offset count :: rest, (false, _), _, h =>
    Nat.le_trans (List.drop_sublist _ _).length_le (length_toCome_le hs rest h.1)
  | .limit _ :: rest, (_, _), _, h =>
    Nat.le_trans (List.take_sublist _ _).length_le (length_toCome_le hs rest h.1)

end Progress

variable {s o idField ids doc}

open Progress (toCome Sound sound_state sound_answer length_toCome_le)

theorem readNext_serves (hs : Answers s o ids doc) : ∀ (left : List Text) (w : σ),
    (∀ id ∈ left, id ∈ ids) → o.listed w → ∀ p : Option (List Text), p.getD ids = left →
    Served (toCome idField ids doc []) (Sound o idField ids doc []) o.failed p
      (Stage.readNext s idField left w)
  | [], w, _, hw, p, hp => by
    refine .none ?_ rfl ⟨by simp, hw⟩
    simp [toCome, storedItems, hp]
  | id :: left, w, hleft, hw, p, hp => by
    have hread := hs.read id (hleft id List.mem_cons_self) w hw
    rw [Stage.readNext]
    generalize s.read id w = r at hread ⊢
    cases hread with
    | failure may => exact .failure may
    | ok keeps =>
      refine .item ?_ ⟨fun i hi => hleft i (List.mem_cons_of_mem id hi), keeps⟩
      simp [toCome, storedItems, hp]

theorem source_serves (hs : Answers s o ids doc) :
    Serves (Stage.source s idField) (toCome idField ids doc []) (Sound o idField ids doc [])
      o.failed := by
  intro pending w hp
  cases pending with
  | some left => exact readNext_serves hs left w hp.1 hp.2 _ rfl
  | none =>
    have hlist := hs.index w hp
    rw [Stage.source]
    generalize s.index w = r at hlist ⊢
    cases hlist with
    | failure may => exact .failure may
    | ok keeps => exact readNext_serves hs ids _ (fun _ h => h) keeps _ rfl

variable {may : Failure → Prop}

/-- Under any nesting of stages, a pull takes the first item that is to come. -/
theorem pull_serves (hs : Answers s o ids doc)
    (hmay : ∀ e, may e → ∀ w, o.fresh w ∨ o.listed w → o.failed e w) : ∀ (chain : List Stage),
    Fits idField ids doc may chain → Serves (pull s idField chain) (toCome idField ids doc chain)
      (Sound o idField ids doc chain) o.failed
  | [], _ => source_serves hs
  | .condition _ :: rest, h =>
    (Stage.search_serves (pull_serves hs hmay rest h.1) (fun _ _ => length_toCome_le hs rest)
      (fun _ _ => sound_answer rest)
      fun x hx e he _ w hp => hmay e (h.2 x hx e he) w (sound_state rest hp)).within _
  | .projection _ :: rest, h =>
    (Stage.project_serves (pull_serves hs hmay rest h.1) (fun _ _ => sound_answer rest)
      fun x hx e he _ w hp => hmay e (h.2 x hx e he) w (sound_state rest hp)).within _
  | .sort _ :: rest, h =>
    (Stage.sortAll_serves (pull_serves hs hmay rest h.1) (fun _ _ => length_toCome_le hs rest)
      (fun _ _ => sound_answer rest) h.2).within _
  | .offset count :: rest, h => (Stage.offsetBy_serves (pull_serves hs hmay rest h) count).within _
  | .limit _ :: rest, h => (Stage.limitTo_serves (pull_serves hs hmay rest h)).within _

/-- Draining a chain gives all items that are to come. -/
theorem drain_drained (hs : Answers s o ids doc)
    (hmay : ∀ e, may e → ∀ w, o.fresh w ∨ o.listed w → o.failed e w) {chain : List Stage}
    (hfits : Fits idField ids doc may chain) {p : Progress chain} {w : σ}
    (hp : Sound o idField ids doc chain p w) :
    Drained (toCome idField ids doc chain) (Sound o idField ids doc chain) o.failed p
      (drain s idField chain p w) :=
  Stage.collect_drained (pull_serves hs hmay chain hfits) _ p w hp
    (Nat.lt_succ_of_le (length_toCome_le hs chain hp))

/-! ## Other states -/

/-- Progress stays sound when the store's state changes into one of the same standing. -/
theorem sound_move {o' : Outlook σ} {w w' : σ} (hfresh : o.fresh w → o'.fresh w')
    (hlisted : o.listed w → o'.listed w') : ∀ (chain : List Stage) {p : Progress chain},
    Sound o idField ids doc chain p w → Sound o' idField ids doc chain p w'
  | [], none, h => hfresh h
  | [], some _, h => ⟨h.1, hlisted h.2⟩
  | _ :: rest, _, h => ⟨sound_move hfresh hlisted rest h.1, h.2⟩

/-! ## Starting anew -/

/-- A chain that starts anew has its whole answer to give. -/
theorem toCome_rewound : ∀ chain : List Stage,
    toCome idField ids doc chain (Progress.rewound chain) =
      answer chain (storedItems idField ids doc)
  | [] => rfl
  | .condition _ :: rest | .projection _ :: rest | .sort _ :: rest | .offset _ :: rest
  | .limit _ :: rest => by
    rw [answer_cons, ← toCome_rewound rest]
    rfl

theorem sound_rewound {w : σ} (hw : o.fresh w) : ∀ chain : List Stage,
    Sound o idField ids doc chain (Progress.rewound chain) w
  | [] => hw
  | .condition _ :: rest | .projection _ :: rest | .sort _ :: rest | .offset _ :: rest
  | .limit _ :: rest =>
    ⟨sound_rewound hw rest, fun _ hx => toCome_rewound (_ :: rest) ▸ hx⟩

end Chains

end Cabinet
