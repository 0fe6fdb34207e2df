import Cabinet.Proofs.Collection.FindAndModify
import Cabinet.Proofs.Cursor.Calls
import Cabinet.Proofs.Query.Composing
import Cabinet.Proofs.Store.Listing

/-!
# Removing all matches

* `StatesOf` : the states of memories and of folders of JSON files, in which no identifier has two entries;
  `StatesOf.upholds` : whatever the store is asked for, it stays in them;
* `IsPlain.erase_readable` : a document that is read can be erased;
* `Store.AllErased` : two states of a store between which some documents were erased, and all others are
  as they were; `IsPlain.eraseAll_readable` : what erasing one after another does;
* `Collection.count_matching` : how many documents a query counts; `Collection.count_left` : it counts none
  once its matches are erased;
* `Collection.remove_matching` : a removal erases what matched before it began and nothing else.
-/

namespace Cabinet

variable {σ : Type}

/-! ## States without two entries for an identifier -/

/-- The states of a memory, or of a folder of JSON files on a disk as a system keeps it. -/
inductive StatesOf : {σ : Type} → Store σ → (σ → Prop) → Prop where
  | memory : StatesOf Memory.store fun m => (m.map Prod.fst).Nodup
  | json (folder : Disk.Path) : StatesOf (Folder.store .json folder) Disk.Regular

theorem Memory.upholds_distinct :
    Memory.store.Upholds (fun m => (m.map Prod.fst).Nodup) fun _ => True where
  index := Action.ensures_of_state fun _ h => h
  read id := Action.ensures_of_state fun m h => by
    simp only [Memory.store]
    split <;> exact h
  exist _ := Action.ensures_of_state fun _ h => h
  write id v _ := Action.ensures_of_state fun m h => by
    simp only [Memory.store]
    split
    · exact h
    · rw [put_eq]
      exact Keyed.nodup_put h id _
  erase id := Action.ensures_of_state fun m h => by
    simp only [Memory.store]
    split
    · exact h
    · exact Keyed.nodup_remove h id

section States
variable {s : Store σ} {states : σ → Prop} (hs : StatesOf s states)
include hs

theorem StatesOf.isPlain : IsPlain s := by
  cases hs with
  | memory => exact .memory
  | json folder => exact .json folder

theorem StatesOf.upholds : s.Upholds states fun _ => True := by
  cases hs with
  | memory => exact Memory.upholds_distinct
  | json folder => exact Folder.upholds_regular .json folder

theorem StatesOf.nodup {w : σ} (hw : states w) {ids : List Text} (hindex : (s.index w).1 = .ok ids) :
    ids.Nodup := by
  cases hs with
  | memory => exact Except.ok.inj hindex ▸ hw
  | json folder =>
    obtain ⟨es, hes⟩ := Folder.lookup_of_index hindex
    exact Folder.nodup_index hes hindex (Disk.Regular.lookup hw hes).distinct

end States

/-! ## Erasing some documents -/

section Erasing
variable {s : Store σ} {w w₁ w' : σ}

theorem IsPlain.erase_readable (hs : IsPlain s) {ids : List Text} (hindex : (s.index w).1 = .ok ids)
    {id : Text} {d : Document} (hread : (s.read id w).1 = .ok d) :
    ∃ w', s.erase id w = (.ok (), w') ∧ s.ErasedAt id w w' := by
  have herase : ∃ w', s.erase id w = (.ok (), w') := by
    cases hs with
    | memory =>
      simp only [Memory.store] at hread ⊢
      split at hread
      · cases hread
      · exact ⟨_, rfl⟩
    | json folder =>
      obtain ⟨es, hes⟩ := Folder.lookup_of_index hindex
      obtain ⟨key, content, hkey, hlong, hfile⟩ := Folder.file_of_read hes hread
      obtain ⟨d', hrun, -⟩ := Folder.erase_file hes hkey hlong hfile
      exact ⟨d', hrun⟩
  obtain ⟨w', hrun⟩ := herase
  exact ⟨w', hrun, hs.erasedAt hindex hrun⟩

/-- The documents of some identifiers were erased. Other documents are read as before, and the other
identifiers are listed in the same order. -/
structure Store.AllErased (s : Store σ) (gone : List Text) (w w' : σ) : Prop where
  documents : ∀ id ∈ gone, (s.read id w').1 = .error (.notFound id)
  others : ∀ id, id ∉ gone → (s.read id w').1 = (s.read id w).1
  index : (s.index w').1 = (s.index w).1.map (List.filter (· ∉ gone))

theorem Store.AllErased.none (s : Store σ) (w : σ) : s.AllErased [] w w where
  documents _ h := absurd h List.not_mem_nil
  others _ _ := rfl
  index := by
    cases (s.index w).1 with
    | error e => rfl
    | ok ids => simp [Except.map]

theorem Store.AllErased.next {id : Text} {gone : List Text} (hfirst : s.ErasedAt id w w₁)
    (hrest : s.AllErased gone w₁ w') : s.AllErased (id :: gone) w w' where
  documents i hi := by
    by_cases hgone : i ∈ gone
    · exact hrest.documents i hgone
    · obtain rfl := (List.mem_cons.mp hi).resolve_right hgone
      rw [hrest.others i hgone, hfirst.document]
  others i hi := by
    obtain ⟨hne, hgone⟩ := not_or.mp (mt List.mem_cons.mpr hi)
    rw [hrest.others i hgone, hfirst.others i hne]
  index := by
    rw [hrest.index, hfirst.index]
    cases (s.index w).1 with
    | error e => rfl
    | ok ids =>
      refine congrArg Except.ok ((List.filter_filter ..).trans (List.filter_congr fun i _ => ?_))
      exact Bool.eq_iff_iff.mpr (by simp [and_comm])

/-- Documents of different identifiers that can all be read are erased one after another. By induction on
the items: those behind the first can still be read when it is gone. -/
theorem IsPlain.eraseAll_readable (hs : IsPlain s) : ∀ {items : List Item} {w : σ} {ids : List Text},
    (s.index w).1 = .ok ids → (items.map Item.id).Nodup →
    (∀ x ∈ items, ∃ d, (s.read x.id w).1 = .ok d) →
    ∃ w', Collection.eraseAll s items w = (.ok items.length, w') ∧
      s.AllErased (items.map Item.id) w w'
  | [], w, _, _, _, _ => ⟨w, rfl, .none s w⟩
  | x :: items, w, ids, hindex, hdistinct, hread => by
    obtain ⟨⟨d, hd⟩, hothers⟩ := List.forall_mem_cons.mp hread
    obtain ⟨hx, hdistinct⟩ := List.nodup_cons.mp hdistinct
    obtain ⟨w₁, hrun, herased⟩ := hs.erase_readable hindex hd
    have hindex₁ : (s.index w₁).1 = .ok (ids.filter (· != x.id)) := by
      rw [herased.index, hindex]
      rfl
    have hread₁ : ∀ y ∈ items, ∃ d, (s.read y.id w₁).1 = .ok d := fun y hy => by
      rw [herased.others y.id fun heq => hx (heq ▸ List.mem_map_of_mem hy)]
      exact hothers y hy
    obtain ⟨w', hall, hgone⟩ := IsPlain.eraseAll_readable hs hindex₁ hdistinct hread₁
    refine ⟨w', ?_, .next herased hgone⟩
    rw [Collection.eraseAll, Action.bind_apply, hrun]
    simp only [Action.bind_apply, hall]
    rfl

end Erasing

/-! ## What a removal finds -/

/-- Only a function can fail on a document. -/
theorem Condition.compile_fails {condition : Given Predicate} {accepts : Predicate}
    (hcondition : compile condition = .ok accepts) {d : Document} {e : Failure}
    (he : accepts (.object d) = .error e) : condition = .function accepts := by
  unfold compile at hcondition
  split at hcondition
  · exact congrArg _ (Except.ok.inj hcondition)
  · obtain rfl : always = accepts := Except.ok.inj hcondition
    cases he
  · next expected =>
    obtain rfl : meets expected = accepts := Except.ok.inj hcondition
    rw [meets_eq_all] at he
    cases he
  · cases hcondition

namespace Collection

section Found
variable {c : Collection σ} {condition : Given Predicate} {accepts : Predicate} {w : σ}
  {ids : List Text} {doc : Text → Document} (hs : Persists c.store)
  (hcondition : Condition.compile condition = .ok accepts) (hindex : (c.store.index w).1 = .ok ids)
  (hread : ∀ id ∈ ids, (c.store.read id w).1 = .ok (doc id))
include hs hcondition hindex hread

/-- The query of a removal finds the matches, unless the condition fails on a document. -/
theorem runQuery_found (multi : Bool) :
    runQuery (matchQuery c.store condition multi) Cursor.items w =
      (.ok (matching accepts multi ids doc), w) ∨
    (∃ e, runQuery (matchQuery c.store condition multi) Cursor.items w = (.error e, w)) ∧
      ∃ id ∈ ids, ∃ e, accepts (.object (doc id)) = .error e := by
  have hfails : ∀ x ∈ storedItems none ids doc, ∀ e, accepts x.document = .error e →
      ∃ id ∈ ids, ∃ e, accepts (.object (doc id)) = .error e := by
    intro x hx e he
    obtain ⟨id, hid, rfl⟩ := List.mem_map.mp hx
    exact ⟨id, hid, e, he⟩
  have hanswered := runQuery_answered (hs.answers hindex hread fun _ w' =>
      w' = w ∧ ∃ id ∈ ids, ∃ e, accepts (.object (doc id)) = .error e)
    (fun e he w' hw' => ⟨hw'.elim id id, he⟩) hcondition hfails multi rfl
  generalize runQuery (matchQuery c.store condition multi) Cursor.items w = r at hanswered
  cases hanswered with
  | ok good =>
    obtain rfl := good.elim id id
    exact .inl rfl
  | failure may =>
    obtain ⟨rfl, hfails⟩ := may
    exact .inr ⟨⟨_, rfl⟩, hfails⟩

/-- A condition that can be asked of each document counts those that meet it. -/
theorem count_matching (haccepts : ∀ id ∈ ids, ∃ b, accepts (.object (doc id)) = .ok b) :
    c.count condition w = (.ok (matching accepts true ids doc).length, w) := by
  have hstart : matchQuery c.store condition true =
      Cursor.start c.store none (if condition.isNothing then [] else [.condition accepts]) :=
    matchQuery_eq_start hcondition true
  change runQuery (matchQuery c.store condition true) Cursor.count w = _
  cases hnothing : condition.isNothing with
  | true =>
    have hstore : c.store.index w = (.ok ids, w) := Prod.ext hindex (hs.index_same w)
    have hall : matching accepts true ids doc = storedItems none ids doc := by
      rw [matching, Cursor.accepts_of_nothing hcondition hnothing, Cursor.filter_accepted_always]
      rfl
    have hquery : matchQuery c.store condition true = Cursor.start c.store none [] := by
      rw [hstart, hnothing, if_pos rfl]
    have hcount : Cursor.count (Cursor.start c.store none [], w) = _ := Cursor.count_apply rfl
    rw [hquery, runQuery, hcount, Cursor.index_apply rfl rfl, hall, storedItems, List.length_map]
    simp only [Cursor.start, hstore]
    rfl
  | false =>
    have hquery : matchQuery c.store condition true =
        Cursor.start c.store none [.condition accepts] := by
      rw [hstart, hnothing]
      rfl
    have hitems := runQuery_found hs hcondition hindex hread true
    rw [hquery, runQuery] at hitems
    have hcount : Cursor.count (Cursor.start c.store none [.condition accepts], w) = _ :=
      Cursor.count_apply rfl
    rw [hquery, runQuery, hcount]
    rcases hitems with hitems | ⟨-, id, hid, e, he⟩
    · obtain ⟨hfound, hstate⟩ := Prod.mk.inj hitems
      exact Prod.ext (congrArg (Except.map List.length) hfound) hstate
    · obtain ⟨b, hb⟩ := haccepts id hid
      cases hb.symm.trans he

end Found

/-- A removal runs its query to the end and erases what that finds. -/
theorem remove_apply (c : Collection σ) (condition : Given Predicate) {options : Value} {multi : Bool}
    (hmulti : eraseMulti options = .ok multi) (w : σ) : c.remove condition options w =
      (do eraseAll c.store (← runQuery (matchQuery c.store condition multi) Cursor.items)) w := by
  rw [remove_eq, hmulti, bulk, Action.bind_apply, Action.ofExcept_apply]
  simp only [Action.bind_apply, eraseAll_eq]

theorem nodup_matching {accepts : Predicate} {multi : Bool} {ids : List Text} {doc : Text → Document}
    (hids : ids.Nodup) : ((matching accepts multi ids doc).map Item.id).Nodup := by
  have hstored : ((storedItems none ids doc).map Item.id).Nodup := by
    rw [storedItems, List.map_map]
    exact (List.map_id ids).symm ▸ hids
  have hall : ((matching accepts true ids doc).map Item.id).Nodup :=
    hstored.sublist (List.filter_sublist.map Item.id)
  cases multi with
  | true => exact hall
  | false => exact hall.sublist ((List.take_sublist 1 _).map Item.id)

/-- Nothing matches among what is left when all matches are gone. -/
theorem matching_left (accepts : Predicate) (ids : List Text) (doc : Text → Document) :
    matching accepts true (ids.filter (· ∉ (matching accepts true ids doc).map Item.id)) doc = [] := by
  refine List.filter_eq_nil_iff.mpr fun x hx haccepted => ?_
  obtain ⟨id, hid, rfl⟩ := List.mem_map.mp hx
  obtain ⟨hmem, hleft⟩ := List.mem_filter.mp hid
  have hmatch : ⟨id, .object (Stage.embed none id (doc id))⟩ ∈ matching accepts true ids doc :=
    List.mem_filter.mpr ⟨List.mem_map.mpr ⟨id, hmem, rfl⟩, haccepted⟩
  exact of_decide_eq_true hleft (List.mem_map.mpr ⟨_, hmatch, rfl⟩)

/-- Where all matches were erased, none is counted. -/
theorem count_left {c : Collection σ} {condition : Given Predicate} {accepts : Predicate} {w w' : σ}
    {ids : List Text} {doc : Text → Document} (hs : Persists c.store)
    (hcondition : Condition.compile condition = .ok accepts) (hindex : (c.store.index w).1 = .ok ids)
    (hread : ∀ id ∈ ids, (c.store.read id w).1 = .ok (doc id))
    (haccepts : ∀ id ∈ ids, ∃ b, accepts (.object (doc id)) = .ok b)
    (herased : c.store.AllErased ((matching accepts true ids doc).map Item.id) w w') :
    c.count condition w' = (.ok 0, w') := by
  let left := ids.filter (· ∉ (matching accepts true ids doc).map Item.id)
  have hindex' : (c.store.index w').1 = .ok left := by
    rw [herased.index, hindex]
    rfl
  have hleft : ∀ id ∈ left, (c.store.read id w').1 = .ok (doc id) := by
    intro id hid
    obtain ⟨hmem, hstays⟩ := List.mem_filter.mp hid
    rw [herased.others id (of_decide_eq_true hstays)]
    exact hread id hmem
  have hcount := count_matching hs hcondition hindex' hleft fun id hid =>
    haccepts id (List.mem_filter.mp hid).1
  rw [hcount, matching_left]
  rfl

/-- Different identifiers that were listed leave as many fewer. -/
theorem length_left {ids gone : List Text} (hids : ids.Nodup) (hgone : gone.Nodup)
    (hlisted : ∀ id ∈ gone, id ∈ ids) : (ids.filter (· ∉ gone)).length + gone.length = ids.length := by
  have hperm : (ids.filter (· ∈ gone)).Perm gone := by
    refine (List.perm_ext_iff_of_nodup (hids.filter _) hgone).mpr fun id => ?_
    rw [List.mem_filter, decide_eq_true_eq]
    exact ⟨And.right, fun h => ⟨hlisted id h, h⟩⟩
  have hsplit := List.length_eq_length_filter_add (l := ids) fun id => decide (id ∈ gone)
  rw [hperm.length_eq] at hsplit
  simp only [decide_not]
  omega

/-- A removal that finds its matches erases these and nothing else, and counts them: all that met the
condition, or the first of them in the order of the identifiers. The rest is listed in the same order; there
are as many fewer, and where all were to go, none is left that meets the condition. Only a condition that is
a function can fail, on a document, and then nothing is erased. -/
theorem remove_matching {c : Collection σ} {states : σ → Prop} (hc : StatesOf c.store states)
    {condition : Given Predicate} {accepts : Predicate}
    (hcondition : Condition.compile condition = .ok accepts) {options : Value} {multi : Bool}
    (hmulti : eraseMulti options = .ok multi) {w : σ} (hw : states w) {ids : List Text}
    {doc : Text → Document} (hindex : (c.store.index w).1 = .ok ids)
    (hread : ∀ id ∈ ids, (c.store.read id w).1 = .ok (doc id)) :
    let fails := ∃ id ∈ ids, ∃ e, condition = .function accepts ∧ accepts (.object (doc id)) = .error e
    let gone := matching accepts multi ids doc
    ((∃ e, c.remove condition options w = (.error e, w)) ∧ fails) ∨
    ∃ w', c.remove condition options w = (.ok gone.length, w') ∧
      c.store.AllErased (gone.map Item.id) w w' ∧
      (∃ ids', (c.store.index w').1 = .ok ids' ∧ ids'.length + gone.length = ids.length) ∧
      (fails ∨ c.count condition w = (.ok (matching accepts true ids doc).length, w) ∧
        (multi = true → c.count condition w' = (.ok 0, w'))) := by
  intro fails gone
  have hs := hc.isPlain.persists
  have hfails : (∃ id ∈ ids, ∃ e, accepts (.object (doc id)) = .error e) → fails :=
    fun ⟨id, hid, e, he⟩ => ⟨id, hid, e, Condition.compile_fails hcondition he, he⟩
  have hids := hc.nodup hw hindex
  have hgone : (gone.map Item.id).Nodup := nodup_matching hids
  have hlisted : ∀ id ∈ gone.map Item.id, id ∈ ids := by
    intro id hid
    obtain ⟨x, hx, rfl⟩ := List.mem_map.mp hid
    exact id_mem_of_matching hx
  rw [remove_apply c condition hmulti, Action.bind_apply]
  obtain hfound | ⟨⟨e, he⟩, hfailed⟩ := runQuery_found hs hcondition hindex hread multi
  · obtain ⟨w', hall, herased⟩ := hc.isPlain.eraseAll_readable hindex hgone fun x hx =>
      ⟨doc x.id, hread x.id (id_mem_of_matching hx)⟩
    have hindex' : (c.store.index w').1 = .ok (ids.filter (· ∉ gone.map Item.id)) := by
      rw [herased.index, hindex]
      rfl
    have hlength := length_left hids hgone hlisted
    rw [List.length_map] at hlength
    refine .inr ⟨w', ?_, herased, ⟨_, hindex', hlength⟩, ?_⟩
    · rw [hfound]
      exact hall
    by_cases hfailed : ∃ id ∈ ids, ∃ e, accepts (.object (doc id)) = .error e
    · exact .inl (hfails hfailed)
    have haccepts : ∀ id ∈ ids, ∃ b, accepts (.object (doc id)) = .ok b := by
      intro id hid
      cases hb : accepts (.object (doc id)) with
      | ok b => exact ⟨b, rfl⟩
      | error e => exact absurd ⟨id, hid, e, hb⟩ hfailed
    refine .inr ⟨count_matching hs hcondition hindex hread haccepts, ?_⟩
    rintro rfl
    exact count_left hs hcondition hindex hread haccepts herased
  · refine .inl ⟨⟨e, ?_⟩, hfails hfailed⟩
    rw [he]

theorem remove_matching_lamps :
    ∃ m, lampMemory.remove Cursor.isOn .null Cursor.lamps = (.ok 2, m) ∧
      (lampMemory.store.read "a".toText m).1 = .error (.notFound "a".toText) ∧
      (lampMemory.store.read "b".toText m).1 = .ok (Cursor.lamp "b".toText) ∧
      lampMemory.count Cursor.isOn m = (.ok 0, m) := by
  let ids := Cursor.lamps.map Prod.fst
  have hcondition : Condition.compile Cursor.isOn =
      .ok (Condition.meets [(.text "on".toText, .bool true)]) := rfl
  have hmulti : eraseMulti .null = .ok true := rfl
  have hdistinct : (Cursor.lamps.map Prod.fst).Nodup := by decide
  have hread : ∀ id ∈ ids, (lampMemory.store.read id Cursor.lamps).1 = .ok (Cursor.lamp id) :=
    fun id hid => congrArg Prod.fst (Cursor.read_lamp id hid)
  have hgone : matching (Condition.meets [(.text "on".toText, .bool true)]) true ids Cursor.lamp =
      [⟨"a".toText, .object (Cursor.lamp "a".toText)⟩,
        ⟨"c".toText, .object (Cursor.lamp "c".toText)⟩] := rfl
  have hfunction : ∀ f, Cursor.isOn ≠ .function f := nofun
  obtain ⟨-, _, _, _, hfails, -⟩ | ⟨m, hrun, herased, -, hcount⟩ :=
    remove_matching (c := lampMemory) .memory hcondition hmulti hdistinct rfl hread
  · exact absurd hfails (hfunction _)
  rw [hgone] at hrun herased
  obtain ⟨_, _, _, hfails, -⟩ | ⟨-, hnone⟩ := hcount
  · exact absurd hfails (hfunction _)
  refine ⟨m, hrun, herased.documents _ (by decide), ?_, hnone rfl⟩
  rw [herased.others _ (by decide)]
  exact hread _ (by decide)

end Collection

end Cabinet
