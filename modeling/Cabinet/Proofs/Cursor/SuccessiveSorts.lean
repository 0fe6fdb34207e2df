import Cabinet.Proofs.Cursor.Sorting
import Cabinet.Proofs.Cursor.Waiting
import Cabinet.Proofs.Store.Keyed
import Cabinet.Store.Folder

/-!
# Sorting again

A second sort keeps what the first has done where its own keys leave documents equal.

* `Document.IsNaNFree` : a document with not-a-number in none of its fields;
* `toList_found_sort`, `toList_found_sort_sort` : the results of sorting once and of sorting twice, from
  the items of the condition;
* `sort_successively` : sorting by some keys and then by others in front of them gives what sorting by
  all keys at once gives, if both give something; a key whose field occurred earlier makes no
  difference at all;
* `sort_successively_fails` : sorting by all keys at once may give something where one sort fails.
-/

namespace Cabinet

variable {σ : Type}

/-! ## Documents without not-a-number -/

/-- A document with not-a-number in none of its fields, other than inside objects. -/
def Document.IsNaNFree (d : Document) : Prop := ∀ f ∈ d, f.2.hasNaN = false

theorem Document.IsNaNFree.ranked {d : Document} (h : d.IsNaNFree) (idField : Option Text)
    (id : Text) (keys : List SortOrder.Key) :
    SortOrder.Ranked keys (.object (Stage.embed idField id d)) := by
  have hembed : (Stage.embed idField id d).IsNaNFree := by
    intro f hf
    unfold Stage.embed at hf
    split at hf
    · exact h f hf
    · exact h f hf
    · rcases Document.mem_set hf with heq | ⟨g, hg, heq⟩
      · rw [heq]
        rfl
      · rw [heq]
        exact h g hg
  intro k _ v hv
  rw [← Except.ok.inj hv, Document.getD]
  cases hget : (Stage.embed idField id d).get? (.text k.field) with
  | none => rfl
  | some x =>
    obtain ⟨f, hf, -, rfl⟩ := Document.mem_of_get? hget
    exact hembed f hf

/-! ## Stores of JSON texts -/

namespace Memory

variable {id : Text} {m : Memory} {d : Document}

theorem read_state (id : Text) (m : Memory) : (store.read id m).2 = m := by
  simp only [store]
  cases get? m id <;> rfl

theorem read_ok (h : (store.read id m).1 = .ok d) :
    ∃ kept, get? m id = some kept ∧ Store.decodeJson storeName kept = .ok d := by
  simp only [store] at h
  cases hget : get? m id with
  | none =>
    rw [hget] at h
    cases h
  | some kept =>
    rw [hget] at h
    exact ⟨kept, rfl, h⟩

theorem read_isJson (h : (store.read id m).1 = .ok d) : Json.IsJson (.object d) := by
  obtain ⟨kept, -, hkept⟩ := read_ok h
  exact Json.decodeJson_isJson hkept

theorem mem_of_read (h : (store.read id m).1 = .ok d) : id ∈ m.map Prod.fst := by
  obtain ⟨kept, hget, -⟩ := read_ok h
  rw [get?_eq] at hget
  by_contra hid
  rw [Keyed.get?_eq_none.mpr hid] at hget
  cases hget

end Memory

/-! ## Sorting once and twice -/

section Chains
variable {s : Store σ} {idField : Option Text} {rest : List Stage}

theorem drain_sort_result (compare : Comparator) (p : Progress rest) (w : σ) :
    (drain s idField (.sort compare :: rest) (none, p) w).1 =
      (drain s idField rest p w).1 >>= SortOrder.sort Item.document compare := by
  rw [drain_sort]
  generalize drain s idField rest p w = r
  rcases r with ⟨_ | xs, p', w'⟩
  · rfl
  · simp only [bind, Except.bind]
    cases SortOrder.sort Item.document compare xs <;> rfl

end Chains

namespace Cursor

section Query
variable {s : Store σ} {condition : Given Predicate} {idField : Option Text}

theorem toList_start (chain : List Stage) (w : σ) : (toList (start s idField chain, w)).1 =
    (drain s idField chain (Progress.rewound chain) w).1.map (List.map Item.document) :=
  (toList_apply rfl rfl w).1

/-- The results of a sorted query, from all items of its condition. -/
theorem toList_found_sort {accepts : Predicate} (hcondition : Condition.compile condition = .ok accepts)
    {order : Given Comparator} {compare : Comparator} (horder : SortOrder.compile order = .ok compare)
    (w : σ) : (toList ((make s condition .nothing idField).sort order, w)).1 =
      ((drain s idField (conditionStages condition accepts) (Progress.rewound _) w).1 >>=
        SortOrder.sort Item.document compare).map (List.map Item.document) := by
  rw [make_eq_start hcondition rfl, sort_start horder, toList_start]
  exact congrArg _ (drain_sort_result compare _ w)

/-- The results of a query that is sorted twice. -/
theorem toList_found_sort_sort {accepts : Predicate}
    (hcondition : Condition.compile condition = .ok accepts)
    {before order : Given Comparator} {first compare : Comparator}
    (hbefore : SortOrder.compile before = .ok first)
    (horder : SortOrder.compile order = .ok compare) (w : σ) :
    (toList (((make s condition .nothing idField).sort before).sort order, w)).1 =
      (((drain s idField (conditionStages condition accepts) (Progress.rewound _) w).1 >>=
        SortOrder.sort Item.document first) >>= SortOrder.sort Item.document compare).map
          (List.map Item.document) := by
  rw [make_eq_start hcondition rfl, sort_start hbefore, sort_start horder, toList_start]
  refine congrArg _ ((drain_sort_result compare _ w).trans ?_)
  exact congrArg (· >>= _) (drain_sort_result first _ w)

/-- Sorting by keys that follow others, and then by those others, gives what sorting by all of them in
one go gives, for documents without not-a-number: if both give something, and always if the documents
could be JSON text. A key whose field occurred earlier makes no difference, whatever the documents. -/
theorem sort_successively {I : σ → Prop} (hreads : s.Reads I Document.IsNaNFree)
    (condition : Given Predicate) (idField : Option Text) {as bs : List Value}
    {ks ls : List SortOrder.Key} (has : SortOrder.keys (.list as) = .ok ks)
    (hbs : SortOrder.keys (.list bs) = .ok ls) {w : σ} (hw : I w) :
    let found := make s condition .nothing idField
    let together := (toList (found.sort (.value (.list (as ++ bs))), w)).1
    let successively :=
      (toList ((found.sort (.value (.list bs))).sort (.value (.list as)), w)).1
    (∀ docs docs', together = .ok docs → successively = .ok docs' → docs = docs') ∧
    (s.Reads I (fun d => Json.IsJson (.object d)) → together = successively) ∧
    ∀ pair k, SortOrder.keys (.list [pair]) = .ok [k] → k.field ∈ ks.map SortOrder.Key.field →
      (toList (found.sort (.value (.list (as ++ pair :: bs))), w)).1 = together := by
  intro found together successively
  have hrepeated : ∀ pair k, SortOrder.keys (.list [pair]) = .ok [k] →
      k.field ∈ ks.map SortOrder.Key.field →
      (toList (found.sort (.value (.list (as ++ pair :: bs))), w)).1 = together := by
    intro pair k hpair hk
    show (toList (found.sort _, w)).1 = (toList (found.sort _, w)).1
    rw [sort, sort, SortOrder.compile_repeated has hbs hpair hk]
  cases hcondition : Condition.compile condition with
  | error e =>
    have hwaiting : found.waiting = some e := waiting_make hcondition
    have htogether : together = .error (.query e) :=
      congrArg Prod.fst (toList_waiting (waiting_sort hwaiting _))
    have hsuccessively : successively = .error (.query e) :=
      congrArg Prod.fst (toList_waiting (waiting_sort (waiting_sort hwaiting _) _))
    refine ⟨fun docs docs' h _ => ?_, fun _ => htogether.trans hsuccessively.symm, hrepeated⟩
    cases htogether.symm.trans h
  | ok accepts =>
    have htogether : together = _ := toList_found_sort hcondition
      (SortOrder.compile_keys (SortOrder.keys_append has hbs)) w
    have hsuccessively : successively = _ := toList_found_sort_sort hcondition
      (SortOrder.compile_keys hbs) (SortOrder.compile_keys has) w
    obtain ⟨⟨result, p, w'⟩, hfound⟩ : ∃ r, drain s idField (conditionStages condition accepts)
      (Progress.rewound _) w = r := ⟨_, rfl⟩
    rw [hfound] at htogether hsuccessively
    cases result with
    | error e =>
      refine ⟨fun docs docs' h _ => ?_, fun _ => htogether.trans hsuccessively.symm, hrepeated⟩
      cases htogether.symm.trans h
    | ok xs =>
      have hranked : ∀ keys, ∀ x ∈ xs, SortOrder.Ranked keys x.document := by
        intro keys x hx
        obtain ⟨d, hd, hdocument⟩ := known_of_drain (source_reads hreads idField) hw hfound x hx
        rw [hdocument]
        exact hd.ranked idField x.id keys
      refine ⟨fun docs docs' h h' => ?_, fun hjson => ?_, hrepeated⟩
      · obtain ⟨ys, hys, rfl⟩ := ok_of_map (htogether.symm.trans h)
        obtain ⟨zs, hzs, rfl⟩ := ok_of_map (hsuccessively.symm.trans h')
        rw [sort_append_ranked hranked hys hzs]
      · have hdocuments : ∀ x ∈ xs, ∃ d, x.document = .object d ∧ Json.IsJson (.object d) := by
          intro x hx
          obtain ⟨d, hd, hdocument⟩ := known_of_drain (source_reads hjson idField) hw hfound x hx
          exact ⟨_, hdocument, isJson_embed hd idField x.id⟩
        rw [htogether, hsuccessively]
        exact congrArg (Except.map _) (sort_append_json hranked hdocuments)

end Query

/-! ## Lamps sorted by two fields -/

def lampsByState (n : Int) : Value := .list [.text "on".toText, .int n]

def lampsByNumber (n : Int) : Value := .list [.text "n".toText, .int n]

theorem reads_lamps : Memory.store.Reads (fun m => m = lamps) Document.IsNaNFree where
  index _ hm := hm
  read id m hm := (Memory.read_state id m).trans hm
  document id m d hm hd := by
    subst hm
    have hid := Memory.mem_of_read hd
    rw [read_lamp id hid] at hd
    obtain rfl := Except.ok.inj hd
    obtain rfl | rfl | rfl : id = "a".toText ∨ id = "b".toText ∨ id = "c".toText := by
      simpa [lamps] using hid
    all_goals
      unfold Document.IsNaNFree
      decide

/-- First the lamps that are on, the brightest of them first. -/
theorem sort_successively_lamps :
    let found := make Memory.store .nothing .nothing none
    ∃ docs, docs.map (·.field (.text "n".toText)) = [.ok (.int 2), .ok (.int 1), .ok (.int 5)] ∧
      (toList (found.sort (.value (.list [lampsByState (-1), lampsByNumber (-1)])), lamps)).1 =
        .ok docs ∧
      (toList ((found.sort (.value (.list [lampsByNumber (-1)]))).sort
        (.value (.list [lampsByState (-1)])), lamps)).1 = .ok docs ∧
      (toList (found.sort (.value (.list [lampsByState (-1), lampsByState 1, lampsByNumber (-1)])),
        lamps)).1 = .ok docs := by
  intro found
  obtain ⟨-, hboth, hrepeated⟩ := sort_successively reads_lamps .nothing none
    (rfl : SortOrder.keys (.list [lampsByState (-1)]) = .ok [⟨"on".toText, true⟩])
    (rfl : SortOrder.keys (.list [lampsByNumber (-1)]) = .ok [⟨"n".toText, true⟩]) rfl
  have hsame := hboth ⟨fun _ h => h, fun id m hm =>
    (Memory.read_state id m).trans hm, fun id m d _ hd => Memory.read_isJson hd⟩
  have hskip := hrepeated (lampsByState 1) ⟨"on".toText, false⟩ rfl (by decide)
  have htogether : (toList (found.sort
      (.value (.list [lampsByState (-1), lampsByNumber (-1)])), lamps)).1 =
      .ok (["c".toText, "a".toText, "b".toText].map fun id => .object (lamp id)) := by
    cbv
  exact ⟨_, rfl, htogether, hsame.symm.trans htogether, hskip.trans htogether⟩

/-! ## A mapping that has no order -/

/-- A field with a mapping whose names are a number and a text, and one with an empty mapping. -/
def yard : Disk :=
  [("p.yaml".toText, .file ("\x7ba: 1, b: \x7b1: 0, x: 0\x7d\x7d".toText.toUtf8.toOption.getD [])),
    ("q.yaml".toText, .file ("\x7ba: 2, b: \x7b\x7d\x7d".toText.toUtf8.toOption.getD []))]

def planted (id : Text) : Document :=
  if id = "p".toText then [(.text "a".toText, .int 1),
    (.text "b".toText, .object [(.int 1, .int 0), (.text "x".toText, .int 0)])]
  else [(.text "a".toText, .int 2), (.text "b".toText, .object [])]

theorem steady_yard : Steady (Folder.store .yaml ⟨[]⟩) (fun d => d = yard) (fun _ => [])
    ["p".toText, "q".toText] planted where
  index d hd := by
    subst hd
    refine ⟨yard, Prod.ext ?_ rfl, rfl, rfl⟩
    cbv
  read id hid d hd := by
    subst hd
    refine ⟨yard, Prod.ext ?_ rfl, rfl, rfl⟩
    show Folder.read .yaml ⟨[]⟩ id yard = .ok (planted id)
    rcases List.mem_cons.mp hid with rfl | hid
    · decide +kernel
    · obtain rfl := List.mem_singleton.mp hid
      decide +kernel

/-- By both fields the documents can be sorted, as the first one decides. By the second field alone
they cannot, so sorting by it first fails. -/
theorem sort_successively_fails :
    let found := make (Folder.store .yaml ⟨[]⟩) .nothing .nothing none
    let byField (f : String) : Value := .list [.text f.toText, .int 1]
    (toList (found.sort (.value (.list [byField "a", byField "b"])), yard)).1 =
      .ok [.object (planted "p".toText), .object (planted "q".toText)] ∧
    (toList ((found.sort (.value (.list [byField "b"]))).sort (.value (.list [byField "a"])),
      yard)).1 = .error (.unwritable (.unordered (.text "x".toText) (.int 1))) := by
  intro found byField
  have hsound : Progress.Sound (.still (fun d => d = yard) (fun _ => []) []) none
      ["p".toText, "q".toText] planted [] none yard := ⟨rfl, rfl⟩
  have hfits : Fits none ["p".toText, "q".toText] planted never [] := trivial
  obtain ⟨p, d, hdrain, -⟩ := drain_steady steady_yard [] hfits hsound
  have hfound : (drain (Folder.store .yaml ⟨[]⟩) none (conditionStages .nothing Condition.always)
      (Progress.rewound _) yard).1 = .ok (storedItems none ["p".toText, "q".toText] planted) :=
    congrArg Prod.fst hdrain
  refine ⟨(toList_found_sort rfl rfl yard).trans ?_, (toList_found_sort_sort rfl rfl rfl yard).trans ?_⟩
  · rw [hfound]
    cbv
  · rw [hfound]
    cbv

end Cursor

end Cabinet
