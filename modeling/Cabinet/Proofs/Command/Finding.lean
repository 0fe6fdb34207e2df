import Cabinet.Proofs.Command.Script

/-!
# What a command line finds

* `Command.queryOf`, `Command.found` : the query of a search without its offset and its limit, and the
  documents that the whole search gives; `performFind_eq` : the command shows those;
* `found_window` : with an offset and a limit a search gives what remains of all documents after as many,
  up to as many;
* `Command.Asks` : a command line that asks for a search;
* `Command.shows`, `script_eq_shows` : all that such a line does is to show the documents that it finds.
-/

namespace Cabinet

/-! ## Searches -/

namespace Search

/-- The search without an offset and a limit. -/
def whole (search : Search) : Search := { search with offset := 0, limit := none, showsAll := true }

/-- The search with an offset and a limit. -/
def window (search : Search) (offset limit : Nat) : Search :=
  { search with offset := offset, limit := some (limit : Int) }

end Search

namespace Command

open Script

/-- The query of a search, without its offset and its limit. -/
def queryOf (search : Search) (place : Place) : Script (Cursor Premises) := do
  let c ← openPlace place false
  let condition ← ofUsage (parseOption "--condition" search.condition)
  let projection ← ofUsage (parseOption "--projection" search.projection)
  let query := c.find (.value condition) (.value projection)
    (if search.withIds then some "_id".toText else none)
  let order ← ofUsage (parseOption "--sort" search.order)
  return if order = .null then query else query.sort (.value order)

/-- The documents of a query within the offset and the limit of a search. -/
def windowOf (search : Search) (query : Cursor Premises) : Script (List Value) := do
  let query ← if search.offset = 0 then pure query
    else Script.ofExcept (query.offset (.int search.offset))
  let limit ← limitOf search
  let query ← if limit = .null then pure query else Script.ofExcept (query.limit limit)
  results query

/-- The documents that a search gives. -/
def found (search : Search) (place : Place) : Script (List Value) := do
  windowOf search (← queryOf search place)

theorem ite_bind {α β : Type} (p : Prop) [Decidable p] (a b : Script α) (f : α → Script β) :
    (if p then a else b) >>= f = if p then a >>= f else b >>= f := by
  split <;> rfl

theorem performFind_eq (search : Search) (place : Place) :
    performFind search place = found search place >>= showDocuments search.format := by
  simp only [performFind, found, queryOf, windowOf, bind_assoc, pure_bind, ite_bind]

theorem queryOf_still (search : Search) (place : Place) :
    Still (queryOf search place) fun query => ∃ s, IsFolder s ∧ Cursor.IsNew s query := by
  have hany : ∀ {α : Type} {r : Except Usage α}, Still (ofUsage r) fun _ => True :=
    still_ofUsage fun _ _ => trivial
  refine (openPlace_still place).bind fun c hc => ?_
  refine hany.bind fun condition _ => hany.bind fun projection _ => hany.bind fun order _ => ?_
  refine still_pure ⟨c.store, hc, ?_⟩
  have hfind : Cursor.IsNew c.store (c.find (.value condition) (.value projection)
      (if search.withIds then some "_id".toText else none)) := Cursor.isNew_make ..
  split
  · exact hfind
  · exact hfind.addTo (rfl : Cursor.Clause.addTo _ (.sort (.value order)) = .ok _)

theorem results_iff {query : Cursor Premises} {sh : Shell} {docs : List Value} :
    results query sh = (.ok docs, sh) ↔
      ∃ after, Cursor.toList (query, sh.premises) = (.ok docs, after, sh.premises) := by
  unfold results Script.onPremises Collection.runQuery
  generalize Cursor.toList (query, sh.premises) = r
  rcases r with ⟨_ | docs', after, p⟩
  · constructor
    · intro h
      cases h
    · rintro ⟨_, h⟩
      cases h
  · constructor
    · intro h
      obtain ⟨hdocs, hsh⟩ := Prod.mk.inj h
      obtain rfl := Except.ok.inj hdocs
      exact ⟨after, by rw [← congrArg Shell.premises hsh]⟩
    · rintro ⟨_, h⟩
      cases h
      rfl

/-- An offset that leaves out nothing adds no stage, but any other does. -/
theorem windowOf_eq (search : Search) (offset limit : Nat) (query : Cursor Premises) :
    windowOf (search.window offset limit) query =
      results ((if offset = 0 then query else query.addOffset offset).addLimit limit) := by
  have hoffset : Script.ofExcept (query.offset (.int offset)) = pure (query.addOffset offset) := rfl
  have hlimit : ∀ c : Cursor Premises, Script.ofExcept (c.limit (.int limit)) = pure (c.addLimit limit) :=
    fun _ => rfl
  have hnull : ¬ (Value.int limit) = .null := nofun
  simp only [windowOf, Search.window, limitOf, hoffset, hlimit, if_neg hnull, Int.natCast_eq_zero, pure_bind]
  split <;> rfl

theorem windowOf_ok {search : Search} {s : Store Premises} {query : Cursor Premises} {sh : Shell}
    {docs : List Value} (hfolder : IsFolder s) (hnew : Cursor.IsNew s query)
    (h : results query sh = (.ok docs, sh)) (offset limit : Nat) :
    windowOf (search.window offset limit) query sh = (.ok ((docs.drop offset).take limit), sh) := by
  have hrest : ∃ c after, (if offset = 0 then query else query.addOffset offset) = c ∧
      Cursor.IsNew s c ∧ Cursor.toList (c, sh.premises) = (.ok (docs.drop offset), after, sh.premises) := by
    obtain ⟨after, hall⟩ := results_iff.mp h
    split
    · next hzero =>
      rw [hzero]
      exact ⟨query, after, rfl, hnew, hall⟩
    · obtain ⟨after, hrest⟩ := Cursor.toList_offset hnew.results hall offset
      exact ⟨query.addOffset offset, after, rfl, ⟨hnew.store, hnew.results⟩, hrest⟩
  obtain ⟨c, after, hc, hnew, hrest⟩ := hrest
  obtain ⟨after, p, hpage⟩ := Cursor.toList_limit hnew.results hrest limit
  have hkeeps : p = sh.premises := by
    have hstore : (c.addLimit limit).store = s := hnew.store
    have hsame := toList_premises (hstore ▸ hfolder) sh.premises
    rwa [hpage] at hsame
  subst hkeeps
  rw [windowOf_eq, hc, results_iff]
  exact ⟨after, hpage⟩

/-- Where a search without a limit gives all documents, it does so over the same premises whatever else
is in the shell, and with an offset and a limit it gives what remains after as many, up to as many. It
leaves the shell as it is. -/
theorem found_window {search : Search} {place : Place} {sh sh' : Shell} {docs : List Value}
    (h : found search.whole place sh = (.ok docs, sh')) (sh₁ : Shell)
    (hsame : sh₁.premises = sh.premises) :
    found search.whole place sh₁ = (.ok docs, sh₁) ∧ ∀ offset limit : Nat,
      found (search.window offset limit) place sh₁ =
        (.ok ((docs.drop offset).take limit), sh₁) := by
  obtain ⟨query, sh₂, hquery, hresults⟩ := bind_ok h
  obtain rfl := (queryOf_still _ place).same hquery
  obtain ⟨⟨s, hfolder, hnew⟩, hgives⟩ := queryOf_still _ place _ _ _ hquery
  -- Without an offset and a limit the query is run as it is.
  have hresults : results query sh₂ = (.ok docs, sh') := hresults
  obtain ⟨-, hall⟩ := results_still (hnew.store ▸ hfolder) _ docs sh' hresults
  have hquery : queryOf search place sh₁ = (.ok query, sh₁) := hgives sh₁ hsame
  exact ⟨(bind_of_ok hquery).trans (hall sh₁ hsame), fun offset limit =>
    (bind_of_ok hquery).trans (windowOf_ok hfolder hnew (hall sh₁ hsame) offset limit)⟩

/-! ## Command lines -/

/-- A command line asks for a search, and perhaps that more be said. -/
def Asks (texts : List Text) (isVerbose : Bool) (search : Search) (place : Place) : Prop :=
  ∃ request, Request.ofTexts texts = .ok request ∧ request.isVerbose = isVerbose ∧
    request.read request.arguments = .ok (.find search place)

/-- What a command line does with documents that it has found: it shows them. -/
def shows (isVerbose : Bool) (format : Text) (docs : List Value) : Script Unit := do
  let config ← Script.onPremises Config.load
  if isVerbose || config.verbose.isTrue then Script.say "Verbose mode enabled.".toText
  (showDocuments format docs).reporting

/-- A command line that asks for a search does nothing but show what the search gives. -/
theorem script_eq_shows {texts : List Text} {isVerbose : Bool} {search : Search} {place : Place}
    (hasks : Asks texts isVerbose search place) {sh : Shell} {docs : List Value}
    (hfound : ∀ sh₁ : Shell, sh₁.premises = sh.premises → found search place sh₁ = (.ok docs, sh₁)) :
    script texts sh = shows isVerbose search.format docs sh := by
  obtain ⟨request, hrequest, rfl, hcommand⟩ := hasks
  have hperform : ∀ sh₁ : Shell, sh₁.premises = sh.premises →
      (Command.find search place).perform sh₁ = (showDocuments search.format docs).reporting sh₁ := by
    intro sh₁ hsame
    rw [perform, performFind_eq]
    exact reporting_congr (bind_of_ok (hfound sh₁ hsame))
  unfold script shows
  simp only [ofUsage_of_ok hrequest, ofUsage_of_ok hcommand, pure_bind]
  refine bind_eq_bind fun config sh₁ hload => ?_
  obtain rfl := load_still.same hload
  split
  · exact bind_eq_bind fun _ sh₂ hsay => hperform sh₂ (premises_say hsay)
  · exact hperform sh₁ rfl

end Command

end Cabinet
