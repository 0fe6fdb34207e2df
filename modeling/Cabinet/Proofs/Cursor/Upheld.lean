import Cabinet.Proofs.Cursor.Guard
import Cabinet.Proofs.Cursor.Rewinding

/-!
# Cursors only read

A cursor asks its store for the identifiers and for documents, and for nothing else. So the state of the
store stays one of those that listing and reading stay within, whatever the cursor is asked for.

* `pull_state`, `drain_state` : a chain stays within such states;
* `Cursor.Over`, `lasting_over` : a cursor over a store in one of some states, which goes on through every
  call, also where it fails half-way;
* `Request.Keeps`, `ensures_run` : and through every request, if the functions that come with it keep it.
-/

namespace Cabinet

variable {σ α : Type} {s : Store σ} {states : σ → Prop}

open Cabinet.Action

section Chains
variable {idField : Option Text}

theorem source_keeps (hs : s.Reads states fun _ => True) (idField : Option Text) :
    Guards (Stage.source s idField) (fun _ => states) (fun _ => True) fun _ _ => states :=
  (source_reads hs idField).mono (fun _ _ => trivial) fun _ _ _ h => h

theorem pull_state (hs : s.Reads states fun _ => True) {chain : List Stage} (p : Progress chain) {w : σ}
    (hw : states w) : states (pull s idField chain p w).2.2 := by
  have hstock : ∀ items, Stage.Stocked (fun _ => True) items := fun _ _ _ _ _ => trivial
  have hpull := pull_keeps (source_keeps hs idField) chain (fun _ _ _ _ _ _ => trivial) p w
    ((Progress.each_state hstock chain).mpr hw)
  exact (Progress.each_state hstock chain).mp hpull.keeps

theorem drain_state (hs : s.Reads states fun _ => True) {chain : List Stage} (p : Progress chain) {w : σ}
    (hw : states w) : states (drain s idField chain p w).2.2 := by
  have hstock : ∀ items, Stage.Stocked (fun _ => True) items := fun _ _ _ _ _ => trivial
  have hdrain := drain_keeps (source_keeps hs idField) (fun _ _ _ _ _ _ => trivial)
    ((Progress.each_state hstock chain (p := p)).mpr hw)
  exact (Progress.each_state hstock chain).mp hdrain.keeps

end Chains

namespace Cursor

/-- A cursor over a store, and the store in one of some states. -/
def Over (s : Store σ) (states : σ → Prop) (x : Cursor σ × σ) : Prop := x.1.store = s ∧ states x.2

/-- A store that is only read stays within the states. -/
theorem lasting_over (hs : s.Reads states fun _ => True) : Lasting (Over s states) where
  pulls := ensures_of_state fun (c, w) hx => by
    obtain ⟨rfl, hw⟩ : c.store = s ∧ states w := hx
    exact ⟨rfl, pull_state hs c.progress hw⟩
  drains := ensures_of_state fun (c, w) hx => by
    obtain ⟨rfl, hw⟩ : c.store = s ∧ states w := hx
    exact ⟨rfl, drain_state hs c.progress hw⟩
  lists := ensures_of_state fun (c, w) hx => by
    obtain ⟨rfl, hw⟩ : c.store = s ∧ states w := hx
    exact ⟨rfl, hs.index w hw⟩
  keeps hsame hx := ⟨hsame.store.trans hx.1, hx.2⟩

theorem ensures_callback {callback : Value → Action σ Unit} {d : Value}
    (hcallback : Ensures states (callback d) fun _ => True) :
    Ensures (Over s states) (onStore fun _ => callback d) fun _ => True :=
  ensures_of_state fun (_, w) hx => ⟨hx.1, (hcallback w hx.2).1⟩

/-! ## Requests -/

/-- The functions that come with a request stay within some states. -/
def Request.Keeps (states : σ → Prop) : Request σ → Prop
  | .call (.each callback) => ∀ d, Ensures states (callback d) fun _ => True
  | .call (.change f) => ∀ w, states w → states (f w)
  | _ => True

theorem ensures_run (hs : s.Reads states fun _ => True) {q : Request σ} (hq : q.Keeps states) :
    Ensures (Over s states) q.run fun _ => True := by
  have hlasts : Lasting (Over s states) := lasting_over hs
  cases q with
  | items => exact hlasts.items.map
  | iterate => exact hlasts.iterate.map
  | call asked =>
    cases asked with
    | build clause =>
      exact ensures_of_state fun x hx => ⟨(run_keeps (.build clause) x).2.trans hx.1, hx.2⟩
    | next => exact hlasts.next.map
    | index => exact hlasts.index.map
    | toList => exact hlasts.toList.map
    | each callback => exact (hlasts.each fun d => ensures_callback (hq d)).map
    | count => exact hlasts.count.map
    | rewind => exact ensures_of_state fun _ hx => hx
    | change f => exact ensures_of_state fun x hx => ⟨hx.1, hq x.2 hx.2⟩

end Cursor

end Cabinet
