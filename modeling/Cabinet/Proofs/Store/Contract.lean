import Mathlib
import Cabinet.Proofs.Store.Action

/-!
# What a store is asked, and what it has to answer

* `Store.Request`, `Store.Reply`, `Store.serve` : the calls of a store, what they give, and runs of
  calls, which go on after one that fails;
* `Contents` : what a store stands for, a finite map from identifiers to documents;
* `Contents.Allows`, `Contents.after` : the results that a call may have, and what it leaves behind;
* `Contents.AllowsAll` : the results that a run may have;
* `Store.Refines` : a store that does on its states what the map does, call by call;
  `Store.Refines.serve` says that it does so run by run;
* `Contents.AllowsAll.alike` : two stores of which the same is true answer alike.
-/

namespace Cabinet

/-! ## Calls -/

namespace Store

variable {σ : Type}

/-- A call of a store. -/
inductive Request where
  | write (id : Text) (d : Document)
  | read (id : Text)
  | erase (id : Text)
  | exist (id : Text)
  | index

/-- What a call gives if it does not fail. -/
inductive Reply where
  | done
  | document (d : Document)
  | truth (b : Bool)
  | identifiers (ids : List Text)

def Request.run (s : Store σ) : Request → Action σ Reply
  | .write id d => (fun _ => .done) <$> s.write id (.object d)
  | .read id => .document <$> s.read id
  | .erase id => (fun _ => .done) <$> s.erase id
  | .exist id => .truth <$> s.exist id
  | .index => .identifiers <$> s.index

/-- The results of calls, one after another, and the state behind them. -/
def serve (s : Store σ) : List Request → σ → List (Except Failure Reply) × σ
  | [], w => ([], w)
  | q :: qs, w =>
    let (r, w) := q.run s w
    let (rs, w) := serve s qs w
    (r :: rs, w)

/-- Results are alike if they are the same, or list the same identifiers in some order. -/
inductive Alike : Except Failure Reply → Except Failure Reply → Prop where
  | same (r : Except Failure Reply) : Alike r r
  | reordered {ids ids' : List Text} : ids.Perm ids' →
      Alike (.ok (.identifiers ids)) (.ok (.identifiers ids'))

end Store

/-! ## What is allowed -/

/-- What a store stands for. -/
abbrev Contents := Finmap fun _ : Text => Document

namespace Contents
open Store

/-- Whether a call may have a result. Identifiers are listed in any order, but each only once. -/
def Allows (m : Contents) : Request → Except Failure Reply → Prop
  | .write _ _, r => r = .ok .done
  | .read id, r => r = match m.lookup id with
    | some d => .ok (.document d)
    | none => .error (.notFound id)
  | .erase id, r => r = if id ∈ m then .ok .done else .error (.notFound id)
  | .exist id, r => r = .ok (.truth (decide (id ∈ m)))
  | .index, r => ∃ ids : List Text, r = .ok (.identifiers ids) ∧ (ids : Multiset Text) = m.keys.val

/-- What a call leaves behind. -/
def after (m : Contents) : Request → Contents
  | .write id d => m.insert id d
  | .erase id => m.erase id
  | .read _ | .exist _ | .index => m

/-- Whether a run of calls may have these results. -/
inductive AllowsAll : Contents → List Request → List (Except Failure Reply) → Prop where
  | nil (m : Contents) : AllowsAll m [] []
  | cons {m : Contents} {q : Request} {qs : List Request} {r : Except Failure Reply}
      {rs : List (Except Failure Reply)} :
      m.Allows q r → AllowsAll (m.after q) qs rs → AllowsAll m (q :: qs) (r :: rs)

theorem erase_missing {m : Contents} {id : Text} (h : id ∉ m) : m.erase id = m := by
  apply Finmap.ext_lookup
  intro i
  by_cases hi : i = id
  · rw [hi, Finmap.lookup_erase, Finmap.lookup_eq_none.mpr h]
  · exact Finmap.lookup_erase_ne hi

variable {m : Contents} {r r' : Except Failure Reply} {rs rs' : List (Except Failure Reply)}

/-- Results that are allowed are alike: the map leaves only the order of a listing open. -/
theorem Allows.alike {q : Request} (h : m.Allows q r) (h' : m.Allows q r') : Alike r r' := by
  cases q with
  | index =>
    obtain ⟨ids, rfl, hids⟩ := h
    obtain ⟨ids', rfl, hids'⟩ := h'
    exact .reordered (Multiset.coe_eq_coe.mp (hids.trans hids'.symm))
  | write id d | read id | erase id | exist id =>
    unfold Allows at h h'
    rw [h, h']
    exact .same _

theorem AllowsAll.alike {qs : List Request} (h : AllowsAll m qs rs) :
    ∀ {rs'}, AllowsAll m qs rs' → List.Forall₂ Alike rs rs' := by
  induction h with
  | nil m =>
    intro rs' h'
    cases h'
    exact .nil
  | cons hr _ ih =>
    intro rs' h'
    cases h' with
    | cons hr' hrs' => exact .cons (hr.alike hr') (ih hrs')

end Contents

/-! ## Stores that refine the map -/

namespace Store

variable {σ : Type} {s : Store σ} {fits : Request → Prop} {holds : Contents → σ → Prop}

/-- Every call that fits, made in a state that holds a content, has a result that the content allows
and leaves a state that holds what comes after. -/
def Refines (s : Store σ) (fits : Request → Prop) (holds : Contents → σ → Prop) : Prop :=
  ∀ m w q, fits q → holds m w → m.Allows q (q.run s w).1 ∧ holds (m.after q) (q.run s w).2

theorem Refines.serve (hs : Refines s fits holds) : ∀ {qs : List Request} {m : Contents} {w : σ},
    (∀ q ∈ qs, fits q) → holds m w →
    m.AllowsAll qs (s.serve qs w).1 ∧ holds (qs.foldl Contents.after m) (s.serve qs w).2
  | [], m, w, _, hw => ⟨.nil m, hw⟩
  | q :: qs, m, w, hqs, hw => by
    obtain ⟨hq, hqs⟩ := List.forall_mem_cons.mp hqs
    obtain ⟨hallows, hw'⟩ := hs m w q hq hw
    obtain ⟨hall, hend⟩ := Refines.serve hs hqs hw'
    exact ⟨.cons hallows hall, hend⟩

end Store

end Cabinet
