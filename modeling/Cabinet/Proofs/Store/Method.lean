import Cabinet.Proofs.Store.Action

/-!
# The methods of a store

All that a store can be asked, as one type.

* `Store.Method`, `Store.Answer`, `Method.run` : the methods with their arguments, what they give, and
  what they do;
* `Method.operation?` : the operation that a wrapper may refuse a method as;
* `Method.changes` : the methods that may change something;
* `Store.answers` : methods one after another, which go on after one that fails;
* `Method.run_focus` : a method of a store over a part of a state.
-/

namespace Cabinet

variable {σ τ : Type}

namespace Store

/-- A method of a store, with its arguments. -/
inductive Method where
  | read (id : Text)
  | write (id : Text) (document : Value)
  | erase (id : Text)
  | exist (id : Text)
  | index
  | escape (id : Text)
  | unescape (key : Text)
  | encode (document : Value)
  | decode (kept : Text)

/-- What a method gives if it does not fail. -/
inductive Answer where
  | done
  | document (d : Document)
  | truth (b : Bool)
  | identifiers (ids : List Text)
  | text (t : Text)
  deriving DecidableEq

namespace Method

def run (s : Store σ) : Method → Action σ Answer
  | .read id => .document <$> s.read id
  | .write id v => (fun _ => .done) <$> s.write id v
  | .erase id => (fun _ => .done) <$> s.erase id
  | .exist id => .truth <$> s.exist id
  | .index => .identifiers <$> s.index
  | .escape id => .ofExcept ((s.escape id).map .text)
  | .unescape key => .ofExcept ((s.unescape key).map .text)
  | .encode v => .ofExcept ((s.encode v).map .text)
  | .decode kept => .ofExcept ((s.decode kept).map .document)

/-- The operation that a method can be refused as; keys and texts are never refused. -/
def operation? : Method → Option Operation
  | .read _ => some .read
  | .write _ _ => some .write
  | .erase _ => some .erase
  | .exist _ => some .exist
  | .index => some .index
  | .escape _ | .unescape _ | .encode _ | .decode _ => none

/-- Whether a method may change what is stored. -/
def changes : Method → Bool
  | .write _ _ | .erase _ => true
  | .read _ | .exist _ | .index | .escape _ | .unescape _ | .encode _ | .decode _ => false

end Method

/-- What methods give, one after another, and the state behind them. -/
def answers (s : Store σ) : List Method → σ → List (Except Failure Answer) × σ
  | [], w => ([], w)
  | m :: ms, w =>
    let (r, w) := m.run s w
    let (rs, w) := answers s ms w
    (r :: rs, w)

theorem answers_cons (s : Store σ) (m : Method) (ms : List Method) (w : σ) :
    s.answers (m :: ms) w =
      ((m.run s w).1 :: (s.answers ms (m.run s w).2).1, (s.answers ms (m.run s w).2).2) := rfl

theorem answers_append (s : Store σ) (ms ms' : List Method) (w : σ) :
    s.answers (ms ++ ms') w =
      ((s.answers ms w).1 ++ (s.answers ms' (s.answers ms w).2).1,
        (s.answers ms' (s.answers ms w).2).2) := by
  induction ms generalizing w with
  | nil => rfl
  | cons m ms ih => rw [List.cons_append, answers_cons, ih, answers_cons, List.cons_append]

/-- A method of a store over a part of a state does to the part what it does by itself. -/
theorem Method.run_focus (get : σ → τ) (put : τ → σ → σ) (s : Store τ) (m : Method)
    (hkeeps : ∀ w, put (get w) w = w) (w : σ) :
    m.run (s.focus get put) w = ((m.run s (get w)).1, put (m.run s (get w)).2 w) := by
  cases m with
  | read id | write id v | erase id | exist id | index =>
    simp only [run, focus, Action.map_apply, Action.focus]
    rfl
  | escape id | unescape key | encode v | decode kept =>
    simp only [run, focus, Action.ofExcept_apply, hkeeps]

end Store

end Cabinet
