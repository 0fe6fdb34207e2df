import Cabinet.Store.Basic

/-!
# Stores that keep a record

`Store.traced` puts a store behind a wrapper that records every operation it is asked for, and can
be told to feign failures: of reading some identifiers, and of writing more than a number of times.
The wrapper keeps the store's name and its keys.
-/

namespace Cabinet

/-- An operation that a store was asked for. -/
structure Call where
  operation : Operation
  /-- The identifier it was about; the index is about none. -/
  id : Option Text
  deriving DecidableEq, Repr

/-- Where the record is kept in a state. -/
structure Recorder (σ : Type) where
  record : Call → σ → σ
  /-- How many writes have gone through. -/
  written : σ → Nat
  countWrite : σ → σ

/-- The failures to feign. -/
structure Faults where
  unreadable : List Text
  /-- How many writes may go through. -/
  writes : Option Nat

namespace Store

/-- Records an operation, then does it. -/
def recorded {σ α : Type} (r : Recorder σ) (op : Operation) (id : Option Text) (a : Action σ α) :
    Action σ α :=
  fun s => a (r.record ⟨op, id⟩ s)

/-- Writes, unless as many writes as may have gone through. -/
def countedWrite {σ : Type} (r : Recorder σ) (limit : Option Nat) (a : Action σ Unit) :
    Action σ Unit :=
  fun s =>
    if limit.any fun n => n ≤ r.written s then (.error (.feigned "disk full".toText), s)
    else match a s with
      | (.ok (), s) => (.ok (), r.countWrite s)
      | failed => failed

/-- The store with a record of what it was asked for. -/
def traced {σ : Type} (r : Recorder σ) (faults : Faults) (s : Store σ) : Store σ where
  name := s.name
  read id := recorded r .read id <|
    if faults.unreadable.elem id then .ofExcept (.error (.feigned ("broken: ".toText ++ id)))
    else s.read id
  write id d := recorded r .write id (countedWrite r faults.writes (s.write id d))
  erase id := recorded r .erase id (s.erase id)
  exist id := recorded r .exist id (s.exist id)
  index := recorded r .index none s.index
  escape := s.escape
  unescape := s.unescape
  encode := encodeJson .compact s.name
  decode := decodeJson s.name

end Store

end Cabinet
