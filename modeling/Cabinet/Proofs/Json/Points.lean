import Cabinet.Json.Writer
import Cabinet.Proofs.Store.Action

/-!
# The code points of JSON text

Apart from the texts in it, a value is written in ASCII, and every control is escaped.

* `Text.Within` : a text whose code points are all of a class;
* `Json.HoldsAscii` : a class that holds all that values are written in;
* `Value.scalars` : the scalars in a value, the names of fields included;
* `Json.isNumeric_magnitude` : the characters of a double;
* `Json.render_within` : a value is written in a class that holds its texts, too.
-/

namespace Cabinet

variable {C : CodePoint → Prop}

/-! ## Classes of code points -/

/-- All code points of a text are of a class. -/
def Text.Within (C : CodePoint → Prop) (t : Text) : Prop := ∀ p ∈ t, C p

theorem Text.within_append {t u : Text} :
    Text.Within C (t ++ u) ↔ Text.Within C t ∧ Text.Within C u :=
  List.forall_mem_append

theorem Text.within_cons {p : CodePoint} {t : Text} :
    Text.Within C (p :: t) ↔ C p ∧ Text.Within C t :=
  List.forall_mem_cons

theorem Text.within_nil : Text.Within C [] := fun _ hp => absurd hp List.not_mem_nil

/-- The text that a scalar is written with between quotes; a scalar with a literal has none. -/
def Scalar.ownText : Scalar → Text
  | .text t => t
  | s@(.date _) | s@(.timestamp _) | s@(.bytes _) => s.plain
  | .null | .bool _ | .int _ | .float _ => []

namespace Value

mutual

/-- The scalars in a value, from left to right. The name of a field comes before its value. -/
def scalars : Value → List Scalar
  | .scalar s => [s]
  | .list xs => scalarsOfItems xs
  | .object fs => scalarsOfFields fs

def scalarsOfItems : List Value → List Scalar
  | [] => []
  | x :: xs => scalars x ++ scalarsOfItems xs

def scalarsOfFields : List (Scalar × Value) → List Scalar
  | [] => []
  | (key, x) :: fs => key :: scalars x ++ scalarsOfFields fs

end

theorem scalarsOfItems_eq (xs : List Value) : scalarsOfItems xs = xs.flatMap scalars := by
  induction xs with
  | nil => rfl
  | cons x xs ih => rw [scalarsOfItems, ih, List.flatMap_cons]

theorem scalarsOfFields_eq (fs : List (Scalar × Value)) :
    scalarsOfFields fs = fs.flatMap fun f => f.1 :: f.2.scalars := by
  induction fs with
  | nil => rfl
  | cons f fs ih =>
    obtain ⟨key, x⟩ := f
    rw [scalarsOfFields, ih, List.flatMap_cons]

theorem mem_scalars_list {xs : List Value} {s : Scalar} :
    s ∈ (list xs).scalars ↔ ∃ x ∈ xs, s ∈ x.scalars := by
  rw [scalars, scalarsOfItems_eq, List.mem_flatMap]

theorem mem_scalars_object {fs : List (Scalar × Value)} {s : Scalar} :
    s ∈ (object fs).scalars ↔ ∃ f ∈ fs, s = f.1 ∨ s ∈ f.2.scalars := by
  rw [scalars, scalarsOfFields_eq, List.mem_flatMap]
  exact exists_congr fun f => and_congr_right fun _ => List.mem_cons

end Value

namespace Json
open Text (Within within_append within_cons within_nil)

/-- An ASCII character that is a line feed or no control. -/
def isPlainAscii (c : Char) : Bool := c == '\n' || 0x20 ≤ c.toNat && c.toNat < 0x7F

/-- A class that holds the line feed and every ASCII character that is no control. -/
def HoldsAscii (C : CodePoint → Prop) : Prop := ∀ c, isPlainAscii c = true → C (.char c)

/-- A class that holds the text in a scalar, its controls apart, unless only ASCII is written. -/
def HoldsText (C : CodePoint → Prop) (asciiOnly : Bool) (s : Scalar) : Prop :=
  ∀ p ∈ s.ownText, asciiOnly = false → 0x20 ≤ p.toNat → C p

theorem within_map_char (hC : HoldsAscii C) {cs : List Char} (h : ∀ c ∈ cs, isPlainAscii c = true) :
    Within C (cs.map .char) := by
  intro p hp
  obtain ⟨c, hc, rfl⟩ := List.mem_map.mp hp
  exact hC c (h c hc)

theorem within_toText (hC : HoldsAscii C) {s : String}
    (h : s.toList.all isPlainAscii = true) : Within C s.toText :=
  within_map_char hC (List.all_eq_true.mp h)

/-! ## Numbers -/

/-- A character of a number. -/
def isNumeric (c : Char) : Bool := c.isDigit || ".e+-".toList.elem c

theorem isPlainAscii_of_isNumeric {c : Char} (h : isNumeric c = true) : isPlainAscii c = true := by
  rw [isNumeric, Bool.or_eq_true] at h
  rcases h with h | h
  · simp only [Char.isDigit, Bool.and_eq_true, decide_eq_true_eq, ge_iff_le,
      UInt32.le_iff_toNat_le] at h
    change 48 ≤ c.toNat ∧ c.toNat ≤ 57 at h
    simp only [isPlainAscii, Bool.or_eq_true, Bool.and_eq_true, decide_eq_true_eq]
    exact .inr ⟨by omega, by omega⟩
  · have hmarks : ".e+-".toList.all isPlainAscii = true := by decide
    exact List.all_eq_true.mp hmarks c (List.elem_iff.mp h)

theorem within_numeric (hC : HoldsAscii C) {cs : List Char} (h : ∀ c ∈ cs, isNumeric c = true) :
    Within C (cs.map .char) :=
  within_map_char hC fun c hc => isPlainAscii_of_isNumeric (h c hc)

theorem isNumeric_toDigits {n : Nat} {c : Char} (h : c ∈ Nat.toDigits 10 n) :
    isNumeric c = true := by
  rw [isNumeric, Nat.isDigit_of_mem_toDigits (by decide) (by decide) h]
  rfl

theorem isNumeric_digits {units : Nat} {c : Char} (h : c ∈ (Shortest.digits units).1) :
    isNumeric c = true := by
  rw [Shortest.digits] at h
  have hall := (List.dropWhile_sublist _).mem (List.mem_reverse.mp h)
  exact isNumeric_toDigits (List.mem_reverse.mp hall)

theorem isNumeric_zeros (n : Nat) : ∀ c ∈ List.replicate n '0', isNumeric c = true := by
  intro c hc
  rw [List.eq_of_mem_replicate hc]
  decide

theorem isNumeric_positional {ds : List Char} (hds : ∀ c ∈ ds, isNumeric c = true) (p : Int) :
    ∀ c ∈ Shortest.positional ds p, isNumeric c = true := by
  have hzero : isNumeric '0' = true := by decide
  have hpoint : isNumeric '.' = true := by decide
  simp only [Shortest.positional]
  split
  · simp only [List.cons_append, List.forall_mem_cons, List.forall_mem_append]
    exact ⟨hzero, hpoint, isNumeric_zeros _, hds⟩
  split
  · simp only [List.forall_mem_append, List.forall_mem_cons]
    exact ⟨⟨hds, isNumeric_zeros _⟩, hpoint, hzero, by simp⟩
  · simp only [List.forall_mem_append, List.forall_mem_cons]
    exact ⟨fun c hc => hds c (List.mem_of_mem_take hc), hpoint,
      fun c hc => hds c (List.mem_of_mem_drop hc)⟩

theorem isNumeric_scientific {ds : List Char} (hds : ∀ c ∈ ds, isNumeric c = true) (p : Int) :
    ∀ c ∈ Shortest.scientific ds p, isNumeric c = true := by
  have hsign : isNumeric (if p - 1 < 0 then '-' else '+') = true := by split <;> decide
  unfold Shortest.scientific
  simp only [List.forall_mem_append, List.forall_mem_cons]
  refine ⟨?_, by decide, hsign, ?_⟩
  · split
    · simp only [List.forall_mem_cons] at hds ⊢
      exact ⟨hds.1, by decide, hds.2⟩
    · exact hds
  split
  · exact List.forall_mem_cons.mpr ⟨by decide, fun c => isNumeric_toDigits⟩
  · exact fun c => isNumeric_toDigits

theorem isNumeric_magnitude (units : Nat) : ∀ c ∈ Shortest.magnitude units, isNumeric c = true := by
  rw [Shortest.magnitude]
  split
  · exact List.all_eq_true.mp (by decide)
  · simp only
    split
    · exact isNumeric_positional (fun c => isNumeric_digits) _
    · exact isNumeric_scientific (fun c => isNumeric_digits) _

theorem within_double (hC : HoldsAscii C) (x : Double) : Within C (renderDouble x) := by
  cases x with
  | nan => exact within_toText hC (by decide)
  | infinity negative => cases negative <;> exact within_toText hC (by decide)
  | finite negative units h =>
    rw [renderDouble, Double.text]
    · have hshown := within_numeric hC (isNumeric_magnitude units)
      cases negative with
      | false => exact hshown
      | true => exact within_cons.mpr ⟨hC '-' (by decide), hshown⟩
    · exact nofun
    · exact nofun

theorem within_ofNat (hC : HoldsAscii C) (n : Nat) : Within C (Text.ofNat n) :=
  within_numeric hC fun _ => isNumeric_toDigits

theorem within_ofInt (hC : HoldsAscii C) (n : Int) : Within C (Text.ofInt n) := by
  cases n with
  | ofNat n => exact within_ofNat hC n
  | negSucc n => exact within_cons.mpr ⟨hC '-' (by decide), within_ofNat hC (n + 1)⟩

/-! ## Text -/

theorem within_hex (hC : HoldsAscii C) : ∀ width n : Nat, Within C (Text.hex width n)
  | 0, _ => within_nil
  | width + 1, n => by
    rw [Text.hex]
    refine within_append.mpr ⟨within_hex hC width (n / 16), within_cons.mpr ⟨?_, within_nil⟩⟩
    have hdigit : ∀ k < 16, isPlainAscii (Nat.digitChar k) = true := by decide
    exact hC _ (hdigit (n % 16) (Nat.mod_lt n (by decide)))

theorem within_escapeNumber (hC : HoldsAscii C) (n : Nat) : Within C (escapeNumber n) := by
  have hmark : Within C "\\u".toText := within_toText hC (by decide)
  rw [escapeNumber]
  split
  · exact within_append.mpr ⟨hmark, within_hex hC 4 n⟩
  · exact within_append.mpr ⟨within_append.mpr ⟨within_append.mpr ⟨hmark, within_hex hC 4 _⟩,
      hmark⟩, within_hex hC 4 _⟩

theorem plain_of_small (hC : HoldsAscii C) {p : CodePoint} (hlow : 0x20 ≤ p.toNat)
    (hp : p.toNat ≤ 0x7E) : C p := by
  cases p with
  | char c =>
    refine hC c ?_
    simp only [isPlainAscii, Bool.or_eq_true, Bool.and_eq_true, decide_eq_true_eq]
    exact .inr ⟨hlow, Nat.lt_of_le_of_lt hp (by decide)⟩
  | surrogate u =>
    have hu : 0xD800 + u.val ≤ 0x7E := hp
    omega

theorem within_escape (hC : HoldsAscii C) (asciiOnly : Bool) {p : CodePoint}
    (hp : asciiOnly = false → 0x20 ≤ p.toNat → C p) : Within C (escape asciiOnly p) := by
  rw [escape.eq_def]
  split
  · exact within_toText hC (by decide)
  · exact within_toText hC (by decide)
  · exact within_toText hC (by decide)
  · exact within_toText hC (by decide)
  · exact within_toText hC (by decide)
  · simp only
    split
    · exact within_toText hC (by decide)
    split
    · exact within_toText hC (by decide)
    split
    · exact within_escapeNumber hC _
    · next hraw =>
      simp only [Bool.or_eq_true, Bool.and_eq_true, decide_eq_true_eq, not_or, not_and, not_lt] at hraw
      refine within_cons.mpr ⟨?_, within_nil⟩
      cases asciiOnly with
      | false => exact hp rfl hraw.1
      | true => exact plain_of_small hC hraw.1 (hraw.2 rfl)

theorem within_renderText (hC : HoldsAscii C) (asciiOnly : Bool) {t : Text}
    (ht : ∀ p ∈ t, asciiOnly = false → 0x20 ≤ p.toNat → C p) : Within C (renderText asciiOnly t) := by
  have hquote : C (.char '"') := hC '"' (by decide)
  refine within_append.mpr ⟨within_cons.mpr ⟨hquote, fun q hq => ?_⟩,
    within_cons.mpr ⟨hquote, within_nil⟩⟩
  obtain ⟨p, hp, hq⟩ := List.mem_flatMap.mp hq
  exact within_escape hC asciiOnly (ht p hp) q hq

theorem within_scalar (hC : HoldsAscii C) (asciiOnly : Bool) {s : Scalar} (hs : HoldsText C asciiOnly s) :
    Within C (renderScalar asciiOnly s) := by
  cases s with
  | null => exact within_toText hC (by decide)
  | bool b => cases b <;> exact within_toText hC (by decide)
  | int n => exact within_ofInt hC n
  | float x => exact within_double hC x
  | text t | date d | timestamp d | bytes d => exact within_renderText hC asciiOnly hs

theorem within_name (hC : HoldsAscii C) (asciiOnly : Bool) {s : Scalar} (hs : HoldsText C asciiOnly s) :
    Within C (renderName asciiOnly s) := by
  cases s with
  | text t | date d | timestamp d | bytes d => exact within_renderText hC asciiOnly hs
  | null | bool b | int n | float x =>
    exact within_renderText hC asciiOnly fun p hp _ _ => within_scalar hC asciiOnly hs p hp

/-! ## Values -/

theorem within_lineBreak (hC : HoldsAscii C) (style : Style) (level : Nat) :
    Within C (style.lineBreak level) := by
  rw [Style.lineBreak]
  split
  · exact within_nil
  · refine within_cons.mpr ⟨hC '\n' (by decide), fun p hp => ?_⟩
    rw [List.eq_of_mem_replicate hp]
    exact hC ' ' (by decide)

/-- A layout whose separators are of a class. -/
structure Style.Within (C : CodePoint → Prop) (style : Style) : Prop where
  item : Text.Within C style.itemSeparator.toText
  name : Text.Within C style.nameSeparator.toText

theorem Style.within_indented (hC : HoldsAscii C) : Style.indented.Within C :=
  ⟨within_toText hC (by decide), within_toText hC (by decide)⟩

section Values
variable {style : Style}

mutual

/-- A value is written in a class that holds ASCII and, unless only ASCII is written, the texts in the
value. -/
theorem render_within (hC : HoldsAscii C) (h : style.Within C) : ∀ (level : Nat) (v : Value),
    (∀ s ∈ v.scalars, HoldsText C style.asciiOnly s) → Within C (render style level v)
  | level, .scalar s, hv => within_scalar hC style.asciiOnly (hv s (List.mem_singleton_self s))
  | level, .list [], _ => within_toText (s := "[]") hC (by decide)
  | level, .list (x :: xs), hv => by
    obtain ⟨hx, hxs⟩ := List.forall_mem_append.mp hv
    simp only [render, List.cons_append, within_cons, within_append]
    exact ⟨hC '[' (by decide), ⟨⟨⟨within_lineBreak hC style _, render_within hC h _ x hx⟩,
      renderItems_within hC h _ xs hxs⟩, within_lineBreak hC style _⟩, hC ']' (by decide), within_nil⟩
  | level, .object [], _ => within_toText (s := "\x7b\x7d") hC (by decide)
  | level, .object ((key, x) :: fs), hv => by
    obtain ⟨hkey, hv⟩ := List.forall_mem_cons.mp hv
    obtain ⟨hx, hfs⟩ := List.forall_mem_append.mp hv
    simp only [render, List.cons_append, within_cons, within_append]
    exact ⟨hC '\x7b' (by decide), ⟨⟨⟨⟨⟨within_lineBreak hC style _,
      within_name hC style.asciiOnly hkey⟩, h.name⟩, render_within hC h _ x hx⟩,
      renderFields_within hC h _ fs hfs⟩, within_lineBreak hC style _⟩, hC '\x7d' (by decide),
      within_nil⟩

theorem renderItems_within (hC : HoldsAscii C) (h : style.Within C) :
    ∀ (level : Nat) (xs : List Value), (∀ s ∈ Value.scalarsOfItems xs, HoldsText C style.asciiOnly s) →
    Within C (renderItems style level xs)
  | _, [], _ => within_nil
  | level, x :: xs, hxs => by
    obtain ⟨hx, hxs⟩ := List.forall_mem_append.mp hxs
    simp only [renderItems, within_append]
    exact ⟨⟨⟨h.item, within_lineBreak hC style _⟩, render_within hC h _ x hx⟩,
      renderItems_within hC h _ xs hxs⟩

theorem renderFields_within (hC : HoldsAscii C) (h : style.Within C) :
    ∀ (level : Nat) (fs : List (Scalar × Value)),
    (∀ s ∈ Value.scalarsOfFields fs, HoldsText C style.asciiOnly s) → Within C (renderFields style level fs)
  | _, [], _ => within_nil
  | level, (key, x) :: fs, hfs => by
    obtain ⟨hkey, hfs⟩ := List.forall_mem_cons.mp hfs
    obtain ⟨hx, hfs⟩ := List.forall_mem_append.mp hfs
    simp only [renderFields, within_append]
    exact ⟨⟨⟨⟨⟨h.item, within_lineBreak hC style _⟩, within_name hC style.asciiOnly hkey⟩, h.name⟩,
      render_within hC h _ x hx⟩, renderFields_within hC h _ fs hfs⟩

end

end Values

end Json

end Cabinet
