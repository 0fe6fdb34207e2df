import Cabinet.Proofs.Json.Scalar
import Cabinet.Proofs.Store.Action

/-!
# JSON text keeps a document

* `Json.IsJson` : the values that JSON text holds as they are;
* `Json.Writable` : the values that have a JSON text, `Json.asRead` : what that is read back as;
* `Json.ReadsAs`, `Json.readsAs_list`, `Json.readsAs_object` : lists and objects are read if their items
  and fields are, whatever follows;
* `Json.readable` : every value that has a text is read back from it;
* `Store.readBack`, `Store.decodeJson_written` : so is what a store has encoded, if it is an object;
* `Store.decodeJson_encodeJson` : a document that JSON text holds as it is stays what it is, on one
  line as well as indented.
-/

namespace Cabinet.Json

/-- A value that JSON text holds as it is: to any depth, every scalar has a literal, and the names
of the fields of an object are texts and distinct. -/
inductive IsJson : Value → Prop where
  | scalar {s : Scalar} : HasLiteral s → IsJson (.scalar s)
  | list {xs : List Value} : (∀ x ∈ xs, IsJson x) → IsJson (.list xs)
  | object {fs : List (Scalar × Value)} : (∀ f ∈ fs, ∃ t, f.1 = .text t) →
      (fs.map (·.1)).Nodup → (∀ f ∈ fs, IsJson f.2) → IsJson (.object fs)

/-- A value that has a JSON text: to any depth, every scalar has a literal, and so has the name of every
field. -/
inductive Writable : Value → Prop where
  | scalar {s : Scalar} : HasLiteral s → Writable (.scalar s)
  | list {xs : List Value} : (∀ x ∈ xs, Writable x) → Writable (.list xs)
  | object {fs : List (Scalar × Value)} : (∀ f ∈ fs, HasLiteral f.1) → (∀ f ∈ fs, Writable f.2) →
      Writable (.object fs)

theorem IsJson.writable {v : Value} (h : IsJson v) : Writable v := by
  induction h with
  | scalar hs => exact .scalar hs
  | list _ ih => exact .list ih
  | object hnames _ _ ih =>
    refine .object (fun f hf => ?_) ih
    obtain ⟨t, ht⟩ := hnames f hf
    rw [ht]
    trivial

/-! ## What a text is read back as -/

/-- What stands between the quotes of a field name. -/
def nameText : Scalar → Text
  | .text t => t
  | s@(.date _) | s@(.timestamp _) | s@(.bytes _) => s.plain
  | s => renderScalar false s

theorem renderName_eq (asciiOnly : Bool) (key : Scalar) :
    renderName asciiOnly key = renderText asciiOnly (nameText key) := by
  cases key <;> rfl

mutual

/-- What the text of a value is read back as. Names become texts; of the fields that then have one name,
the first gives the place and the last the value. -/
def asRead : Value → Value
  | .scalar s => .scalar s
  | .list xs => .list (asReadItems xs)
  | .object fs => .object (Document.ofPairs (asReadFields fs))

def asReadItems : List Value → List Value
  | [] => []
  | x :: xs => asRead x :: asReadItems xs

def asReadFields : List (Scalar × Value) → List (Scalar × Value)
  | [] => []
  | (key, x) :: fs => (.text (nameText key), asRead x) :: asReadFields fs

end

/-! ## Blanks -/

/-- A text that the reader skips. -/
def Blank (t : Text) : Prop := ∀ p ∈ t, isSpace p = true

theorem skipSpace_blank {blank t : Text} {p : CodePoint} (h : Blank blank) (hp : isSpace p = false) :
    skipSpace (blank ++ p :: t) = p :: t := by
  unfold skipSpace
  rw [List.dropWhile_append_of_pos h, List.dropWhile_cons_of_neg (by rw [hp]; decide)]

theorem blank_lineBreak (style : Style) (level : Nat) : Blank (style.lineBreak level) := by
  unfold Style.lineBreak
  cases style.indent with
  | none => exact fun p hp => absurd hp List.not_mem_nil
  | some width =>
    intro p hp
    rcases List.mem_cons.mp hp with rfl | hp
    · rfl
    · rw [List.eq_of_mem_replicate hp]
      rfl

theorem stops_cons {p : CodePoint} (t : Text) (h : p.isAsciiDigit = false ∧ p ∉ ".eE".toText) :
    Stops (p :: t) := by
  intro q hq
  obtain rfl := Option.some.inj hq
  exact h

theorem stops_blank {blank t : Text} (h : Blank blank) (ht : Stops t) : Stops (blank ++ t) := by
  cases blank with
  | nil => exact ht
  | cons p blank =>
    apply stops_cons
    have hp := h p List.mem_cons_self
    unfold isSpace at hp
    split at hp
    · decide
    · decide
    · decide
    · decide
    · cases hp

/-- A layout whose separators are, apart from blanks, a comma and a colon. -/
structure Style.Spaced (style : Style) : Prop where
  item : ∃ blank, style.itemSeparator.toText = .char ',' :: blank ∧ Blank blank
  name : ∃ blank, style.nameSeparator.toText = .char ':' :: blank ∧ Blank blank

/-- A layout that can be read: apart from blanks its separators are a comma and a colon, and it
writes every character itself that needs no escape. -/
structure Style.Legible (style : Style) : Prop where
  item : ∃ blank, style.itemSeparator.toText = .char ',' :: blank ∧ Blank blank
  name : ∃ blank, style.nameSeparator.toText = .char ':' :: blank ∧ Blank blank
  raw : style.asciiOnly = false

theorem Style.Legible.spaced {style : Style} (h : style.Legible) : style.Spaced := ⟨h.item, h.name⟩

theorem Style.legible_compact : Style.compact.Legible :=
  ⟨⟨[.char ' '], rfl, by unfold Blank; decide⟩, ⟨[.char ' '], rfl, by unfold Blank; decide⟩, rfl⟩

theorem Style.legible_indented : Style.indented.Legible :=
  ⟨⟨[], rfl, by unfold Blank; decide⟩, ⟨[.char ' '], rfl, by unfold Blank; decide⟩, rfl⟩

/-! ## Items -/

/-- A value whose text can be told by its first code point, and is read as another value whatever
follows. -/
structure ReadsAs (style : Style) (v w : Value) : Prop where
  opens : ∀ level, ∃ p t, render style level v = p :: t ∧ Opens p
  reads : ∀ level fuel rest, 2 * (render style level v).length ≤ fuel → Stops rest →
    readValue fuel (render style level v ++ rest) = .ok (w, rest)

variable {style : Style} {closing : Text}

/-- What stands between an item and the next. -/
theorem Style.Spaced.between (hstyle : style.Spaced) (level : Nat) :
    ∃ blank, style.itemSeparator.toText ++ style.lineBreak level = .char ',' :: blank ∧
      Blank blank := by
  obtain ⟨blank, hitem, hblank⟩ := hstyle.item
  refine ⟨blank ++ style.lineBreak level, by rw [hitem, List.cons_append], ?_⟩
  intro p hp
  exact (List.mem_append.mp hp).elim (hblank p) (blank_lineBreak style level p)

/-- After a blank the reader stands at the value. -/
theorem ReadsAs.skipSpace {v w : Value} (h : ReadsAs style v w) {blank : Text} (hblank : Blank blank)
    (level : Nat) (rest : Text) : skipSpace (blank ++ (render style level v ++ rest)) =
      render style level v ++ rest := by
  obtain ⟨p, t, htext, hp⟩ := h.opens level
  rw [htext, List.cons_append]
  exact skipSpace_blank hblank hp.isSpace

/-- Items are read up to the closing bracket if each is read. -/
theorem readItems_render (hstyle : style.Spaced) (hclosing : Blank closing) (level : Nat)
    (rest : Text) {x w : Value} {xs ws : List Value} {fuel : Nat}
    (hread : List.Forall₂ (ReadsAs style) (x :: xs) (w :: ws))
    (hfuel : 2 * ((render style level x).length + (renderItems style level xs).length) < fuel) :
    readItems fuel (render style level x ++
        (renderItems style level xs ++ (closing ++ .char ']' :: rest))) = .ok (w :: ws, rest) := by
  induction xs generalizing x w ws fuel with
  | nil =>
    obtain ⟨hx, hws⟩ := List.forall₂_cons.mp hread
    obtain rfl := List.forall₂_nil_left_iff.mp hws
    obtain ⟨fuel, rfl⟩ : ∃ n, fuel = n + 1 := ⟨fuel - 1, by omega⟩
    have hx := hx.reads level fuel (closing ++ .char ']' :: rest) (by omega)
      (stops_blank hclosing (stops_cons _ (by decide)))
    show readItems (fuel + 1) (render style level x ++ (closing ++ .char ']' :: rest)) = _
    have hskip : skipSpace (closing ++ .char ']' :: rest) = .char ']' :: rest :=
      skipSpace_blank hclosing rfl
    rw [readItems, hx]
    simp only [bind, Except.bind, hskip]
    rfl
  | cons y ys ih =>
    obtain ⟨hx, hrest⟩ := List.forall₂_cons.mp hread
    obtain ⟨w', ws, hy, hys, rfl⟩ := List.forall₂_cons_left_iff.mp hrest
    obtain ⟨fuel, rfl⟩ : ∃ n, fuel = n + 1 := ⟨fuel - 1, by omega⟩
    obtain ⟨blank, hbetween, hblank⟩ := hstyle.between level
    have hitems : renderItems style level (y :: ys) =
        .char ',' :: (blank ++ (render style level y ++ renderItems style level ys)) := by
      rw [renderItems, hbetween, List.append_assoc, List.cons_append]
    rw [hitems, List.length_cons, List.length_append, List.length_append] at hfuel
    rw [hitems, List.cons_append, List.append_assoc, List.append_assoc]
    have hx := hx.reads level fuel (.char ',' :: (blank ++
      (render style level y ++ (renderItems style level ys ++ (closing ++ .char ']' :: rest)))))
      (by omega) (stops_cons _ (by decide))
    have hlong : 2 * ((render style level y).length + (renderItems style level ys).length) < fuel := by omega
    have hys := ih hrest hlong
    rw [readItems, hx]
    show (readItems fuel (skipSpace (blank ++ (render style level y ++ (renderItems style level ys ++
      (closing ++ .char ']' :: rest)))))).bind _ = _
    rw [hy.skipSpace hblank, hys]
    rfl

/-! ## Fields -/

/-- A field whose name is read as the text that names another field, and whose value is read as the
value of that field. -/
structure FieldReadsAs (style : Style) (f g : Scalar × Value) : Prop where
  name : ∃ u, g.1 = .text u ∧ TextReadsAs style.asciiOnly (nameText f.1) u
  value : ReadsAs style f.2 g.2

/-- After a blank the reader stands at the name. -/
theorem skipSpace_name {blank : Text} (hblank : Blank blank) (asciiOnly : Bool) (key : Scalar) (t : Text) :
    skipSpace (blank ++ (renderName asciiOnly key ++ t)) = renderName asciiOnly key ++ t := by
  rw [renderName_eq]
  exact skipSpace_blank hblank rfl

/-- What a field is read as. -/
theorem readFields_name {fuel : Nat} (hstyle : style.Spaced) (level : Nat) {key : Scalar} {x : Value}
    {g : Scalar × Value} (hfield : FieldReadsAs style (key, x) g)
    (hfuel : 2 * (render style level x).length ≤ fuel) {t : Text} (ht : Stops t) :
    readFields (fuel + 1) (renderName style.asciiOnly key ++ (style.nameSeparator.toText ++
      (render style level x ++ t))) = match skipSpace t with
        | .char '\x7d' :: after => .ok ([g], after)
        | .char ',' :: after => (readFields fuel (skipSpace after)).bind fun found =>
          .ok (g :: found.1, found.2)
        | t => flaw .itemSeparator t := by
  obtain ⟨blank, hname, hblank⟩ := hstyle.name
  obtain ⟨name, w⟩ := g
  obtain ⟨⟨u, rfl, hu⟩, hx⟩ := hfield
  have htext : renderName style.asciiOnly key ++ (.char ':' :: blank ++ (render style level x ++ t)) =
      .char '"' :: ((nameText key).flatMap (escape style.asciiOnly) ++ .char '"' :: (.char ':' ::
        (blank ++ (render style level x ++ t)))) := by
    rw [renderName_eq, renderText, List.append_assoc]
    rfl
  rw [hname, htext, readFields, hu]
  show (readValue fuel (skipSpace (blank ++ (render style level x ++ t)))).bind _ = _
  rw [hx.skipSpace hblank, hx.reads level fuel t hfuel ht]
  rfl

/-- Fields are read up to the closing brace if each is read. -/
theorem readFields_render (hstyle : style.Spaced) (hclosing : Blank closing) (level : Nat)
    (rest : Text) {key : Scalar} {x : Value} {g : Scalar × Value} {fs gs : List (Scalar × Value)}
    {fuel : Nat} (hread : List.Forall₂ (FieldReadsAs style) ((key, x) :: fs) (g :: gs))
    (hfuel : 2 * ((render style level x).length + (renderFields style level fs).length) < fuel) :
    readFields fuel (renderName style.asciiOnly key ++ (style.nameSeparator.toText ++
        (render style level x ++ (renderFields style level fs ++ (closing ++ .char '\x7d' :: rest))))) =
      .ok (g :: gs, rest) := by
  induction fs generalizing key x g gs fuel with
  | nil =>
    obtain ⟨hfield, hgs⟩ := List.forall₂_cons.mp hread
    obtain rfl := List.forall₂_nil_left_iff.mp hgs
    obtain ⟨fuel, rfl⟩ : ∃ n, fuel = n + 1 := ⟨fuel - 1, by omega⟩
    have hclose : Stops (closing ++ .char '\x7d' :: rest) :=
      stops_blank hclosing (stops_cons _ (by decide))
    show readFields (fuel + 1) (renderName style.asciiOnly key ++
      (style.nameSeparator.toText ++ (render style level x ++ (closing ++ .char '\x7d' :: rest)))) = _
    rw [readFields_name hstyle level hfield (by omega) hclose, skipSpace_blank hclosing rfl]
    rfl
  | cons f fs ih =>
    obtain ⟨hfield, hrest⟩ := List.forall₂_cons.mp hread
    obtain ⟨g', gs, -, -, rfl⟩ := List.forall₂_cons_left_iff.mp hrest
    obtain ⟨fuel, rfl⟩ : ∃ n, fuel = n + 1 := ⟨fuel - 1, by omega⟩
    obtain ⟨next, y⟩ := f
    obtain ⟨blank, hbetween, hblank⟩ := hstyle.between level
    have hfields : renderFields style level ((next, y) :: fs) =
        .char ',' :: (blank ++ (renderName style.asciiOnly next ++
          (style.nameSeparator.toText ++ (render style level y ++ renderFields style level fs)))) := by
      rw [renderFields, hbetween]
      simp only [List.append_assoc, List.cons_append]
    rw [hfields] at hfuel ⊢
    simp only [List.length_cons, List.length_append] at hfuel
    simp only [List.append_assoc, List.cons_append]
    have hlong : 2 * ((render style level y).length + (renderFields style level fs).length) < fuel := by omega
    have hfs := ih hrest hlong
    rw [readFields_name hstyle level hfield (by omega) (stops_cons _ (by decide))]
    have hopen := skipSpace_name hblank style.asciiOnly next (style.nameSeparator.toText ++
      (render style level y ++ (renderFields style level fs ++ (closing ++ .char '\x7d' :: rest))))
    show (readFields fuel (skipSpace (blank ++ _))).bind _ = _
    rw [hopen, hfs]
    rfl

/-! ## Documents from fields -/

/-- A field of a new name comes last. -/
theorem set_eq_append {key : Scalar} {x : Value} (d : Document) (hkey : ∃ t, key = .text t)
    (hnames : ∀ f ∈ d, ∃ t, f.1 = .text t) (hnew : ∀ f ∈ d, f.1 ≠ key) :
    d.set key x = d ++ [(key, x)] := by
  induction d with
  | nil => rfl
  | cons f d ih =>
    obtain ⟨name, old⟩ := f
    obtain ⟨u, rfl⟩ := hkey
    obtain ⟨t, rfl⟩ : ∃ t, name = .text t := hnames _ List.mem_cons_self
    have hother : Scalar.same (.text t) (.text u) = false :=
      beq_eq_false_iff_ne.mpr (hnew _ List.mem_cons_self)
    unfold Document.set
    rw [hother, ih (fun g hg => hnames g (List.mem_cons_of_mem _ hg))
      (fun g hg => hnew g (List.mem_cons_of_mem _ hg))]
    rfl

/-- Fields of distinct names are those of the document that they make up. -/
theorem ofPairs_eq {fs : List (Scalar × Value)} (hnames : ∀ f ∈ fs, ∃ t, f.1 = .text t)
    (hdistinct : (fs.map (·.1)).Nodup) : Document.ofPairs fs = fs := by
  suffices h : ∀ (d : Document), (∀ f ∈ d ++ fs, ∃ t, f.1 = .text t) → ((d ++ fs).map (·.1)).Nodup →
      fs.foldl (fun d f => d.set f.1 f.2) d = d ++ fs from h [] hnames hdistinct
  clear hnames hdistinct
  induction fs with
  | nil => exact fun d _ _ => (List.append_nil d).symm
  | cons f fs ih =>
    intro d hnames hdistinct
    have hlast : d.set f.1 f.2 = d ++ [f] := by
      apply set_eq_append d (hnames f (List.mem_append_right d List.mem_cons_self))
        (fun g hg => hnames g (List.mem_append_left _ hg))
      intro g hg heq
      rw [List.map_append] at hdistinct
      exact (List.nodup_append.mp hdistinct).2.2 g.1 (List.mem_map_of_mem hg) f.1
        (List.mem_map_of_mem List.mem_cons_self) heq
    have hsame : d ++ f :: fs = d ++ [f] ++ fs := by rw [List.append_assoc]; rfl
    rw [hsame] at hnames hdistinct
    rw [List.foldl_cons, hlast, ih (d ++ [f]) hnames hdistinct, hsame]

/-! ## Values -/

theorem readsAs_scalar {s : Scalar} (hs : HasLiteral s)
    (hsame : renderScalar style.asciiOnly s = renderScalar false s) :
    ReadsAs style (.scalar s) (.scalar s) := by
  constructor
  · intro level
    rw [render, hsame]
    exact opens_renderScalar s hs
  · intro level fuel rest hfuel hrest
    rw [render, hsame] at hfuel ⊢
    obtain ⟨p, t, htext, -⟩ := opens_renderScalar s hs
    rw [htext, List.length_cons] at hfuel
    obtain ⟨fuel, rfl⟩ : ∃ n, fuel = n + 1 := ⟨fuel - 1, by omega⟩
    exact readValue_renderScalar s hs hrest

theorem readsAs_list (hstyle : style.Spaced) : ∀ {xs ws : List Value},
    List.Forall₂ (ReadsAs style) xs ws → ReadsAs style (.list xs) (.list ws)
  | [], ws, hread => by
    obtain rfl := List.forall₂_nil_left_iff.mp hread
    refine ⟨fun level => ⟨_, _, rfl, .inr (by decide)⟩, ?_⟩
    intro level fuel rest hfuel _
    obtain ⟨fuel, rfl⟩ : ∃ n, fuel = n + 1 := ⟨fuel - 1, by
      rw [render] at hfuel
      have : 2 * 2 ≤ fuel := hfuel
      omega⟩
    rfl
  | x :: xs, ws, hread => by
    obtain ⟨w, ws, hx, -, rfl⟩ := List.forall₂_cons_left_iff.mp hread
    constructor
    · intro level
      rw [render]
      exact ⟨_, _, rfl, .inr (by decide)⟩
    · intro level fuel rest hfuel _
      have htext : render style level (.list (x :: xs)) ++ rest = .char '[' ::
          (style.lineBreak (level + 1) ++ (render style (level + 1) x ++
            (renderItems style (level + 1) xs ++ (style.lineBreak level ++ .char ']' :: rest)))) := by
        rw [render]
        simp only [List.append_assoc, List.cons_append, List.nil_append]
      rw [render] at hfuel
      simp only [List.length_append, List.length_cons, List.length_nil] at hfuel
      obtain ⟨fuel, rfl⟩ : ∃ n, fuel = n + 1 := ⟨fuel - 1, by omega⟩
      have hlong : 2 * ((render style (level + 1) x).length +
          (renderItems style (level + 1) xs).length) < fuel := by omega
      have hitems := readItems_render hstyle (blank_lineBreak style level) (level + 1) rest hread hlong
      obtain ⟨p, t, hhead, hp⟩ := hx.opens (level + 1)
      rw [htext, readValue, hx.skipSpace (blank_lineBreak style (level + 1))]
      split
      · next heq =>
        rw [hhead] at heq
        exact absurd (List.cons.inj heq).1 (hp.ne (by decide))
      · rw [hitems]
        rfl

theorem readsAs_object (hstyle : style.Spaced) : ∀ {fs gs : List (Scalar × Value)},
    List.Forall₂ (FieldReadsAs style) fs gs →
    ReadsAs style (.object fs) (.object (Document.ofPairs gs))
  | [], gs, hread => by
    obtain rfl := List.forall₂_nil_left_iff.mp hread
    refine ⟨fun level => ⟨_, _, rfl, .inr (by decide)⟩, ?_⟩
    intro level fuel rest hfuel _
    obtain ⟨fuel, rfl⟩ : ∃ n, fuel = n + 1 := ⟨fuel - 1, by
      rw [render] at hfuel
      have : 2 * 2 ≤ fuel := hfuel
      omega⟩
    rfl
  | (key, x) :: fs, gs, hread => by
    obtain ⟨g, gs, -, -, rfl⟩ := List.forall₂_cons_left_iff.mp hread
    constructor
    · intro level
      rw [render]
      exact ⟨_, _, rfl, .inr (by decide)⟩
    · intro level fuel rest hfuel _
      have htext : render style level (.object ((key, x) :: fs)) ++ rest = .char '\x7b' ::
          (style.lineBreak (level + 1) ++ (renderName style.asciiOnly key ++
            (style.nameSeparator.toText ++ (render style (level + 1) x ++
              (renderFields style (level + 1) fs ++ (style.lineBreak level ++ .char '\x7d' :: rest)))))) := by
        rw [render]
        simp only [List.append_assoc, List.cons_append, List.nil_append]
      rw [render] at hfuel
      simp only [List.length_append, List.length_cons, List.length_nil] at hfuel
      obtain ⟨fuel, rfl⟩ : ∃ n, fuel = n + 1 := ⟨fuel - 1, by omega⟩
      have hlong : 2 * ((render style (level + 1) x).length +
          (renderFields style (level + 1) fs).length) < fuel := by omega
      have hfields := readFields_render hstyle (blank_lineBreak style level) (level + 1) rest hread hlong
      rw [htext, readValue, skipSpace_name (blank_lineBreak style (level + 1))]
      split
      · next heq =>
        rw [renderName_eq] at heq
        exact absurd (List.cons.inj heq).1 (by decide)
      · rw [hfields]
        rfl

theorem forall₂_asReadItems : ∀ {xs : List Value}, (∀ x ∈ xs, ReadsAs style x (asRead x)) →
    List.Forall₂ (ReadsAs style) xs (asReadItems xs)
  | [], _ => .nil
  | _ :: _, h => .cons (h _ List.mem_cons_self) (forall₂_asReadItems fun y hy => h y (.tail _ hy))

theorem forall₂_asReadFields (hstyle : style.Legible) : ∀ {fs : List (Scalar × Value)},
    (∀ f ∈ fs, ReadsAs style f.2 (asRead f.2)) → List.Forall₂ (FieldReadsAs style) fs (asReadFields fs)
  | [], _ => .nil
  | (key, x) :: fs, h => by
    have hname : TextReadsAs style.asciiOnly (nameText key) (nameText key) := by
      rw [hstyle.raw]
      exact fun opening => readText_flatMap opening _
    exact .cons ⟨⟨_, rfl, hname⟩, h _ List.mem_cons_self⟩
      (forall₂_asReadFields hstyle fun f hf => h f (.tail _ hf))

/-- Every value that has a text is read back from it. -/
theorem readable (hstyle : style.Legible) {v : Value} (hv : Writable v) :
    ReadsAs style v (asRead v) := by
  induction hv with
  | scalar hs => exact readsAs_scalar hs (by rw [hstyle.raw])
  | list _ ih => exact readsAs_list hstyle.spaced (forall₂_asReadItems ih)
  | object _ _ ih => exact readsAs_object hstyle.spaced (forall₂_asReadFields hstyle ih)

theorem asReadItems_eq : ∀ {xs : List Value}, (∀ x ∈ xs, asRead x = x) → asReadItems xs = xs
  | [], _ => rfl
  | x :: xs, h => by
    rw [asReadItems, h x List.mem_cons_self, asReadItems_eq fun y hy => h y (List.mem_cons_of_mem x hy)]

theorem asReadFields_eq : ∀ {fs : List (Scalar × Value)}, (∀ f ∈ fs, ∃ t, f.1 = .text t) →
    (∀ f ∈ fs, asRead f.2 = f.2) → asReadFields fs = fs
  | [], _, _ => rfl
  | (key, x) :: fs, hnames, h => by
    obtain ⟨name, rfl⟩ : ∃ t, key = .text t := hnames (key, x) List.mem_cons_self
    have hx : asRead x = x := h _ List.mem_cons_self
    have hfs : asReadFields fs = fs := asReadFields_eq
      (fun f hf => hnames f (List.mem_cons_of_mem _ hf)) fun f hf => h f (List.mem_cons_of_mem _ hf)
    rw [asReadFields, hx, hfs, nameText]

/-- A value that JSON text holds as it is is read back as itself. -/
theorem asRead_eq {v : Value} (hv : IsJson v) : asRead v = v := by
  induction hv with
  | scalar _ => rfl
  | list _ ih => rw [asRead, asReadItems_eq ih]
  | object hnames hdistinct _ ih => rw [asRead, asReadFields_eq hnames ih, ofPairs_eq hnames hdistinct]

/-! ## Whole texts -/

theorem checkItems_ok : ∀ {xs : List Value}, (∀ x ∈ xs, check x = .ok ()) → checkItems xs = .ok ()
  | [], _ => rfl
  | x :: xs, h => by
    rw [checkItems, h x List.mem_cons_self]
    exact checkItems_ok fun y hy => h y (List.mem_cons_of_mem x hy)

theorem checkScalar_ok {s : Scalar} (hs : HasLiteral s) : checkScalar s = .ok () := by
  cases s with
  | date d | timestamp t | bytes content => exact hs.elim
  | null | bool b | int n | float x | text t => rfl

theorem checkName_ok {key : Scalar} (hkey : HasLiteral key) : checkName key = .ok () := by
  cases key with
  | date d | timestamp t | bytes content => exact hkey.elim
  | null | bool b | int n | float x | text t => rfl

theorem checkFields_ok : ∀ {fs : List (Scalar × Value)}, (∀ f ∈ fs, HasLiteral f.1) →
    (∀ f ∈ fs, check f.2 = .ok ()) → checkFields fs = .ok ()
  | [], _, _ => rfl
  | (key, x) :: fs, hnames, h => by
    rw [checkFields, checkName_ok (hnames _ List.mem_cons_self), h _ List.mem_cons_self]
    exact checkFields_ok (fun f hf => hnames f (List.mem_cons_of_mem _ hf))
      fun f hf => h f (List.mem_cons_of_mem _ hf)

/-- Every value that has a text can be written. -/
theorem check_ok {v : Value} (hv : Writable v) : check v = .ok () := by
  induction hv with
  | scalar hs =>
    rw [check]
    exact checkScalar_ok hs
  | list _ ih =>
    rw [check]
    exact checkItems_ok ih
  | object hnames _ ih =>
    rw [check]
    exact checkFields_ok hnames ih

theorem hasLiteral_of_checkScalar {s : Scalar} (h : checkScalar s = .ok ()) : HasLiteral s := by
  cases s with
  | date d | timestamp t | bytes content => cases h
  | null | bool b | int n | float x | text t => trivial

theorem hasLiteral_of_checkName {key : Scalar} (h : checkName key = .ok ()) : HasLiteral key := by
  cases key with
  | date d | timestamp t | bytes content => cases h
  | null | bool b | int n | float x | text t => trivial

mutual

/-- Every value that can be written has a text. -/
theorem writable_of_check : ∀ {v : Value}, check v = .ok () → Writable v
  | .scalar s, h => by
    rw [check] at h
    exact .scalar (hasLiteral_of_checkScalar h)
  | .list xs, h => by
    rw [check] at h
    exact .list (writable_of_checkItems h)
  | .object fs, h => by
    rw [check] at h
    have hfs := writable_of_checkFields h
    exact .object (fun f hf => (hfs f hf).1) fun f hf => (hfs f hf).2

theorem writable_of_checkItems : ∀ {xs : List Value}, checkItems xs = .ok () → ∀ x ∈ xs, Writable x
  | [], _ => fun _ hx => absurd hx List.not_mem_nil
  | x :: xs, h => by
    obtain ⟨⟨⟩, hx, hxs⟩ := ok_of_bind h
    exact List.forall_mem_cons.mpr ⟨writable_of_check hx, writable_of_checkItems hxs⟩

theorem writable_of_checkFields : ∀ {fs : List (Scalar × Value)}, checkFields fs = .ok () →
    ∀ f ∈ fs, HasLiteral f.1 ∧ Writable f.2
  | [], _ => fun _ hf => absurd hf List.not_mem_nil
  | (key, x) :: fs, h => by
    obtain ⟨⟨⟩, hkey, h⟩ := ok_of_bind h
    obtain ⟨⟨⟩, hx, hfs⟩ := ok_of_bind h
    exact List.forall_mem_cons.mpr ⟨⟨hasLiteral_of_checkName hkey, writable_of_check hx⟩,
      writable_of_checkFields hfs⟩

end

theorem skipSpace_all : ∀ {blank : Text}, Blank blank → Json.skipSpace blank = []
  | [], _ => rfl
  | p :: blank, h => by
    obtain ⟨hp, hblank⟩ := List.forall_mem_cons.mp h
    have hrest := skipSpace_all hblank
    unfold Json.skipSpace at hrest ⊢
    rw [List.dropWhile_cons_of_pos hp, hrest]

/-- A whole text, blanks at its end apart, is read as what its value is read as. -/
theorem ReadsAs.parse_append {v w : Value} (hread : ReadsAs style v w) {blank : Text} (hblank : Blank blank) :
    Json.parse (render style 0 v ++ blank) = .ok w := by
  obtain ⟨p, t, hhead, hp⟩ := hread.opens 0
  have hstops : Stops blank := by
    have hend : Stops (blank ++ []) := stops_blank hblank fun p hp => by cases hp
    rwa [List.append_nil] at hend
  have hvalue := hread.reads 0 (2 * (render style 0 v ++ blank).length + 2) blank
    (by rw [List.length_append]; omega) hstops
  have hskip : Json.skipSpace (render style 0 v ++ blank) = render style 0 v ++ blank := by
    have hnone : Blank [] := fun p hp => absurd hp List.not_mem_nil
    rw [hhead]
    exact skipSpace_blank hnone hp.isSpace
  have hmark : (render style 0 v ++ blank).head? ≠ some (.ofNat 0xFEFF) := by
    rw [hhead]
    intro heq
    exact hp.ne (by decide) (Option.some.inj heq)
  have hwhole : readWholeText (render style 0 v ++ blank) = .ok w := by
    unfold readWholeText
    rw [if_neg hmark, hskip, hvalue]
    simp only [bind, Except.bind, skipSpace_all hblank]
    rfl
  unfold Json.parse
  rw [hwhole]
  rfl

theorem ReadsAs.parse {v w : Value} (hread : ReadsAs style v w) :
    Json.parse (render style 0 v) = .ok w := by
  have hnone : Blank [] := fun p hp => absurd hp List.not_mem_nil
  have hparse := hread.parse_append hnone
  rwa [List.append_nil] at hparse

/-- A whole text is read back as what it holds of its value. -/
theorem parse_written (hstyle : style.Legible) {v : Value} (hv : Writable v) :
    parse (render style 0 v) = .ok (asRead v) :=
  (readable hstyle hv).parse

/-- The text of a value is that of this value alone. -/
theorem parse_render (hstyle : style.Legible) {v : Value} (hv : IsJson v) :
    parse (render style 0 v) = .ok v := by
  rw [parse_written hstyle hv.writable, asRead_eq hv]

theorem write_writable (style : Style) {v : Value} (hv : Writable v) :
    write style v = .ok (render style 0 v) := by
  rw [write, check_ok hv]
  rfl

/-- A value is written as its text, if it has one. -/
theorem write_ok {v : Value} {t : Text} (h : write style v = .ok t) :
    Writable v ∧ t = render style 0 v := by
  obtain ⟨⟨⟩, hcheck, ht⟩ := ok_of_bind h
  exact ⟨writable_of_check hcheck, (Except.ok.inj ht).symm⟩

end Cabinet.Json

namespace Cabinet.Store
open Json (IsJson)

/-- The document that is read back once a value was written: an object is, as JSON text holds it, and
nothing else. -/
def readBack (name : Text) : Value → Except Failure Document
  | .object fs => .ok (Document.ofPairs (Json.asReadFields fs))
  | _ => .error (.notDocument name)

theorem decodeJson_written {style : Json.Style} (hstyle : style.Legible) {store name t : Text} {v : Value}
    (h : encodeJson style store v = .ok t) : decodeJson name t = readBack name v := by
  obtain ⟨hv, rfl⟩ := Json.write_ok (ok_of_mapError h)
  unfold decodeJson
  rw [Json.parse_written hstyle hv]
  cases v <;> rfl

/-- Decoding the text of a document gives back the document. -/
theorem decodeJson_encodeJson {d : Document} (hd : IsJson (.object d)) (name : Text)
    {style : Json.Style} (hstyle : style = .compact ∨ style = .indented) :
    (encodeJson style name (.object d)).bind (decodeJson name) = .ok d := by
  have hlegible : style.Legible := by
    rcases hstyle with rfl | rfl
    · exact Json.Style.legible_compact
    · exact Json.Style.legible_indented
  have hencode : encodeJson style name (.object d) = .ok (Json.render style 0 (.object d)) := by
    rw [encodeJson, Json.write_writable style hd.writable]
    rfl
  rw [hencode]
  show decodeJson name (Json.render style 0 (.object d)) = .ok d
  unfold decodeJson
  rw [Json.parse_render hlegible hd]

/-- A lamp with a name that needs escapes, and with settings that JSON has only by name. -/
def lamp : Document :=
  [(.text "na\"me".toText, .text [.char '\\', .char '\n', .char '\x01', .surrogate 0]),
    (.text "levels".toText, .list [.int (-12345678901234567890), .float (.ofDecimal false 1 (-1)),
      .float (.zero true), .float .nan, .list [], .null]),
    (.text "room".toText, .object [(.text [], .bool true), (.text "far".toText, .float (.infinity true))])]

theorem isJson_lamp : IsJson (.object lamp) := by
  have hlevels : IsJson (.list [.int (-12345678901234567890), .float (.ofDecimal false 1 (-1)),
      .float (.zero true), .float .nan, .list [], .null]) := by
    apply IsJson.list
    simp only [List.forall_mem_cons, List.not_mem_nil, false_imp_iff, implies_true, and_true]
    exact ⟨.scalar trivial, .scalar trivial, .scalar trivial, .scalar trivial,
      .list fun x hx => absurd hx List.not_mem_nil, .scalar trivial⟩
  have hroom : IsJson (.object [(.text [], .bool true), (.text "far".toText, .float (.infinity true))]) := by
    apply IsJson.object
    · simp only [List.forall_mem_cons, List.not_mem_nil, false_imp_iff, implies_true, and_true]
      exact ⟨⟨_, rfl⟩, ⟨_, rfl⟩⟩
    · decide
    · simp only [List.forall_mem_cons, List.not_mem_nil, false_imp_iff, implies_true, and_true]
      exact ⟨.scalar trivial, .scalar trivial⟩
  apply IsJson.object
  · unfold lamp
    simp only [List.forall_mem_cons, List.not_mem_nil, false_imp_iff, implies_true, and_true]
    exact ⟨⟨_, rfl⟩, ⟨_, rfl⟩, ⟨_, rfl⟩⟩
  · decide
  · unfold lamp
    simp only [List.forall_mem_cons, List.not_mem_nil, false_imp_iff, implies_true, and_true]
    exact ⟨.scalar trivial, hlevels, hroom⟩

theorem decodeJson_encodeJson_lamp : IsJson (.object lamp) ∧
    (encodeJson .indented "json".toText (.object lamp)).bind (decodeJson "json".toText) = .ok lamp :=
  ⟨isJson_lamp, decodeJson_encodeJson isJson_lamp "json".toText (.inr rfl)⟩

end Cabinet.Store
