import Cabinet.Proofs.Cursor.Results
import Cabinet.Proofs.Order.Arbitrary
import Cabinet.Store.Traced

/-!
# What a chain does, pull by pull

A chain that is pulled to its end gives one item after another, and each pull makes some calls of the
store before it gives its item. So a chain stands for a feed, and a stage makes a feed of a feed: it
moves calls to an earlier or later pull, or leaves them out.

* `Feed` : pulls with their calls and items, up to the one that gives none;
* `Feed.source`, `Stage.onFeed`, `feed` : the feed of a source, of a stage and of a chain;
* `Follows` : a progress from which pulls do what a feed says, as long as their calls are fine;
* `search_follows`, `project_follows`, `sortAll_follows`, `offsetBy_follows`, `limitTo_follows` : a
  stage follows the feed that it makes of the one below;
* `pull_follows`, `drain_follows` : so does a chain that starts anew, and draining it makes all calls
  of its feed and gives all its items.
-/

namespace Cabinet

variable {S σ : Type}

/-- What pulls do, one after another: the calls that a pull makes, and the item that it gives, until
one gives none. -/
inductive Feed where
  | ends (calls : List Call)
  | gives (calls : List Call) (x : Item) (rest : Feed)

namespace Feed

/-- All items. -/
def items : Feed → List Item
  | ends _ => []
  | gives _ x rest => x :: items rest

/-- All calls. -/
def calls : Feed → List Call
  | ends calls => calls
  | gives calls _ rest => calls ++ rest.calls

/-- Some more calls before the first pull gives anything. -/
def after (earlier : List Call) : Feed → Feed
  | ends calls => ends (earlier ++ calls)
  | gives calls x rest => gives (earlier ++ calls) x rest

/-- Items that are there without any calls. -/
def stock : List Item → Feed
  | [] => ends []
  | x :: xs => gives [] x (stock xs)

/-- Documents that are read one by one. -/
def reads (idField : Option Text) (doc : Text → Document) : List Text → Feed
  | [] => ends []
  | id :: ids =>
    gives [⟨.read, some id⟩] ⟨id, .object (Stage.embed idField id (doc id))⟩ (reads idField doc ids)

/-- The identifiers are listed once, by the first pull. -/
def source (idField : Option Text) (ids : List Text) (doc : Text → Document) : Feed :=
  (reads idField doc ids).after [⟨.index, none⟩]

/-- Without the items that are not accepted; the calls for them are made all the same. -/
def condition (accepts : Predicate) : Feed → Feed
  | ends calls => ends calls
  | gives calls x rest =>
    if accepted accepts x.document then gives calls x (rest.condition accepts)
    else (rest.condition accepts).after calls

def projection (transform : Transform) : Feed → Feed
  | ends calls => ends calls
  | gives calls x rest => gives calls (x.projected transform) (rest.projection transform)

/-- Without the first items; the first pull makes the calls for them. -/
def offset : Nat → Feed → Feed
  | 0, f => f
  | _ + 1, ends calls => ends calls
  | n + 1, gives calls _ rest => (rest.offset n).after calls

/-- The first items only. Nothing is asked for behind them. -/
def limit : Nat → Feed → Feed
  | 0, _ => ends []
  | _ + 1, ends calls => ends calls
  | n + 1, gives calls x rest => gives calls x (rest.limit n)

/-- All items sorted; the first pull makes all calls. -/
def sort (compare : Comparator) (f : Feed) : Feed :=
  (stock ((SortOrder.sort Item.document compare f.items).toOption.getD [])).after f.calls

/-- Something is known of each item that comes by fine calls. -/
def Known (fine : Call → Prop) (known : Item → Prop) : Feed → Prop
  | ends _ => True
  | gives calls x rest => ((∀ call ∈ calls, fine call) → known x) ∧ Known fine known rest

/-! ### Items and calls -/

@[simp] theorem items_after (earlier : List Call) (f : Feed) :
    (f.after earlier).items = f.items := by
  cases f <;> rfl

@[simp] theorem items_stock (xs : List Item) : (stock xs).items = xs := by
  induction xs with
  | nil => rfl
  | cons x xs ih => exact congrArg (x :: ·) ih

@[simp] theorem items_source (idField : Option Text) (ids : List Text) (doc : Text → Document) :
    (source idField ids doc).items = storedItems idField ids doc := by
  rw [source, items_after]
  induction ids with
  | nil => rfl
  | cons id ids ih => exact congrArg (_ :: ·) ih

@[simp] theorem items_condition (accepts : Predicate) (f : Feed) :
    (f.condition accepts).items = f.items.filter fun x => accepted accepts x.document := by
  induction f with
  | ends calls => rfl
  | gives calls x rest ih =>
    rw [condition, items, List.filter_cons]
    split
    · exact congrArg (x :: ·) ih
    · rw [items_after, ih]

@[simp] theorem items_projection (transform : Transform) (f : Feed) :
    (f.projection transform).items = f.items.map (Item.projected transform) := by
  induction f with
  | ends calls => rfl
  | gives calls x rest ih => exact congrArg (x.projected transform :: ·) ih

@[simp] theorem items_offset (n : Nat) (f : Feed) : (f.offset n).items = f.items.drop n := by
  induction n generalizing f with
  | zero => rfl
  | succ n ih =>
    cases f with
    | ends calls => rfl
    | gives calls x rest => rw [offset, items_after, ih, items, List.drop_succ_cons]

@[simp] theorem items_limit (n : Nat) (f : Feed) : (f.limit n).items = f.items.take n := by
  induction n generalizing f with
  | zero => rfl
  | succ n ih =>
    cases f with
    | ends calls => rfl
    | gives calls x rest => rw [limit, items, ih, items, List.take_succ_cons]

@[simp] theorem items_sort (compare : Comparator) (f : Feed) :
    (f.sort compare).items =
      (SortOrder.sort Item.document compare f.items).toOption.getD [] := by
  rw [sort, items_after, items_stock]

/-! ### What is known -/

section Known
variable {fine : Call → Prop} {known : Item → Prop} {f : Feed}

theorem Known.imp {known' : Item → Prop} (h : f.Known fine known)
    (himp : ∀ x, known x → known' x) : f.Known fine known' := by
  induction f with
  | ends calls => trivial
  | gives calls x rest ih => exact ⟨fun hfine => himp x (h.1 hfine), ih h.2⟩

theorem Known.after (h : f.Known fine known) (earlier : List Call) :
    (f.after earlier).Known fine known := by
  cases f with
  | ends calls => trivial
  | gives calls x rest => exact ⟨fun hfine => h.1 (List.forall_mem_append.mp hfine).2, h.2⟩

/-- Behind a condition come items that it accepts. -/
theorem Known.condition (h : f.Known fine known) (accepts : Predicate) :
    (f.condition accepts).Known fine fun x => known x ∧ accepted accepts x.document = true := by
  induction f with
  | ends calls => trivial
  | gives calls x rest ih =>
    rw [Feed.condition]
    split
    case isTrue ha => exact ⟨fun hfine => ⟨h.1 hfine, ha⟩, ih h.2⟩
    case isFalse => exact (ih h.2).after calls

/-- What is known of each document that may be read is known of what comes from the source. -/
theorem known_source {idField : Option Text} {ids : List Text} {doc : Text → Document}
    (h : ∀ id ∈ ids, fine ⟨.read, some id⟩ →
      known ⟨id, .object (Stage.embed idField id (doc id))⟩) :
    (source idField ids doc).Known fine known := by
  refine Known.after ?_ _
  induction ids with
  | nil => trivial
  | cons id ids ih =>
    obtain ⟨hid, hids⟩ := List.forall_mem_cons.mp h
    exact ⟨fun hfine => hid (hfine _ List.mem_cons_self), ih hids⟩

end Known

theorem after_after (earlier later : List Call) (f : Feed) :
    (f.after later).after earlier = f.after (earlier ++ later) := by
  cases f <;> simp only [after, List.append_assoc]

theorem condition_after (accepts : Predicate) (earlier : List Call) (f : Feed) :
    (f.after earlier).condition accepts = (f.condition accepts).after earlier := by
  cases f with
  | ends calls => rfl
  | gives calls x rest =>
    rw [after, condition, condition]
    split
    · rfl
    · rw [after_after]

theorem condition_always (f : Feed) : f.condition Condition.always = f := by
  induction f with
  | ends calls => rfl
  | gives calls x rest ih => exact congrArg (gives calls x) ih

theorem projection_identity (f : Feed) : f.projection Projection.identity.apply = f := by
  induction f with
  | ends calls => rfl
  | gives calls x rest ih => exact congrArg (gives calls x) ih

end Feed

/-- What a stage makes of the feed below it. -/
def Stage.onFeed : Stage → Feed → Feed
  | .condition accepts => Feed.condition accepts
  | .projection transform => Feed.projection transform
  | .sort compare => Feed.sort compare
  | .offset count => Feed.offset count.toNat
  | .limit count => Feed.limit count.toNat

/-- What a chain makes of the feed of its source. -/
def feed (chain : List Stage) (f : Feed) : Feed := chain.foldr Stage.onFeed f

/-- On the items that come by fine calls, the functions in a chain do not fail. -/
def Defined (fine : Call → Prop) : List Stage → Feed → Prop
  | [], _ => True
  | .condition accepts :: rest, f => Defined fine rest f ∧
      (feed rest f).Known fine fun x => ∃ b, accepts x.document = .ok b
  | .projection transform :: rest, f => Defined fine rest f ∧
      (feed rest f).Known fine fun x => ∃ d, transform x.document = .ok d
  | .sort compare :: rest, f => Defined fine rest f ∧
      ∃ ys, SortOrder.sort Item.document compare (feed rest f).items = .ok ys
  | .offset _ :: rest, f | .limit _ :: rest, f => Defined fine rest f

/-! ## Following a feed -/

section Following
variable (fine : Call → Prop) (reached : List Call → σ → Prop)

/-- The result of a pull that does what a feed says next, after some calls were made, if the calls that
are to be made now are fine. What follows is left to `next`. -/
def Step (next : Feed → List Call → S → Prop) : Feed → List Call →
    Except Failure (Option Item) × S × σ → Prop
  | .ends calls, past, r => (∀ call ∈ calls, fine call) →
    ∃ p w, r = (.ok none, p, w) ∧ reached (past ++ calls) w
  | .gives calls x rest, past, r => (∀ call ∈ calls, fine call) →
    ∃ p w, r = (.ok (some x), p, w) ∧ reached (past ++ calls) w ∧ next rest (past ++ calls) p

/-- Progress from which pulls do what a feed says, in every state that is reached by the calls made so
far. As many items remain, at least. -/
def Follows (up : Pull S σ) (remaining : S → σ → Nat) : Feed → List Call → S → Prop
  | .ends calls, past, p => ∀ w, reached past w → (∀ call ∈ calls, fine call) →
    ∃ p' w', up p w = (.ok none, p', w') ∧ reached (past ++ calls) w'
  | .gives calls x rest, past, p => ∀ w, reached past w →
    rest.items.length + 1 ≤ remaining p w ∧ ((∀ call ∈ calls, fine call) →
      ∃ p' w', up p w = (.ok (some x), p', w') ∧ reached (past ++ calls) w' ∧
        Follows up remaining rest (past ++ calls) p')

end Following

section Lemmas
variable {fine : Call → Prop} {reached : List Call → σ → Prop} {up : Pull S σ}
  {remaining : S → σ → Nat} {past : List Call} {f : Feed} {p : S} {w : σ}

theorem follows_iff : Follows fine reached up remaining f past p ↔
    ∀ w, reached past w → f.items.length ≤ remaining p w ∧
      Step fine reached (Follows fine reached up remaining) f past (up p w) := by
  cases f with
  | ends calls => exact ⟨fun h w hw => ⟨Nat.zero_le _, h w hw⟩, fun h w hw => (h w hw).2⟩
  | gives calls x rest => exact Iff.rfl

/-- Calls that were made before the pull does what is said next. -/
theorem Step.after {next : Feed → List Call → S → Prop} {earlier : List Call}
    {r : Except Failure (Option Item) × S × σ}
    (h : (∀ call ∈ earlier, fine call) → Step fine reached next f (past ++ earlier) r) :
    Step fine reached next (f.after earlier) past r := by
  cases f with
  | ends calls =>
    intro hfine
    obtain ⟨hearlier, hcalls⟩ := List.forall_mem_append.mp hfine
    obtain ⟨p, w, hr, hw⟩ := h hearlier hcalls
    exact ⟨p, w, hr, by rwa [List.append_assoc] at hw⟩
  | gives calls x rest =>
    intro hfine
    obtain ⟨hearlier, hcalls⟩ := List.forall_mem_append.mp hfine
    obtain ⟨p, w, hr, hw, hrest⟩ := h hearlier hcalls
    rw [List.append_assoc] at hw hrest
    exact ⟨p, w, hr, hw, hrest⟩

/-! ### Stages -/

namespace Stage

/-- Where all calls are fine, all items come. -/
theorem collect_follows : ∀ {f : Feed} {past : List Call} {p : S} {w : σ} {fuel : Nat},
    Follows fine reached up remaining f past p → reached past w → f.items.length < fuel →
    (∀ call ∈ f.calls, fine call) → ∃ p' w', collect up fuel p w = (.ok f.items, p', w') ∧
      reached (past ++ f.calls) w'
  | _, _, _, _, 0, _, _, hfuel, _ => absurd hfuel (Nat.not_lt_zero _)
  | .ends calls, past, p, w, fuel + 1, h, hw, _, hfine => by
    obtain ⟨p', w', hup, hw'⟩ := h w hw hfine
    refine ⟨p', w', ?_, hw'⟩
    rw [collect, hup]
    rfl
  | .gives calls x rest, past, p, w, fuel + 1, h, hw, hfuel, hfine => by
    obtain ⟨hcalls, hrest⟩ := List.forall_mem_append.mp hfine
    obtain ⟨p₁, w₁, hup, hw₁, hnext⟩ := (h w hw).2 hcalls
    obtain ⟨p', w', hall, hw'⟩ :=
      collect_follows hnext hw₁ (Nat.lt_of_succ_lt_succ hfuel) hrest
    refine ⟨p', w', ?_, by rwa [List.append_assoc] at hw'⟩
    rw [collect, hup]
    simp only [hall]
    rfl

/-- Each item that is not accepted leaves fewer to come, so the search does not end before them. -/
theorem search_step {accepts : Predicate} : ∀ {f : Feed} {past : List Call} {p : S} {w : σ}
    {fuel : Nat}, Follows fine reached up remaining f past p →
    f.Known fine (fun x => ∃ b, accepts x.document = .ok b) → reached past w →
    f.items.length < fuel →
    Step fine reached
      (Follows fine reached (fun p w => search up accepts (remaining p w + 1) p w) remaining)
      (f.condition accepts) past (search up accepts fuel p w)
  | _, _, _, _, 0, _, _, _, hfuel => absurd hfuel (Nat.not_lt_zero _)
  | .ends calls, past, p, w, fuel + 1, h, _, hw, _ => by
    intro hfine
    obtain ⟨p', w', hup, hw'⟩ := h w hw hfine
    refine ⟨p', w', ?_, hw'⟩
    rw [search, hup]
  | .gives calls x rest, past, p, w, fuel + 1, h, hknown, hw, hfuel => by
    have hpull := (h w hw).2
    rw [Feed.condition]
    by_cases ha : accepted accepts x.document = true
    · rw [if_pos ha]
      intro hfine
      obtain ⟨p', w', hup, hw', hrest⟩ := hpull hfine
      obtain ⟨b, hb⟩ := hknown.1 hfine
      obtain rfl : b = true := by simpa [accepted, hb, Except.toOption] using ha
      refine ⟨p', w', ?_, hw', follows_iff.mpr fun w₂ hw₂ => ?_⟩
      · rw [search, hup]
        simp only [hb]
      · have hle := (follows_iff.mp hrest w₂ hw₂).1
        refine ⟨?_, search_step hrest hknown.2 hw₂ (Nat.lt_succ_of_le hle)⟩
        rw [Feed.items_condition]
        exact Nat.le_trans (List.length_filter_le _ _) hle
    · rw [if_neg ha]
      refine Step.after fun hfine => ?_
      obtain ⟨p', w', hup, hw', hrest⟩ := hpull hfine
      obtain ⟨b, hb⟩ := hknown.1 hfine
      obtain rfl : b = false := by simpa [accepted, hb, Except.toOption] using ha
      rw [search, hup]
      simp only [hb]
      exact search_step hrest hknown.2 hw' (Nat.lt_of_succ_lt_succ hfuel)

theorem search_follows {accepts : Predicate} (h : Follows fine reached up remaining f past p)
    (hknown : f.Known fine fun x => ∃ b, accepts x.document = .ok b) :
    Follows fine reached (fun p w => search up accepts (remaining p w + 1) p w) remaining
      (f.condition accepts) past p := by
  refine follows_iff.mpr fun w hw => ?_
  have hle := (follows_iff.mp h w hw).1
  refine ⟨?_, search_step h hknown hw (Nat.lt_succ_of_le hle)⟩
  rw [Feed.items_condition]
  exact Nat.le_trans (List.length_filter_le _ _) hle

theorem project_follows {transform : Transform} : ∀ {f : Feed} {past : List Call} {p : S},
    Follows fine reached up remaining f past p →
    f.Known fine (fun x => ∃ d, transform x.document = .ok d) →
    Follows fine reached (project up transform) remaining (f.projection transform) past p
  | .ends calls, past, p, h, _ => by
    intro w hw hfine
    obtain ⟨p', w', hup, hw'⟩ := h w hw hfine
    refine ⟨p', w', ?_, hw'⟩
    rw [project, hup]
  | .gives calls x rest, past, p, h, hknown => by
    intro w hw
    refine ⟨?_, fun hfine => ?_⟩
    · rw [Feed.items_projection, List.length_map]
      exact (h w hw).1
    · obtain ⟨p', w', hup, hw', hrest⟩ := (h w hw).2 hfine
      obtain ⟨d, hd⟩ := hknown.1 hfine
      refine ⟨p', w', ?_, hw', project_follows hrest hknown.2⟩
      have hmade : made transform x.document = d := by simp [made, hd, Except.toOption]
      rw [project, hup]
      simp only [hd, Item.projected, hmade]

section Sorting
variable {compare : Comparator} {remaining' : Option (List Item) × S → σ → Nat}

/-- What is in stock comes without any calls. -/
theorem stock_follows (hstock : ∀ items p w, remaining' (some items, p) w = items.length) :
    ∀ (items : List Item) (past : List Call) (p : S),
    Follows fine reached (sortAll up remaining compare) remaining' (Feed.stock items) past
      (some items, p)
  | [], past, p => fun w hw _ => ⟨_, w, rfl, by rwa [List.append_nil]⟩
  | x :: items, past, p => by
    intro w hw
    refine ⟨?_, fun _ => ⟨_, w, rfl, ?_, stock_follows hstock items _ p⟩⟩
    · rw [hstock, Feed.items_stock]
      rfl
    · rwa [List.append_nil]

theorem sortAll_follows (hstock : ∀ items p w, remaining' (some items, p) w = items.length)
    (hnone : ∀ p w, remaining' (none, p) w = remaining p w)
    (h : Follows fine reached up remaining f past p) {ys : List Item}
    (hsort : SortOrder.sort Item.document compare f.items = .ok ys) :
    Follows fine reached (sortAll up remaining compare) remaining' (f.sort compare) past
      (none, p) := by
  refine follows_iff.mpr fun w hw => ?_
  have hle := (follows_iff.mp h w hw).1
  constructor
  · rw [Feed.items_sort, hsort, hnone]
    exact Nat.le_trans (Nat.le_of_eq (Order.sort_perm hsort).length_eq) hle
  · rw [Feed.sort, hsort]
    refine Step.after fun hfine => ?_
    obtain ⟨p', w', hall, hw'⟩ := collect_follows h hw (Nat.lt_succ_of_le hle) hfine
    have hstocked : Follows fine reached (sortAll up remaining compare) remaining'
        (Feed.stock ys) (past ++ f.calls) (some ys, p') := stock_follows hstock ys _ p'
    have hserve := (follows_iff.mp hstocked w' hw').2
    simp only [sortAll, hall, hsort]
    exact hserve

end Sorting

section Offset
variable {remaining' : Bool × S → σ → Nat} {count : Int}

/-- Once its items are left out, an offset gives what comes. -/
theorem offsetBy_ready (hsame : ∀ ready p w, remaining' (ready, p) w = remaining p w) :
    ∀ {f : Feed} {past : List Call} {p : S}, Follows fine reached up remaining f past p →
    Follows fine reached (offsetBy up count) remaining' f past (true, p)
  | .ends calls, past, p, h => by
    intro w hw hfine
    obtain ⟨p', w', hup, hw'⟩ := h w hw hfine
    refine ⟨(true, p'), w', ?_, hw'⟩
    simp only [offsetBy, if_true, hup]
  | .gives calls x rest, past, p, h => by
    intro w hw
    refine ⟨by rw [hsame]; exact (h w hw).1, fun hfine => ?_⟩
    obtain ⟨p', w', hup, hw', hrest⟩ := (h w hw).2 hfine
    refine ⟨(true, p'), w', ?_, hw', offsetBy_ready hsame hrest⟩
    simp only [offsetBy, if_true, hup]

theorem offsetBy_step (hsame : ∀ ready p w, remaining' (ready, p) w = remaining p w) :
    ∀ (n : Nat) {f : Feed} {past : List Call} {p : S} {w : σ},
    Follows fine reached up remaining f past p → reached past w →
    Step fine reached (Follows fine reached (offsetBy up count) remaining') (f.offset n) past
      (offsetBy up n (false, p) w)
  | 0, f, past, p, w, h, hw => by
    have hready : Follows fine reached (offsetBy up count) remaining' f past (true, p) :=
      offsetBy_ready hsame h
    exact (follows_iff.mp hready w hw).2
  | n + 1, .ends calls, past, p, w, h, hw => by
    intro hfine
    obtain ⟨p', w', hup, hw'⟩ := h w hw hfine
    refine ⟨(false, p'), w', ?_, hw'⟩
    simp only [offsetBy, Int.toNat_natCast, skip, hup]
    rfl
  | n + 1, .gives calls x rest, past, p, w, h, hw => by
    refine Step.after fun hfine => ?_
    obtain ⟨p', w', hup, hw', hrest⟩ := (h w hw).2 hfine
    have hnext := offsetBy_step hsame n hrest hw'
    simp only [offsetBy, Int.toNat_natCast, skip, hup] at hnext ⊢
    exact hnext

theorem offsetBy_follows (hsame : ∀ ready p w, remaining' (ready, p) w = remaining p w)
    (h : Follows fine reached up remaining f past p) :
    Follows fine reached (offsetBy up count) remaining' (f.offset count.toNat) past (false, p) := by
  refine follows_iff.mpr fun w hw => ⟨?_, ?_⟩
  · rw [Feed.items_offset, hsame]
    exact Nat.le_trans (List.drop_sublist _ _).length_le (follows_iff.mp h w hw).1
  · have hstep : Step fine reached (Follows fine reached (offsetBy up count) remaining') _ past
        (offsetBy up count.toNat (false, p) w) := offsetBy_step hsame count.toNat h hw
    simpa only [offsetBy, Int.toNat_natCast] using hstep

end Offset

theorem limitTo_follows {remaining' : Int × S → σ → Nat}
    (hsame : ∀ left p w, remaining' (left, p) w = remaining p w) :
    ∀ {f : Feed} {past : List Call} {p : S} (left : Int), Follows fine reached up remaining f past p →
    Follows fine reached (limitTo up) remaining' (f.limit left.toNat) past (left, p) := by
  intro f
  induction f with
  | ends calls =>
    intro past p left h
    by_cases hleft : left ≤ 0
    · rw [Int.toNat_of_nonpos hleft]
      refine fun w hw _ => ⟨(left, p), w, ?_, by rwa [List.append_nil]⟩
      rw [limitTo, if_pos hleft]
    · obtain ⟨n, hn⟩ : ∃ n, left.toNat = n + 1 := ⟨(left - 1).toNat, by omega⟩
      rw [hn]
      intro w hw hfine
      obtain ⟨p', w', hup, hw'⟩ := h w hw hfine
      refine ⟨(left - 1, p'), w', ?_, hw'⟩
      simp only [limitTo, if_neg hleft, hup]
  | gives calls x rest ih =>
    intro past p left h
    by_cases hleft : left ≤ 0
    · rw [Int.toNat_of_nonpos hleft]
      refine fun w hw _ => ⟨(left, p), w, ?_, by rwa [List.append_nil]⟩
      rw [limitTo, if_pos hleft]
    · have hn : left.toNat = (left - 1).toNat + 1 := by omega
      rw [hn]
      intro w hw
      refine ⟨?_, fun hfine => ?_⟩
      · rw [Feed.items_limit, hsame]
        exact Nat.le_trans (Nat.succ_le_succ (List.take_sublist _ _).length_le) (h w hw).1
      · obtain ⟨p', w', hup, hw', hrest⟩ := (h w hw).2 hfine
        refine ⟨(left - 1, p'), w', ?_, hw', ih (left - 1) hrest⟩
        simp only [limitTo, if_neg hleft, hup]

end Stage

end Lemmas

/-! ## Chains -/

/-- A store that lists these identifiers, and reads these documents as far as reading them is fine,
whatever it was called for before. -/
structure Store.Lists (s : Store σ) (fine : Call → Prop) (reached : List Call → σ → Prop)
    (ids : List Text) (doc : Text → Document) : Prop where
  index : ∀ past w, reached past w →
    ∃ w', s.index w = (.ok ids, w') ∧ reached (past ++ [⟨.index, none⟩]) w'
  read : ∀ id ∈ ids, fine ⟨.read, some id⟩ → ∀ past w, reached past w →
    ∃ w', s.read id w = (.ok (doc id), w') ∧ reached (past ++ [⟨.read, some id⟩]) w'

section Chains
variable {s : Store σ} {fine : Call → Prop} {reached : List Call → σ → Prop} {ids : List Text}
  {doc : Text → Document} {idField : Option Text}

theorem reads_follow (hs : s.Lists fine reached ids doc) : ∀ (left : List Text),
    (∀ id ∈ left, id ∈ ids) → ∀ past : List Call,
    Follows fine reached (Stage.source s idField) (Progress.remaining s [])
      (Feed.reads idField doc left) past (some left)
  | [], _, past => fun w hw _ => ⟨some [], w, rfl, by rwa [List.append_nil]⟩
  | id :: left, hleft, past => by
    obtain ⟨hid, hrest⟩ := List.forall_mem_cons.mp hleft
    have hnext := reads_follow hs left hrest (past ++ [⟨.read, some id⟩])
    intro w hw
    refine ⟨?_, fun hfine => ?_⟩
    · show _ ≤ left.length + 1
      have hlength : (Feed.reads idField doc left).items.length = left.length := by
        rw [← Feed.items_after [⟨.index, none⟩]]
        exact (congrArg List.length (Feed.items_source idField left doc)).trans (List.length_map _)
      rw [hlength]
    · obtain ⟨w', hread, hw'⟩ := hs.read id hid (hfine _ List.mem_cons_self) past w hw
      refine ⟨some left, w', ?_, hw', hnext⟩
      rw [Stage.source, Stage.readNext, hread]

theorem source_follows (hs : s.Lists fine reached ids doc) (past : List Call) :
    Follows fine reached (Stage.source s idField) (Progress.remaining s [])
      (Feed.source idField ids doc) past none := by
  refine follows_iff.mpr fun w hw => ?_
  obtain ⟨w', hindex, hw'⟩ := hs.index past w hw
  constructor
  · rw [Feed.items_source, storedItems, List.length_map]
    simp only [Progress.remaining, hindex, le_refl]
  · refine Step.after fun _ => ?_
    rw [Stage.source, hindex]
    exact (follows_iff.mp (reads_follow hs ids (fun _ h => h) _) w' hw').2

/-- Pulls from a chain that starts anew do what its feed says. -/
theorem pull_follows (hs : s.Lists fine reached ids doc) (past : List Call) : ∀ (chain : List Stage),
    Defined fine chain (Feed.source idField ids doc) →
    Follows fine reached (pull s idField chain) (Progress.remaining s chain)
      (feed chain (Feed.source idField ids doc)) past (Progress.rewound chain)
  | [], _ => source_follows hs past
  | .condition _ :: rest, h => Stage.search_follows (pull_follows hs past rest h.1) h.2
  | .projection _ :: rest, h => Stage.project_follows (pull_follows hs past rest h.1) h.2
  | .sort _ :: rest, h => by
    obtain ⟨h, ys, hsort⟩ := h
    exact Stage.sortAll_follows (fun _ _ _ => rfl) (fun _ _ => rfl) (pull_follows hs past rest h)
      hsort
  | .offset _ :: rest, h =>
    Stage.offsetBy_follows (fun _ _ _ => rfl) (pull_follows hs past rest h)
  | .limit left :: rest, h =>
    Stage.limitTo_follows (fun _ _ _ => rfl) left (pull_follows hs past rest h)

/-- Draining a chain that starts anew makes all calls of its feed and gives all its items. -/
theorem drain_follows (hs : s.Lists fine reached ids doc) {chain : List Stage}
    (hdefined : Defined fine chain (Feed.source idField ids doc)) {past : List Call} {w : σ}
    (hw : reached past w)
    (hfine : ∀ call ∈ (feed chain (Feed.source idField ids doc)).calls, fine call) :
    ∃ p w', drain s idField chain (Progress.rewound chain) w =
        (.ok (feed chain (Feed.source idField ids doc)).items, p, w') ∧
      reached (past ++ (feed chain (Feed.source idField ids doc)).calls) w' := by
  have h := pull_follows hs past chain hdefined
  exact Stage.collect_follows h hw (Nat.lt_succ_of_le (follows_iff.mp h w hw).1) hfine

end Chains

/-! ## Stages that keep documents -/

section Kept
variable {fine : Call → Prop} {f : Feed} {chain : List Stage}

theorem feed_append (stages chain : List Stage) (f : Feed) :
    feed (stages ++ chain) f = feed stages (feed chain f) := List.foldr_append

theorem mem_of_mem_onFeed {stage : Stage} (hkeeps : stage.keepsDocuments = true) {x : Item}
    (hx : x ∈ (stage.onFeed f).items) : x ∈ f.items := by
  cases stage with
  | condition accepts | projection transform => cases hkeeps
  | offset count =>
    rw [Stage.onFeed, Feed.items_offset] at hx
    exact List.mem_of_mem_drop hx
  | limit count =>
    rw [Stage.onFeed, Feed.items_limit] at hx
    exact List.mem_of_mem_take hx
  | sort compare =>
    rw [Stage.onFeed, Feed.items_sort] at hx
    cases hsort : SortOrder.sort Item.document compare f.items with
    | error e =>
      rw [hsort] at hx
      cases hx
    | ok ys =>
      rw [hsort] at hx
      exact (Order.sort_perm hsort).mem_iff.mp hx

theorem mem_of_mem_feed {x : Item} : ∀ (stages : List Stage),
    (∀ stage ∈ stages, stage.keepsDocuments = true) → x ∈ (feed stages f).items → x ∈ f.items
  | [], _, hx => hx
  | _ :: stages, hkeeps, hx => by
    obtain ⟨hstage, hkeeps⟩ := List.forall_mem_cons.mp hkeeps
    exact mem_of_mem_feed stages hkeeps (mem_of_mem_onFeed hstage hx)

/-- Without a sort, a chain makes of the items what it makes of their list. -/
theorem items_feed : ∀ (stages : List Stage), (∀ compare, Stage.sort compare ∉ stages) →
    (feed stages f).items = answer stages f.items
  | [], _ => rfl
  | stage :: stages, hsort => by
    have hrest := items_feed stages fun compare h => hsort compare (List.mem_cons_of_mem _ h)
    rw [answer_cons, ← hrest]
    cases stage with
    | sort compare => exact absurd List.mem_cons_self (hsort compare)
    | condition accepts => exact Feed.items_condition accepts _
    | projection transform => exact Feed.items_projection transform _
    | offset count => exact Feed.items_offset count.toNat _
    | limit count => exact Feed.items_limit count.toNat _

/-- Of the stages that keep documents only the sorts can fail. -/
theorem defined_append (hchain : Defined fine chain f) : ∀ (stages : List Stage),
    (∀ stage ∈ stages, stage.keepsDocuments = true) →
    (∀ compare, Stage.sort compare ∈ stages → ∀ xs, (∀ x ∈ xs, x ∈ (feed chain f).items) →
      ∃ ys, SortOrder.sort Item.document compare xs = .ok ys) →
    Defined fine (stages ++ chain) f
  | [], _, _ => hchain
  | stage :: stages, hkeeps, hsort => by
    obtain ⟨hstage, hothers⟩ := List.forall_mem_cons.mp hkeeps
    have hrest := defined_append hchain stages hothers fun compare hmem =>
      hsort compare (List.mem_cons_of_mem _ hmem)
    cases stage with
    | condition accepts | projection transform => cases hstage
    | offset count | limit count => exact hrest
    | sort compare =>
      refine ⟨hrest, hsort compare List.mem_cons_self _ fun x hx => ?_⟩
      exact mem_of_mem_feed stages hothers (feed_append stages chain f ▸ hx)

end Kept

namespace Cursor

/-! ## The first stages -/

section First
variable {condition : Given Predicate} {projection : Given Transform} {accepts : Predicate}
  {transform : Transform}

theorem feed_firstStages (hcondition : Condition.compile condition = .ok accepts)
    (hprojection : Projection.compile projection = .ok transform) (f : Feed) :
    feed (firstStages condition projection accepts transform) f =
      (f.condition accepts).projection transform := by
  rw [firstStages]
  cases hc : condition.isNothing <;> cases hp : projection.isNothing
  · rfl
  · rw [transform_of_nothing hprojection hp, Feed.projection_identity]
    rfl
  · rw [accepts_of_nothing hcondition hc, Feed.condition_always]
    rfl
  · rw [transform_of_nothing hprojection hp, Feed.projection_identity,
      accepts_of_nothing hcondition hc, Feed.condition_always]
    rfl

theorem items_firstStages (hcondition : Condition.compile condition = .ok accepts)
    (hprojection : Projection.compile projection = .ok transform) (f : Feed) :
    (feed (firstStages condition projection accepts transform) f).items =
      firstItems accepts transform f.items := by
  rw [feed_firstStages hcondition hprojection, Feed.items_projection, Feed.items_condition,
    firstItems]

theorem defined_firstStages {fine : Cabinet.Call → Prop} {idField : Option Text} {ids : List Text}
    {doc : Text → Document} (hcondition : Condition.compile condition = .ok accepts)
    (haccepts : ∀ id ∈ ids, fine ⟨.read, some id⟩ →
      ∃ b, accepts (.object (Stage.embed idField id (doc id))) = .ok b)
    (htransform : ∀ id ∈ ids, fine ⟨.read, some id⟩ →
      accepted accepts (.object (Stage.embed idField id (doc id))) = true →
      ∃ d, transform (.object (Stage.embed idField id (doc id))) = .ok d) :
    Defined fine (firstStages condition projection accepts transform)
      (Feed.source idField ids doc) := by
  have hread : (Feed.source idField ids doc).Known fine fun x =>
      accepted accepts x.document = true → ∃ d, transform x.document = .ok d :=
    Feed.known_source htransform
  have hcheck : (Feed.source idField ids doc).Known fine fun x => ∃ b, accepts x.document = .ok b :=
    Feed.known_source haccepts
  rw [firstStages]
  cases hc : condition.isNothing <;> cases hp : projection.isNothing
  · refine ⟨⟨trivial, hcheck⟩, (hread.condition accepts).imp fun x hx => hx.1 hx.2⟩
  · exact ⟨trivial, hcheck⟩
  · exact ⟨trivial, hread.imp fun x hx => hx (accepts_of_nothing hcondition hc ▸ rfl)⟩
  · exact trivial

end First

end Cursor

end Cabinet
