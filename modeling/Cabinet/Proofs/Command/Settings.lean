import Cabinet.Command.Run
import Cabinet.Proofs.Json.Ascii
import Cabinet.Proofs.Json.Points
import Cabinet.Proofs.Store.Making

/-!
# Settings in their file

The file of a configuration is written in ASCII, so settings of any text are kept in it, but two lone
surrogates that stand together come back as the character that is written like them.

* `Text.IsPlain`, `Json.render_plain` : what is written in ASCII, which has bytes and is shown as it is;
* `Config.Alike` : configurations that are written in the same way;
* `Config.ofValue_toValue`, `Config.ofText_render` : a configuration is read back from its text;
* `Config.file_saved`, `Config.load_saved` : saving makes no other file that of the configuration, and what
  was saved is loaded;
* `Config.change_get` : a change of some settings leaves the others as they are.
-/

namespace Cabinet

/-! ## Text in ASCII -/

/-- A text of line feeds and of ASCII characters that are no controls. -/
def Text.IsPlain (t : Text) : Prop := t.Within fun p => ∃ c, p = .char c ∧ Json.isPlainAscii c = true

namespace Text

theorem IsPlain.not_mem {t : Text} (h : t.IsPlain) {c : Char} (hc : Json.isPlainAscii c = false) :
    .char c ∉ t := by
  intro hmem
  obtain ⟨_, heq, hplain⟩ := h _ hmem
  obtain rfl := CodePoint.char.inj heq
  rw [hc] at hplain
  cases hplain

theorem encodeFrom_plain : ∀ {t : Text} (position : Nat), t.IsPlain →
    Utf8.encodeFrom position t = .ok (t.map fun p => p.toNat.toUInt8)
  | [], _, _ => rfl
  | p :: t, position, h => by
    obtain ⟨⟨c, rfl, hc⟩, ht⟩ := Text.within_cons.mp h
    have hsmall : c.toNat < 0x80 := by
      simp only [Json.isPlainAscii, Bool.or_eq_true, Bool.and_eq_true, beq_iff_eq, decide_eq_true_eq] at hc
      rcases hc with rfl | hc
      · decide
      · omega
    rw [Utf8.encodeFrom, encodeFrom_plain (position + 1) ht, Utf8.encodeChar, if_pos hsmall]
    rfl

theorem IsPlain.encodable {t : Text} (h : t.IsPlain) : t.Encodable :=
  fun p hp => (h p hp).imp fun _ hc => hc.1

theorem IsPlain.toUtf8 {t : Text} (h : t.IsPlain) : t.toUtf8 = .ok (t.map fun p => p.toNat.toUInt8) :=
  encodeFrom_plain 0 h

end Text

theorem Json.render_plain (v : Value) : (Json.render .indentedAscii 0 v).IsPlain := by
  have hascii : Json.HoldsAscii fun p => ∃ c, p = .char c ∧ Json.isPlainAscii c = true :=
    fun c hc => ⟨c, rfl, hc⟩
  exact Json.render_within hascii ⟨Json.within_toText hascii (by decide),
    Json.within_toText hascii (by decide)⟩ 0 v fun _ _ _ _ => nofun

/-! ## Configurations that are written in the same way -/

/-- A scalar that has a literal, and one that is written in ASCII in the same way. -/
def Value.Alike (v w : Value) : Prop :=
  ∃ s s', Json.HasLiteral s ∧ s.Alike s' ∧ v = .scalar s ∧ w = .scalar s'

theorem Scalar.Alike.literal {s s' : Scalar} (h : s.Alike s') (hs : Json.HasLiteral s) :
    Json.HasLiteral s' := by
  cases h with
  | refl => exact hs
  | text h => trivial

theorem Scalar.Alike.trans {s s' s'' : Scalar} (h : s.Alike s') (h' : s'.Alike s'') : s.Alike s'' := by
  cases h with
  | refl => exact h'
  | text h =>
    cases h' with
    | refl => exact .text h
    | text h' => exact .text (Eq.trans h h')

theorem Value.Alike.trans {v w x : Value} (h : v.Alike w) (h' : w.Alike x) : v.Alike x := by
  obtain ⟨s, s', hs, hsame, rfl, rfl⟩ := h
  obtain ⟨_, s'', -, hsame', heq, rfl⟩ := h'
  obtain rfl := Value.scalar.inj heq
  exact ⟨s, s'', hs, hsame.trans hsame', rfl, rfl⟩

theorem Value.alike_self {s : Scalar} (hs : Json.HasLiteral s) : Value.Alike (.scalar s) (.scalar s) :=
  ⟨s, s, hs, .refl s, rfl, rfl⟩

/-- What is alike is written in the same way. -/
theorem Value.Alike.render {v w : Value} (h : v.Alike w) (level : Nat) :
    Json.render .indentedAscii level v = Json.render .indentedAscii level w := by
  obtain ⟨s, s', -, hsame, rfl, rfl⟩ := h
  rw [Json.render, Json.render]
  exact Json.renderScalar_alike hsame

/-- What is alike is true or not in the same way. -/
theorem Value.Alike.isTrue {v w : Value} (h : v.Alike w) : v.isTrue = w.isTrue := by
  obtain ⟨s, s', -, hsame, rfl, rfl⟩ := h
  cases hsame with
  | refl => rfl
  | @text t u hsame =>
    have hempty : t.isEmpty = u.isEmpty := by
      rw [Bool.eq_iff_iff, List.isEmpty_iff, List.isEmpty_iff]
      exact ⟨Json.alike_nil hsame, Json.alike_nil hsame.symm⟩
    exact congrArg not hempty

namespace Config

/-- Every setting is a scalar that has a literal. -/
def IsLiteral (c : Config) : Prop := ∀ s, ∃ x, Json.HasLiteral x ∧ c.get s = .scalar x

/-- Configurations that are written in the same way, setting by setting. -/
def Alike (c c' : Config) : Prop := ∀ s, (c.get s).Alike (c'.get s)

theorem Alike.trans {a b c : Config} (h : a.Alike b) (h' : b.Alike c) : a.Alike c :=
  fun s => (h s).trans (h' s)

theorem Alike.isLiteral {c c' : Config} (h : c.Alike c') : c'.IsLiteral := by
  intro s
  obtain ⟨x, x', hx, hsame, -, hget⟩ := h s
  exact ⟨x', hsame.literal hx, hget⟩

theorem alike_defaults : defaults.Alike defaults := by
  intro s
  cases s <;> exact Value.alike_self trivial

theorem Alike.render {c c' : Config} (h : c.Alike c') :
    Json.render .indentedAscii 0 c.toValue = Json.render .indentedAscii 0 c'.toValue := by
  refine Json.render_named (fun group : String => Scalar.text group.toText) (fun group _ level => ?_) 0
  exact Json.render_named (fun s : Setting => Scalar.text s.name.toText) (fun s _ => (h s).render) level

/-! ## From a value and from a text -/

theorem ofValue_toValue (c : Config) : ofValue c.toValue = .ok c := by
  cases c
  rfl

theorem exists_readsAs {c : Config} (hc : c.IsLiteral) :
    ∃ c' : Config, c.Alike c' ∧ Json.ReadsAs .indentedAscii c.toValue c'.toValue := by
  have hvalue : ∀ s, ∃ v, (c.get s).Alike v ∧ Json.ReadsAs .indentedAscii (c.get s) v := by
    intro s
    obtain ⟨x, hx, hget⟩ := hc s
    rw [hget]
    obtain ⟨x', -, hsame, hread⟩ : ∃ x', Json.HasLiteral x' ∧ x.Alike x' ∧
        Json.ReadsAs .indentedAscii (.scalar x) (.scalar x') := Json.exists_readsAs rfl hx
    exact ⟨_, ⟨x, x', hx, hsame, rfl, rfl⟩, hread⟩
  choose value hsame hread using hvalue
  obtain ⟨c', hc'⟩ : ∃ c' : Config, ∀ s, c'.get s = value s :=
    ⟨⟨value .backend, value .path, value .verbose, value .color, value .pageSize⟩, fun s => by cases s <;> rfl⟩
  refine ⟨c', fun s => (hc' s).symm ▸ hsame s, ?_⟩
  -- An object of two objects, each with names that differ.
  refine Json.readsAs_named Json.Style.spaced_indentedAscii rfl id (fun group hgroup => ?_) (by decide)
  refine Json.readsAs_named Json.Style.spaced_indentedAscii rfl Setting.name
    (fun s _ => (hc' s).symm ▸ hread s) ?_
  revert group
  decide

/-- A configuration is read back from its text as one that is written in the same way. -/
theorem ofText_render {c : Config} (hc : c.IsLiteral) :
    c.Alike (ofText (Json.render .indentedAscii 0 c.toValue)) := by
  obtain ⟨c', hsame, hread⟩ := exists_readsAs hc
  rw [ofText, hread.parse]
  simp only [ofValue_toValue]
  exact hsame

/-! ## Saving and loading -/

/-- A configuration whose bytes are in its file is loaded. -/
theorem load_of_read {c : Config} (hc : c.IsLiteral) {p : Premises}
    (hread : Disk.readFile p.disk (file p) = .ok c.bytes) :
    ∃ c' : Config, c.Alike c' ∧ load p = (.ok c', p) := by
  have hplain := Json.render_plain c.toValue
  have hlines : (Json.render .indentedAscii 0 c.toValue).withLineFeeds =
      Json.render .indentedAscii 0 c.toValue := Text.withLineFeeds_eq (hplain.not_mem (by decide))
  refine ⟨_, ofText_render hc, ?_⟩
  rw [load, hread]
  simp only [bytes, Text.ofUtf8_toUtf8 hplain.toUtf8, hlines]

/-- Without a file the defaults are loaded. -/
theorem load_defaults {p : Premises} (h : Disk.exists? p.disk (file p) = false) :
    load p = (.ok defaults, p) := by
  unfold Disk.exists? at h
  rw [load, Disk.readFile]
  cases hlookup : Disk.lookup p.disk (file p) with
  | error cause => rfl
  | ok node =>
    rw [hlookup] at h
    cases h

section Saving
variable {c : Config} {p p' : Premises} {target : Disk.Path}

theorem save_ok (h : c.save p = (.ok target, p')) : ∃ d₁ d',
    Disk.makeFolders p.disk (Disk.splitLast (file p)).1 = .ok d₁ ∧
      Disk.putFile d₁ (file p) c.bytes = .ok d' ∧ p' = { p with disk := d' } := by
  rw [save] at h
  split at h
  · cases h
  · next d₁ hmake =>
    split at h
    · cases h
    · next d' hput =>
      cases h
      exact ⟨d₁, d', hmake, hput, rfl⟩

theorem shared_ne_back : ".config".toText ≠ Disk.Path.back := by decide

/-- Saving makes no other file that of the configuration. -/
theorem file_saved (hhome : p.disk.Settled p.home) (h : c.save p = (.ok target, p')) : file p' = file p := by
  obtain ⟨d₁, d', hmake, hput, rfl⟩ := save_ok h
  have hread : Disk.readFile d' (file p) = .ok c.bytes := Disk.readFile_put (by decide) hput
  suffices hshared : Disk.exists? d' (p.home.child ".config".toText) =
      Disk.exists? p.disk (p.home.child ".config".toText) by
    rw [file, file]
    simp only [hshared]
  unfold file at hmake hput hread
  cases hshared : Disk.exists? p.disk (p.home.child ".config".toText) with
  | true =>
    simp only [hshared, if_true] at hread
    have hfile := Disk.readFile_ok_iff.mp hread
    obtain ⟨_, hfolder⟩ := Disk.lookup_of_child (by decide) hfile
    obtain ⟨es, hes⟩ := Disk.lookup_of_child (by decide) hfolder
    exact Disk.exists?_iff.mpr ⟨_, hes⟩
  | false =>
    simp only [hshared, Bool.false_eq_true, if_false, Folder.splitLast_child] at hmake hput
    refine Bool.eq_false_iff.mpr fun hnow => ?_
    have hbefore := Disk.exists?_beside hhome (by decide) shared_ne_back (by decide) hmake hput hnow
    rw [hshared] at hbefore
    cases hbefore

theorem settled_saved (hhome : p.disk.Settled p.home) (h : c.save p = (.ok target, p')) :
    p'.disk.Settled p'.home := by
  obtain ⟨d₁, d', hmake, hput, rfl⟩ := save_ok h
  exact (hhome.keeps (Disk.makeFolders_keeps hmake)).keeps (Disk.changedAt_putFile hput).2.2

/-- What was saved is loaded. -/
theorem load_saved (hc : c.IsLiteral) (hhome : p.disk.Settled p.home) (h : c.save p = (.ok target, p')) :
    ∃ c' : Config, c.Alike c' ∧ load p' = (.ok c', p') := by
  refine load_of_read hc ?_
  rw [file_saved hhome h]
  obtain ⟨d₁, d', -, hput, rfl⟩ := save_ok h
  exact Disk.readFile_put (by decide) hput

end Saving

/-! ## Changing some settings -/

theorem get_set (c : Config) (v : Value) (s s' : Setting) :
    (c.set v s).get s' = if s' = s then v else c.get s' := by
  cases s <;> cases s' <;> rfl

/-- A setting that is given has its new value, and every other is as it was. By induction on the settings:
null stands for one that is not given. -/
theorem change_get {given : Setting → Option Value} (hgiven : ∀ s, given s ≠ some .null) (s : Setting) :
    ∀ (ss : List Setting) (c : Config),
      (c.change (ss.map fun s => (s, (given s).getD .null))).get s =
        if s ∈ ss then (given s).getD (c.get s) else c.get s
  | [], _ => by simp [change]
  | s₁ :: ss, c => by
    have hstep : c.change ((s₁ :: ss).map fun s => (s, (given s).getD .null)) =
        Config.change (if (given s₁).getD .null = .null then c else c.set ((given s₁).getD .null) s₁)
          (ss.map fun s => (s, (given s).getD .null)) := rfl
    rw [hstep, change_get hgiven s ss]
    cases hfirst : given s₁ with
    | none =>
      rw [Option.getD_none, if_pos rfl]
      by_cases hs : s = s₁
      · rw [hs, hfirst]
        simp
      · simp [hs]
    | some v =>
      have hv : v ≠ .null := fun h => hgiven s₁ (h ▸ hfirst)
      rw [Option.getD_some, if_neg hv, get_set]
      by_cases hs : s = s₁
      · rw [hs, hfirst]
        simp
      · simp [hs]

end Config

end Cabinet
