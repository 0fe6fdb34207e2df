import Cabinet.Command.Run
import Cabinet.Proofs.Collection.Session
import Cabinet.Proofs.Cursor.Paging

/-!
# Parts of commands that only look

* `Script.Still` : where a part of a command gives something, this depends on the premises of stores
  alone, and nothing in the shell is changed;
* `Still.bind` : so do parts that are built from such parts;
* `Script.echo_eq`, `Script.quit_eq` : what is printed of a text that has bytes;
* `Command.IsFolder`, `Command.openPlace_still` : a command that makes no folder opens the store of one, and
  that is all that it does;
* `Command.results_still` : a query over such a store only looks.
-/

namespace Cabinet

open Cabinet.Action

/-! ## Texts on a screen -/

namespace Screen

theorem withoutControls_eq : ∀ {t : Text}, .char '\x1b' ∉ t → withoutControls 0 t = t
  | [], _ => rfl
  | p :: t, h => by
    obtain ⟨hp, ht⟩ := not_or.mp (mt List.mem_cons.mpr h)
    have hnone : controlLength? (p :: t) = none := by
      unfold controlLength?
      split
      · next heq => exact absurd (List.cons.inj heq).1.symm hp
      · rfl
    rw [withoutControls, hnone]
    exact congrArg (p :: ·) (withoutControls_eq ht)

/-- A text without escapes has no controls that colour it. -/
theorem plain_eq {t : Text} (h : .char '\x1b' ∉ t) : plain t = t :=
  withoutControls_eq h

theorem fillTabs_encodable : ∀ (column : Nat) {t : Text}, t.Encodable → (fillTabs column t).Encodable
  | _, [], h => h
  | column, p :: t, h => by
    obtain ⟨hp, ht⟩ := List.forall_mem_cons.mp h
    rw [fillTabs]
    split
    · have hspaces : (Text.repeated (tabWidth column) ' ').Encodable :=
        fun q hq => ⟨' ', List.eq_of_mem_replicate hq⟩
      exact hspaces.append (fillTabs_encodable _ ht)
    split
    · exact List.forall_mem_cons.mpr ⟨hp, fillTabs_encodable _ ht⟩
    · exact List.forall_mem_cons.mpr ⟨hp, fillTabs_encodable _ ht⟩

/-- A text that has bytes has bytes as it is shown. -/
theorem shown_encodable {t : Text} (h : t.Encodable) : (shown t).Encodable :=
  fillTabs_encodable 0 fun p hp => h p (List.mem_filter.mp hp).1

end Screen

/-! ## Parts of commands -/

namespace Script

variable {α β : Type} {good : α → Prop} {better : β → Prop}

theorem bind_ok {a : Script α} {f : α → Script β} {sh sh' : Shell} {y : β}
    (h : (a >>= f) sh = (.ok y, sh')) :
    ∃ x sh₁, a sh = (.ok x, sh₁) ∧ f x sh₁ = (.ok y, sh') := by
  rw [bind_apply] at h
  generalize a sh = r at h
  rcases r with ⟨_ | x, sh₁⟩
  · cases h
  · exact ⟨x, sh₁, rfl, h⟩

theorem bind_of_ok {a : Script α} {f : α → Script β} {sh sh' : Shell} {x : α}
    (h : a sh = (.ok x, sh')) : (a >>= f) sh = f x sh' := by
  rw [bind_apply, h]

/-- Only what follows on a result matters for what follows. -/
theorem bind_eq_bind {a : Script α} {f g : α → Script β} {sh : Shell}
    (h : ∀ x sh', a sh = (.ok x, sh') → f x sh' = g x sh') : (a >>= f) sh = (a >>= g) sh := by
  rw [bind_apply, bind_apply]
  generalize a sh = r at h
  rcases r with ⟨_ | x, sh'⟩
  · rfl
  · exact h x sh' rfl

/-- Where a script gives something, it gives it over the same premises whatever else is in the shell, it
leaves the shell as it is, and what it gives is good. -/
def Still (a : Script α) (good : α → Prop) : Prop :=
  ∀ sh x sh', a sh = (.ok x, sh') →
    good x ∧ ∀ sh₁ : Shell, sh₁.premises = sh.premises → a sh₁ = (.ok x, sh₁)

theorem Still.same {a : Script α} {sh sh' : Shell} {x : α} (ha : Still a good)
    (h : a sh = (.ok x, sh')) : sh' = sh :=
  congrArg Prod.snd (h.symm.trans ((ha sh x sh' h).2 sh rfl))

theorem Still.bind {a : Script α} {f : α → Script β} (ha : Still a good)
    (hf : ∀ x, good x → Still (f x) better) : Still (a >>= f) better := by
  intro sh y sh' h
  obtain ⟨x, sh₁, hx, hy⟩ := bind_ok h
  obtain rfl := ha.same hx
  obtain ⟨hgood, hgives⟩ := ha _ x _ hx
  obtain ⟨hbetter, hrest⟩ := hf x hgood _ y sh' hy
  refine ⟨hbetter, fun sh₂ hpremises => ?_⟩
  rw [bind_of_ok (hgives sh₂ hpremises)]
  exact hrest sh₂ hpremises

theorem still_pure {x : α} (hx : good x) : Still (pure x : Script α) good := by
  intro sh y sh' h
  cases h
  exact ⟨hx, fun _ _ => rfl⟩

/-- A script that never gives anything. -/
theorem still_of_never {a : Script α} (h : ∀ sh x sh', a sh ≠ (.ok x, sh')) : Still a good :=
  fun sh x sh' hok => absurd hok (h sh x sh')

theorem still_ofUsage {r : Except Usage α} (hr : ∀ x, r = .ok x → good x) : Still (ofUsage r) good := by
  cases r with
  | error e => exact still_of_never fun _ _ _ h => nomatch h
  | ok x => exact still_pure (hr x rfl)

theorem ofUsage_of_ok {r : Except Usage α} {x : α} (h : r = .ok x) : ofUsage r = pure x := by
  rw [h]
  rfl

theorem onPremises_ok {a : Action Premises α} {sh sh' : Shell} {x : α}
    (h : onPremises a sh = (.ok x, sh')) :
    ∃ p, a sh.premises = (.ok x, p) ∧ sh' = { sh with premises := p } := by
  rw [onPremises] at h
  generalize a sh.premises = r at h
  rcases r with ⟨_ | y, p⟩
  · cases h
  · cases h
    exact ⟨p, rfl, rfl⟩

theorem onPremises_of_ok {a : Action Premises α} {sh : Shell} {x : α}
    (h : a sh.premises = (.ok x, sh.premises)) : onPremises a sh = (.ok x, sh) := by
  rw [onPremises, h]
  rfl

theorem still_onPremises {a : Action Premises α}
    (h : ∀ p x p', a p = (.ok x, p') → p' = p ∧ good x) : Still (onPremises a) good := by
  intro sh x sh' hok
  obtain ⟨p, hp, -⟩ := onPremises_ok hok
  obtain ⟨rfl, hgood⟩ := h _ x p hp
  refine ⟨hgood, fun sh₁ hpremises => onPremises_of_ok ?_⟩
  rw [hpremises]
  exact hp

theorem quit_ne_ok (line : Text) (code : Nat) (sh sh' : Shell) (x : α) :
    quit line code sh ≠ (.ok x, sh') := by
  intro h
  obtain ⟨_, _, -, hthrow⟩ := bind_ok h
  cases hthrow

/-- Saying something leaves the premises as they are. -/
theorem premises_say {t : Text} {sh sh' : Shell} (h : say t sh = (.ok (), sh')) :
    sh'.premises = sh.premises := by
  rw [say, printLine] at h
  cases hbytes : (Screen.shown t ++ "\n".toText).toUtf8 with
  | ok bytes =>
    simp only [hbytes] at h
    cases h
    rfl
  | error e =>
    simp only [hbytes] at h
    cases h

/-- What is reported depends on how a part of a command ends. -/
theorem reporting_congr {a b : Script α} {sh : Shell} (h : a sh = b sh) : a.reporting sh = b.reporting sh := by
  rw [reporting, reporting, tryCatch_apply, tryCatch_apply, h]

/-! ## Printing -/

theorem printLine_eq {t : Text} (ht : t.Encodable) (sh : Shell) :
    printLine t sh = (.ok (), { sh with output := sh.output ++ (t ++ "\n".toText) }) := by
  obtain ⟨bytes, hbytes⟩ := Text.toUtf8_ok (ht.append (Text.encodable_toText "\n"))
  rw [printLine, hbytes]
  rfl

/-- A text without escapes is printed as it is. -/
theorem echo_eq {t : Text} (hescape : .char '\x1b' ∉ t) (ht : t.Encodable) (sh : Shell) :
    echo t sh = (.ok (), { sh with output := sh.output ++ (t ++ "\n".toText) }) := by
  rw [echo, Screen.plain_eq hescape, printLine_eq ht]

theorem quit_eq {line : Text} (hline : line.Encodable) (code : Nat) (sh : Shell) :
    (quit line code : Script α) sh =
      (.error (.exit code), { sh with output := sh.output ++ (Screen.shown line ++ "\n".toText) }) := by
  rw [quit, say, bind_of_ok (printLine_eq (Screen.shown_encodable hline) sh)]
  rfl

end Script

/-! ## Opening a store -/

namespace Command

open Script

/-- The store of a folder. -/
def IsFolder (s : Store Premises) : Prop := ∃ format folder, s = Premises.folderStore format folder

/-- Listing and reading leave everything as it is. -/
theorem IsFolder.reads {s : Store Premises} (h : IsFolder s) (p : Premises) :
    s.Reads (fun p' => p' = p) fun _ => True := by
  obtain ⟨format, folder, rfl⟩ := h
  exact ⟨fun _ hp => hp, fun _ _ hp => hp, fun _ _ _ _ _ => trivial⟩

section Folder
variable {s : Store Premises} (h : IsFolder s) {p : Premises}
include h

theorem IsFolder.index_eq {r : Except Failure (List Text)} (hr : (s.index p).1 = r) : s.index p = (r, p) :=
  Prod.ext hr ((h.reads p).index p rfl)

theorem IsFolder.read_eq {id : Text} {r : Except Failure Document} (hr : (s.read id p).1 = r) :
    s.read id p = (r, p) :=
  Prod.ext hr ((h.reads p).read id p rfl)

end Folder

theorem load_premises (p : Premises) : (Config.load p).2 = p := by
  rw [Config.load]
  split
  · rfl
  · split <;> rfl

theorem load_still : Still (onPremises Config.load) fun _ => True :=
  still_onPremises fun p _ _ h => ⟨by rw [← load_premises p, h], trivial⟩

theorem ofName?_name {format : Format} (h : format ∈ Format.all) :
    Backend.ofName? format.name = some (.folder format) := by
  obtain rfl | rfl := Format.cases_all h <;> rfl

/-- Only backends that keep documents in files are accepted. -/
theorem backendOf_ok {place : Place} {config : Config} {name : Text}
    (h : backendOf place config = .ok name) : ∃ format, Backend.ofName? name = some (.folder format) := by
  have hfile : name ∈ fileBackends := by
    unfold backendOf at h
    dsimp only at h
    split at h
    · split at h
      · next hname =>
        cases h
        exact List.elem_iff.mp hname
      · cases h
    · cases h
  obtain ⟨format, hformat, rfl⟩ := List.mem_map.mp hfile
  exact ⟨format, ofName?_name hformat⟩

theorem openStore_ok {backend path : Text} {format : Format} {p p' : Premises} {s : Store Premises}
    (hbackend : Backend.ofName? backend = some (.folder format))
    (h : Premises.openStore backend (some path) none none false p = (.ok s, p')) :
    p' = p ∧ ∃ folder, Disk.isFolder p.disk folder = true ∧ s = Premises.folderStore format folder := by
  rw [Premises.openStore, hbackend] at h
  let folder := (Disk.Path.ofText path).expandHome p.home
  change (Premises.onDisk (Folder.openFolder false folder) >>= fun _ =>
    pure (Premises.folderStore format folder)) p = _ at h
  rw [bind_apply, Premises.onDisk, focus, Folder.openFolder] at h
  cases hfolder : Disk.isFolder p.disk folder with
  | false =>
    simp only [hfolder, Bool.false_eq_true, if_false] at h
    cases h
  | true =>
    simp only [hfolder, Bool.false_eq_true, if_false, if_true] at h
    cases h
    exact ⟨rfl, folder, hfolder, rfl⟩

theorem folderOf_still (place : Place) (config : Config) : Still (folderOf place config) fun _ => True := by
  unfold folderOf
  split
  · exact still_pure trivial
  · dsimp only
    split
    · refine still_of_never fun sh x sh' h => ?_
      obtain ⟨_, sh₁, -, h⟩ := bind_ok h
      obtain ⟨_, sh₂, -, h⟩ := bind_ok h
      obtain ⟨_, sh₃, hquit, -⟩ := bind_ok h
      exact quit_ne_ok _ _ _ _ _ hquit
    · split
      · exact still_pure trivial
      · exact still_of_never fun _ _ _ h => nomatch h

theorem openPlace_still (place : Place) : Still (openPlace place false) fun c => IsFolder c.store := by
  refine load_still.bind fun config _ => ?_
  refine Still.bind (still_ofUsage fun _ h => backendOf_ok h) fun backend hbackend => ?_
  obtain ⟨format, hformat⟩ := hbackend
  refine (folderOf_still place config).bind fun folder _ => ?_
  refine Still.bind (still_onPremises fun _ _ _ h => ?_) fun s (hs : IsFolder s) => still_pure hs
  obtain ⟨hp, path, -, hs⟩ := openStore_ok hformat h
  exact ⟨hp, format, path, hs⟩

/-! ## Running a query -/

theorem toList_premises {query : Cursor Premises} (hstore : IsFolder query.store) (p : Premises) :
    (Cursor.toList (query, p)).2.2 = p :=
  ((Cursor.lasting_over (hstore.reads p)).toList (query, p) ⟨rfl, rfl⟩).1.2

theorem results_still {query : Cursor Premises} (hstore : IsFolder query.store) :
    Still (results query) fun _ => True := by
  refine still_onPremises fun p docs p' h => ⟨?_, trivial⟩
  have hkeeps := toList_premises hstore p
  rw [Collection.runQuery] at h
  generalize Cursor.toList (query, p) = r at h hkeeps
  obtain ⟨r, query', p₁⟩ := r
  cases h
  exact hkeeps

end Command

end Cabinet
