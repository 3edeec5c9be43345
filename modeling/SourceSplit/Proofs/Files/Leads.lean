import SourceSplit.Files.Change
import SourceSplit.Proofs.Files.Plain

/-!
# SourceSplit.Proofs.Files.Leads

Where a path leads in a plain tree. `Enters` follows names from directory to directory, and
`Leads` says that a path names the entry of a place: the names before the last one lead to the
directory that holds it. Both hang on the directories of the tree alone, so that changing files
never changes where a path leads.

* `follow_eq_directory_iff`, `follow_concat`: the relations against `follow`.
* `readBytes_eq_ok_iff`, `Leads.isPresent_eq_false_iff`: reading, said with places.
-/

namespace SourceSplit
namespace Files

/-- A name that stands for an entry of the directory it is looked up in. -/
structure Ordinary (name : String) : Prop where
  ne_empty : name ≠ ""
  ne_here : name ≠ "."
  ne_up : name ≠ ".."

instance (name : String) : Decidable (Ordinary name) :=
  decidable_of_iff (name ≠ "" ∧ name ≠ "." ∧ name ≠ "..")
    ⟨fun ⟨hempty, hhere, hup⟩ => ⟨hempty, hhere, hup⟩, fun h => ⟨h.1, h.2, h.3⟩⟩

/-- From one directory to another along names. -/
inductive Enters (tree : Tree) : Place → List String → Place → Prop where
  | done {dir : Place} : tree.get? dir = some .directory → Enters tree dir [] dir
  | stay {dir last : Place} {name : String} {rest : List String} :
      tree.get? dir = some .directory → name = "" ∨ name = "." → Enters tree dir rest last →
      Enters tree dir (name :: rest) last
  | up {dir last : Place} {rest : List String} :
      tree.get? dir = some .directory → Enters tree dir.tail rest last →
      Enters tree dir (".." :: rest) last
  | down {dir last : Place} {name : String} {rest : List String} :
      tree.get? dir = some .directory → Ordinary name → isTooLong name = false →
      Enters tree (name :: dir) rest last → Enters tree dir (name :: rest) last

/-- The path names the entry in a place, which need not exist. -/
structure Leads (tree : Tree) (path : Path) (place : Place) : Prop where
  nul : nulFree path = .ok ()
  fits : lengthFits path = .ok ()
  names : ∃ before name dir, pathNames path.text = before ++ [name] ∧ Ordinary name ∧
    isTooLong name = false ∧ Enters tree (startFrom tree.home path.text) before dir ∧
    place = name :: dir

namespace Enters

variable {tree : Tree} {first mid last : Place} {names rest : List String}

theorem start (h : Enters tree first names last) : tree.get? first = some .directory := by
  cases h <;> assumption

theorem stop (h : Enters tree first names last) : tree.get? last = some .directory := by
  induction h with
  | done hd => exact hd
  | stay _ _ _ ih => exact ih
  | up _ _ ih => exact ih
  | down _ _ _ _ ih => exact ih

theorem append (h : Enters tree first names mid) (h' : Enters tree mid rest last) :
    Enters tree first (names ++ rest) last := by
  induction h with
  | done _ => exact h'
  | stay hd hn _ ih => exact .stay hd hn (ih h')
  | up hd _ ih => exact .up hd (ih h')
  | down hd ho hl _ ih => exact .down hd ho hl (ih h')

theorem of_append (h : Enters tree first (names ++ rest) last) :
    ∃ mid, Enters tree first names mid ∧ Enters tree mid rest last := by
  induction names generalizing first with
  | nil => exact ⟨first, .done h.start, h⟩
  | cons name names ih =>
    rw [List.cons_append] at h
    cases h with
    | stay hd hn h =>
      obtain ⟨mid, h1, h2⟩ := ih h
      exact ⟨mid, .stay hd hn h1, h2⟩
    | up hd h =>
      obtain ⟨mid, h1, h2⟩ := ih h
      exact ⟨mid, .up hd h1, h2⟩
    | down hd ho hl h =>
      obtain ⟨mid, h1, h2⟩ := ih h
      exact ⟨mid, .down hd ho hl h1, h2⟩

/-- Empty names and single dots at the end lead nowhere else. -/
theorem of_append_idle {idle : List String} (hi : ∀ name ∈ idle, name = "" ∨ name = ".")
    (h : Enters tree first (names ++ idle) last) : Enters tree first names last := by
  obtain ⟨mid, h1, h2⟩ := h.of_append
  have heq : mid = last := by
    clear h h1
    induction idle with
    | nil =>
      cases h2
      rfl
    | cons name idle ih =>
      have hname := hi name (by simp)
      cases h2 with
      | stay _ _ h2 => exact ih (fun n hn => hi n (List.mem_cons_of_mem _ hn)) h2
      | up _ _ => rcases hname with h | h <;> exact absurd h (by decide)
      | down _ ho _ _ => exact absurd hname (not_or.2 ⟨ho.ne_empty, ho.ne_here⟩)
  rwa [heq] at h1

theorem unique {last' : Place} (h : Enters tree first names last)
    (h' : Enters tree first names last') : last = last' := by
  induction h with
  | done _ =>
    cases h'
    rfl
  | stay _ hn _ ih =>
    cases h' with
    | stay _ _ h' => exact ih h'
    | up _ _ => rcases hn with h | h <;> exact absurd h (by decide)
    | down _ ho _ _ => exact absurd hn (not_or.2 ⟨ho.ne_empty, ho.ne_here⟩)
  | up _ _ ih =>
    cases h' with
    | stay _ hn _ => rcases hn with h | h <;> exact absurd h (by decide)
    | up _ h' => exact ih h'
    | down _ ho _ _ => exact absurd rfl ho.ne_up
  | down _ ho _ _ ih =>
    cases h' with
    | stay _ hn _ => exact absurd hn (not_or.2 ⟨ho.ne_empty, ho.ne_here⟩)
    | up _ _ => exact absurd rfl ho.ne_up
    | down _ _ _ h' => exact ih h'

/-- A way is still there when there are more directories. -/
theorem mono {other : Tree} (hdirs : ∀ place, tree.get? place = some .directory →
      other.get? place = some .directory) (h : Enters tree first names last) :
    Enters other first names last := by
  induction h with
  | done hd => exact .done (hdirs _ hd)
  | stay hd hn _ ih => exact .stay (hdirs _ hd) hn ih
  | up hd _ ih => exact .up (hdirs _ hd) ih
  | down hd ho hl _ ih => exact .down (hdirs _ hd) ho hl ih

theorem transfer {other : Tree} (hs : tree.SameDirectories other)
    (h : Enters tree first names last) : Enters other first names last :=
  h.mono fun place => (hs.directory place).1

end Enters

namespace Leads

variable {tree other : Tree} {path : Path} {place place' : Place}

theorem unique (h : Leads tree path place) (h' : Leads tree path place') : place = place' := by
  obtain ⟨before, name, dir, hn, _, _, he, rfl⟩ := h.names
  obtain ⟨before', name', dir', hn', _, _, he', rfl⟩ := h'.names
  obtain ⟨rfl, hlast⟩ := List.append_inj' (hn.symm.trans hn') rfl
  rw [he.unique he', (List.cons.inj hlast).1]

theorem transfer (hs : tree.SameDirectories other) (h : Leads tree path place) :
    Leads other path place where
  nul := h.nul
  fits := h.fits
  names := by
    obtain ⟨before, name, dir, hn, ho, hl, he, hp⟩ := h.names
    exact ⟨before, name, dir, hn, ho, hl, hs.home ▸ he.transfer hs, hp⟩

theorem iff_of_sameDirectories (hs : tree.SameDirectories other) :
    Leads tree path place ↔ Leads other path place :=
  ⟨transfer hs, transfer hs.symm⟩

theorem exists_cons (h : Leads tree path place) :
    ∃ name dir, place = name :: dir ∧ tree.get? dir = some .directory := by
  obtain ⟨before, name, dir, _, _, _, he, hp⟩ := h.names
  exact ⟨name, dir, hp, he.stop⟩

end Leads

/-! ## Following names in a plain tree -/

section Follow

variable {tree : Tree} {create : Bool} {links : Nat} {place : Place}

theorem follow_cons (h : tree.Plain) (hd : tree.get? place = some .directory) (name : String)
    (rest : List String) :
    follow tree create links place (name :: rest) =
      if name = "" ∨ name = "." then follow tree create links place rest
      else if name = ".." then follow tree create links place.tail rest
      else if create ∧ rest ≠ [] ∧ rest.all (· = "") then .error .isDirectory
      else if isTooLong name then .error .nameTooLong
      else if tree.get? (name :: place) = none then
        if rest = [] then .ok (.free (name :: place)) else .error .notFound
      else follow tree create links (name :: place) rest := by
  rw [follow, hd]
  cases hg : tree.get? (name :: place) with
  | none => simp
  | some entry =>
    cases entry with
    | link target => exact absurd hg (h.no_link _ _)
    | _ => simp

theorem follow_of_not_directory (h : tree.Plain) (hd : tree.get? place ≠ some .directory)
    (name : String) (rest : List String) (spot : Spot) :
    follow tree create links place (name :: rest) ≠ .ok spot := by
  rw [follow]
  cases hg : tree.get? place with
  | none => simp
  | some entry =>
    cases entry with
    | link target => exact absurd hg (h.no_link _ _)
    | file content => simp
    | directory => exact absurd hg hd

theorem follow_of_enters (h : tree.Plain) {names rest : List String} {last : Place}
    (he : Enters tree place names last) (hr : create = false ∨ ∃ n ∈ rest, n ≠ "") :
    follow tree create links place (names ++ rest) = follow tree create links last rest := by
  induction he with
  | done _ => rfl
  | stay hd hn _ ih => rw [List.cons_append, follow_cons h hd, if_pos hn, ih]
  | up hd _ ih =>
    rw [List.cons_append, follow_cons h hd, if_neg (by decide), if_pos rfl, ih]
  | @down dir last name names hd ho hl he ih =>
    have hstop : ¬ (create ∧ names ++ rest ≠ [] ∧ (names ++ rest).all (· = "")) := by
      rintro ⟨hc, _, hall⟩
      rcases hr with hr | ⟨n, hn, hne⟩
      · rw [hr] at hc
        cases hc
      · rw [List.all_eq_true] at hall
        exact hne (by simpa using hall n (List.mem_append_right _ hn))
    have hsome : tree.get? (name :: dir) ≠ none := by
      rw [he.start]
      simp
    rw [List.cons_append, follow_cons h hd, if_neg (not_or.2 ⟨ho.ne_empty, ho.ne_here⟩),
      if_neg ho.ne_up, if_neg hstop, if_neg (by simp [hl]), if_neg hsome, ih]

theorem follow_eq_directory_iff (h : tree.Plain) {names : List String} {last : Place} :
    follow tree false links place names = .ok (.directory last) ↔ Enters tree place names last := by
  constructor
  · intro hf
    induction names generalizing place with
    | nil =>
      rw [follow] at hf
      split at hf
      · cases hf
      · rename_i hd
        cases hf
        exact .done hd
      · cases hf
      · cases hf
    | cons name rest ih =>
      by_cases hd : tree.get? place = some .directory
      · rw [follow_cons h hd] at hf
        split at hf
        · rename_i hn
          exact .stay hd hn (ih hf)
        · rename_i hn
          split at hf
          · rename_i hup
            rw [hup]
            exact .up hd (ih hf)
          · rename_i hup
            rw [if_neg (by simp)] at hf
            split at hf
            · cases hf
            · rename_i hl
              have ho : Ordinary name := ⟨fun e => hn (.inl e), fun e => hn (.inr e), hup⟩
              split at hf
              · split at hf <;> cases hf
              · exact .down hd ho (by simpa using hl) (ih hf)
      · exact absurd hf (follow_of_not_directory h hd _ _ _)
  · intro he
    have hf : follow tree false links place (names ++ []) = follow tree false links last [] :=
      follow_of_enters h he (.inl rfl)
    rw [List.append_nil] at hf
    rw [hf, follow, he.stop]

/-- What stands in a place that a path names. -/
def spotAt (tree : Tree) (place : Place) : Spot :=
  match tree.get? place with
  | some (.file content) => .file place content
  | some _ => .directory place
  | none => .free place

theorem follow_concat (h : tree.Plain) {before : List String} {name : String} {dir : Place}
    (he : Enters tree place before dir) (ho : Ordinary name) (hl : isTooLong name = false) :
    follow tree create links place (before ++ [name]) = .ok (spotAt tree (name :: dir)) := by
  rw [follow_of_enters h he (.inr ⟨name, by simp, ho.ne_empty⟩), follow_cons h he.stop,
    if_neg (not_or.2 ⟨ho.ne_empty, ho.ne_here⟩), if_neg ho.ne_up, if_neg (by simp),
    if_neg (by simp [hl]), spotAt]
  cases hg : tree.get? (name :: dir) with
  | none => simp
  | some entry =>
    rw [if_neg (by simp), follow, hg]
    cases entry with
    | link target => exact absurd hg (h.no_link _ _)
    | _ => rfl

/-- A way that ends at a file, or where one may be made, ends with the name of that file. -/
theorem exists_concat_of_follow (h : tree.Plain) (hd : tree.get? place = some .directory)
    {names : List String} {spot : Spot} (hspot : ∀ dir, spot ≠ .directory dir)
    (hf : follow tree create links place names = .ok spot) :
    ∃ before name dir, names = before ++ [name] ∧ Ordinary name ∧ isTooLong name = false ∧
      Enters tree place before dir := by
  induction names generalizing place with
  | nil =>
    rw [follow, hd] at hf
    cases hf
    exact absurd rfl (hspot place)
  | cons name rest ih =>
    rw [follow_cons h hd] at hf
    split at hf
    · rename_i hn
      obtain ⟨before, last, dir, rfl, ho, hl, he⟩ := ih hd hf
      exact ⟨name :: before, last, dir, rfl, ho, hl, .stay hd hn he⟩
    · rename_i hn
      split at hf
      · rename_i hup
        obtain ⟨before, last, dir, rfl, ho, hl, he⟩ := ih (h.tail hd) hf
        exact ⟨name :: before, last, dir, rfl, ho, hl, hup ▸ .up hd he⟩
      · rename_i hup
        have ho : Ordinary name := ⟨fun e => hn (.inl e), fun e => hn (.inr e), hup⟩
        split at hf
        · cases hf
        · split at hf
          · cases hf
          · rename_i hl
            replace hl : isTooLong name = false := by simpa using hl
            split at hf
            · split at hf
              · rename_i hrest
                exact ⟨[], name, place, by rw [hrest, List.nil_append], ho, hl, .done hd⟩
              · cases hf
            · rename_i hsome
              by_cases hsub : tree.get? (name :: place) = some .directory
              · obtain ⟨before, last, dir, rfl, ho', hl', he⟩ := ih hsub hf
                exact ⟨name :: before, last, dir, rfl, ho', hl', .down hd ho hl he⟩
              · cases rest with
                | nil => exact ⟨[], name, place, rfl, ho, hl, .done hd⟩
                | cons n rest => exact absurd hf (follow_of_not_directory h hsub _ _ _)

end Follow

/-! ## Where paths lead -/

theorem exists_of_bind_eq_ok {ε α β : Type} {x : Except ε α} {f : α → Except ε β} {b : β}
    (h : x >>= f = .ok b) : ∃ a, x = .ok a ∧ f a = .ok b := by
  cases x with
  | error _ => cases h
  | ok a => exact ⟨a, rfl, h⟩

section Path

variable {tree : Tree} {path : Path} {place : Place}

theorem start_directory (h : tree.Plain) (text : String) :
    tree.get? (startFrom tree.home text) = some .directory := by
  unfold startFrom
  split
  · rfl
  · exact h.home

theorem Leads.locate (h : tree.Plain) (hl : Leads tree path place) (create : Bool) :
    locate tree create path = .ok (spotAt tree place) := by
  obtain ⟨before, name, dir, hn, ho, hlen, he, rfl⟩ := hl.names
  simp only [Files.locate, hl.nul, hl.fits, hn, bind, Except.bind]
  exact follow_concat h he ho hlen

theorem Leads.status_directory (h : tree.Plain) (hl : Leads tree path place)
    (hd : tree.get? place = some .directory) : status tree path = .ok (.directory place) := by
  simp only [status, hl.locate h, spotAt, hd]

theorem leads_of_locate (h : tree.Plain) {create : Bool} {spot : Spot}
    (hspot : ∀ dir, spot ≠ .directory dir) (hf : locate tree create path = .ok spot) :
    ∃ place, Leads tree path place ∧ spot = spotAt tree place := by
  have hlocate := hf
  unfold locate at hf
  obtain ⟨⟨⟩, hnul, hf⟩ := exists_of_bind_eq_ok hf
  obtain ⟨⟨⟩, hfits, hf⟩ := exists_of_bind_eq_ok hf
  obtain ⟨before, name, dir, hn, ho, hl, he⟩ :=
    exists_concat_of_follow h (start_directory h _) hspot hf
  have hleads : Leads tree path (name :: dir) :=
    ⟨hnul, hfits, before, name, dir, hn, ho, hl, he, rfl⟩
  rw [hleads.locate h] at hlocate
  exact ⟨_, hleads, (Except.ok.inj hlocate).symm⟩

theorem readBytes_eq_ok_iff (h : tree.Plain) {content : ByteArray} :
    readBytes tree path = .ok content ↔
      ∃ place, Leads tree path place ∧ tree.get? place = some (.file content) := by
  constructor
  · intro hr
    simp only [readBytes, status] at hr
    split at hr
    · rename_i found hs
      cases hr
      split at hs
      · cases hs
      · obtain ⟨p, hl, hp⟩ := leads_of_locate h (by simp) hs
        refine ⟨p, hl, ?_⟩
        unfold spotAt at hp
        split at hp <;> simp_all
    all_goals cases hr
  · rintro ⟨p, hl, hp⟩
    simp only [readBytes, status, hl.locate h, spotAt, hp]

/-- Where a path leads can be found out before files were changed. -/
theorem readBytes_of_same {after : Tree} {content : ByteArray} (h : after.Plain)
    (hs : tree.SameDirectories after) (hl : Leads tree path place)
    (hg : after.get? place = some (.file content)) : readBytes after path = .ok content := by
  rw [readBytes_eq_ok_iff h]
  exact ⟨place, hl.transfer hs, hg⟩

theorem fromUTF8?_eq_some_iff {bytes : ByteArray} {text : String} :
    String.fromUTF8? bytes = some text ↔ bytes = text.toUTF8 := by
  unfold String.fromUTF8?
  constructor
  · intro h
    split at h
    · cases h
      rfl
    · cases h
  · rintro rfl
    rw [String.toUTF8_eq_toByteArray, dif_pos text.isValidUTF8]
    rfl

theorem readText_eq_ok_iff {text : String} :
    readText tree path = .ok text ↔ readBytes tree path = .ok text.toUTF8 := by
  unfold readText
  cases hb : readBytes tree path with
  | error fault => simp [bind, Except.bind]
  | ok bytes =>
    simp only [bind, Except.bind, Except.ok.injEq]
    rw [← fromUTF8?_eq_some_iff]
    cases String.fromUTF8? bytes <;> simp

theorem Leads.readText (h : tree.Plain) (hl : Leads tree path place) {text : String}
    (hg : tree.get? place = some (.file text.toUTF8)) : readText tree path = .ok text := by
  rw [readText_eq_ok_iff, readBytes_eq_ok_iff h]
  exact ⟨place, hl, hg⟩

theorem Leads.isPresent_eq_false_iff (h : tree.Plain) (hl : Leads tree path place) :
    isPresent tree path = false ↔ tree.get? place = none := by
  simp only [isPresent, status, hl.locate h, spotAt]
  cases hg : tree.get? place with
  | none => simp
  | some entry => cases entry <;> simp

end Path

end Files
end SourceSplit
