import SourceSplit.Proofs.Files.Change

/-!
# SourceSplit.Proofs.Files.Passes

The entries that an operation looks at. Following a path, one comes by the entry of each name on
the way (`Passes`), and whatever is done with the path hangs on the directories of the tree and on
these entries alone. So two trees with the same directories, which agree on a set of places
(`Alike`), cannot be told apart by paths that come by no other places (`Covers`): what is read is
the same, and a change goes through in both or fails in both for the same reason (`Agrees`), and
changes both in the same way (`Parallel`).
-/

namespace SourceSplit
namespace Files

/-- Names that are followed from `start` come by the entry of a place. -/
def ComesBy (tree : Tree) (start : Place) (names : List String) (place : Place) : Prop :=
  ∃ before name rest dir, names = before ++ name :: rest ∧ Ordinary name ∧
    isTooLong name = false ∧ Enters tree start before dir ∧ place = name :: dir

def Passes (tree : Tree) (path : Path) (place : Place) : Prop :=
  ComesBy tree (startFrom tree.home path.text) (pathNames path.text) place

/-- A path comes by no other places than these. -/
def Covers (places : Place → Prop) (tree : Tree) (path : Path) : Prop :=
  ∀ place, Passes tree path place → places place

/-- Two plain trees that differ in files only, and not in those that stand in `places`. -/
structure Alike (places : Place → Prop) (t u : Tree) : Prop where
  left : t.Plain
  right : u.Plain
  same : t.SameDirectories u
  agree : ∀ place, places place → t.get? place = u.get? place

/-- What two trees `t` and `u` that are alike have become is alike again, and in each of them
nothing has changed but what stands in `places`. -/
structure Parallel (places : Place → Prop) (t u t' u' : Tree) : Prop where
  before : Alike places t u
  after : Alike places t' u'
  same : t.SameDirectories t'
  left : ∀ place, ¬ places place → t'.get? place = t.get? place
  right : ∀ place, ¬ places place → u'.get? place = u.get? place

/-- Two changes of `t` and `u`: both fail for one reason, or what they make is parallel. -/
inductive Agrees (places : Place → Prop) (t u : Tree) :
    Except Fault Tree → Except Fault Tree → Prop where
  | failed (fault : Fault) : Agrees places t u (.error fault) (.error fault)
  | done {t' u' : Tree} : Parallel places t u t' u' → Agrees places t u (.ok t') (.ok u')

section

variable {tree other t u v w t' u' : Tree} {places : Place → Prop} {path : Path}
  {start place dir : Place} {names before rest : List String} {name : String}

/-! ## Coming by an entry -/

theorem ComesBy.append (h : ComesBy tree start names place) :
    ComesBy tree start (names ++ rest) place := by
  obtain ⟨before, name, behind, dir, rfl, ho, hl, he, hp⟩ := h
  exact ⟨before, name, behind ++ rest, dir, by simp, ho, hl, he, hp⟩

theorem ComesBy.stay (hd : tree.get? start = some .directory) (hn : name = "" ∨ name = ".")
    (h : ComesBy tree start names place) : ComesBy tree start (name :: names) place := by
  obtain ⟨before, last, behind, dir, rfl, ho, hl, he, hp⟩ := h
  exact ⟨name :: before, last, behind, dir, rfl, ho, hl, .stay hd hn he, hp⟩

theorem ComesBy.up (hd : tree.get? start = some .directory)
    (h : ComesBy tree start.tail names place) : ComesBy tree start (".." :: names) place := by
  obtain ⟨before, last, behind, dir, rfl, ho, hl, he, hp⟩ := h
  exact ⟨".." :: before, last, behind, dir, rfl, ho, hl, .up hd he, hp⟩

theorem ComesBy.down (hd : tree.get? start = some .directory) (ho : Ordinary name)
    (hl : isTooLong name = false) (h : ComesBy tree (name :: start) names place) :
    ComesBy tree start (name :: names) place := by
  obtain ⟨before, last, behind, dir, rfl, ho', hl', he, hp⟩ := h
  exact ⟨name :: before, last, behind, dir, rfl, ho', hl', .down hd ho hl he, hp⟩

theorem Leads.passes (h : Leads tree path place) : Passes tree path place := by
  obtain ⟨before, name, dir, hn, ho, hl, he, hp⟩ := h.names
  exact ⟨before, name, [], dir, hn, ho, hl, he, hp⟩

theorem Passes.mono (hhome : other.home = tree.home)
    (hdirs : ∀ place, tree.get? place = some .directory → other.get? place = some .directory)
    (h : Passes tree path place) : Passes other path place := by
  obtain ⟨before, name, behind, dir, hn, ho, hl, he, hp⟩ := h
  exact ⟨before, name, behind, dir, hn, ho, hl, hhome ▸ he.mono hdirs, hp⟩

theorem Passes.transfer (hs : tree.SameDirectories other) (h : Passes tree path place) :
    Passes other path place :=
  h.mono hs.home.symm fun place => (hs.directory place).1

theorem Covers.transfer (hs : tree.SameDirectories other) (h : Covers places tree path) :
    Covers places other path :=
  fun place hp => h place (hp.transfer hs.symm)

/-- Of the entries on the way of a path, all but the last are directories. -/
theorem Passes.eq_of_not_directory (hn : pathNames path.text = before ++ [name])
    (he : Enters tree (startFrom tree.home path.text) before dir) (h : Passes tree path place)
    (hnot : tree.get? place ≠ some .directory) : place = name :: dir := by
  obtain ⟨front, last, behind, above, hn', ho, _, he', rfl⟩ := h
  rw [hn] at hn'
  rcases behind.eq_nil_or_concat with rfl | ⟨behind, z, rfl⟩
  · obtain ⟨rfl, hlast⟩ := List.append_inj' hn' rfl
    rw [he.unique he', (List.cons.inj hlast).1]
  · exfalso
    rw [List.concat_eq_append, ← List.cons_append, ← List.append_assoc] at hn'
    obtain ⟨rfl, _⟩ := List.append_inj' hn' rfl
    obtain ⟨mid, hmid, hback⟩ := he.of_append
    rw [← he'.unique hmid] at hback
    cases hback with
    | stay _ hidle _ => exact (not_or.2 ⟨ho.ne_empty, ho.ne_here⟩) hidle
    | up _ _ => exact ho.ne_up rfl
    | down _ _ _ hdown => exact hnot hdown.start

/-! ## Reading -/

theorem Alike.refl (h : t.Plain) : Alike places t t where
  left := h
  right := h
  same := .refl
  agree := fun _ _ => rfl

theorem follow_congr (h : t.Plain) (h' : u.Plain) (hstart : t.get? start = u.get? start)
    (hagree : ∀ place, ComesBy t start names place → t.get? place = u.get? place)
    (create : Bool) (links : Nat) :
    follow t create links start names = follow u create links start names := by
  induction names generalizing start with
  | nil => rw [follow, follow, hstart]
  | cons name rest ih =>
    by_cases hd : t.get? start = some .directory
    · have hd' : u.get? start = some .directory := hstart ▸ hd
      rw [follow_cons h hd, follow_cons h' hd']
      by_cases hidle : name = "" ∨ name = "."
      · rw [if_pos hidle, if_pos hidle]
        exact ih hstart fun place hc => hagree place (hc.stay hd hidle)
      · by_cases hup : name = ".."
        · rw [if_neg hidle, if_neg hidle, if_pos hup, if_pos hup]
          -- What holds a directory is one, in both trees.
          have htail : t.get? start.tail = u.get? start.tail := by
            rw [h.tail hd, h'.tail hd']
          exact ih htail fun place hc => hagree place (hup ▸ hc.up hd)
        · have ho : Ordinary name := ⟨fun e => hidle (.inl e), fun e => hidle (.inr e), hup⟩
          rw [if_neg hidle, if_neg hidle, if_neg hup, if_neg hup]
          by_cases hlong : isTooLong name = true
          · simp only [hlong, if_true]
          · have hl : isTooLong name = false := by simpa using hlong
            have hhere : t.get? (name :: start) = u.get? (name :: start) :=
              hagree _ ⟨[], name, rest, start, rfl, ho, hl, .done hd, rfl⟩
            rw [ih hhere fun place hc => hagree place (hc.down hd ho hl), hhere]
    · have hd' : u.get? start ≠ some .directory := hstart ▸ hd
      rw [follow, follow, ← hstart]
      cases hg : t.get? start with
      | none => rfl
      | some entry =>
        cases entry with
        | directory => exact absurd hg hd
        | _ => rfl

namespace Alike

theorem start_eq (h : Alike places t u) (text : String) :
    startFrom t.home text = startFrom u.home text := by
  rw [h.same.home]

theorem follow_names (h : Alike places t u) (hc : Covers places t path)
    (hn : pathNames path.text = names ++ rest) (create : Bool) (links : Nat) :
    follow t create links (startFrom t.home path.text) names =
      follow u create links (startFrom u.home path.text) names := by
  rw [← h.start_eq]
  refine follow_congr h.left h.right ?_ (fun place hcomes => ?_) create links
  · rw [start_directory h.left, h.start_eq, start_directory h.right]
  · apply h.agree place
    apply hc
    unfold Passes
    rw [hn]
    exact hcomes.append

theorem locate_eq (h : Alike places t u) (hc : Covers places t path) (create : Bool) :
    locate t create path = locate u create path := by
  unfold locate
  rw [h.follow_names hc (List.append_nil _).symm]

theorem status_eq (h : Alike places t u) (hc : Covers places t path) :
    status t path = status u path := by
  simp only [status, h.locate_eq hc]

theorem readText_eq (h : Alike places t u) (hc : Covers places t path) :
    readText t path = readText u path := by
  simp only [readText, readBytes, h.status_eq hc]

theorem isFile_eq (h : Alike places t u) (hc : Covers places t path) :
    isFile t path = isFile u path := by
  simp only [isFile, h.status_eq hc]

theorem isPresent_eq (h : Alike places t u) (hc : Covers places t path) :
    isPresent t path = isPresent u path := by
  simp only [isPresent, h.status_eq hc]

end Alike

/-! ## Operations on the last name of a path -/

theorem splitLast_cases (names : List String) :
    (∃ rest, names = (splitLast names).1 ++ rest ∧ (splitLast names).2 = .special) ∨
      ∃ name slash rest, names = (splitLast names).1 ++ name :: rest ∧ Ordinary name ∧
        (splitLast names).2 = .plain name slash := by
  have hback : names = (names.reverse.dropWhile (· = "")).reverse ++
      (names.reverse.takeWhile (· = "")).reverse := by
    rw [← List.reverse_append, List.takeWhile_append_dropWhile, List.reverse_reverse]
  unfold splitLast
  split
  · exact .inl ⟨names, rfl, rfl⟩
  · rename_i name before hdrop
    rw [hdrop, List.reverse_cons, List.append_assoc, List.singleton_append] at hback
    split
    · exact .inl ⟨_, hback, rfl⟩
    · rename_i hspecial
      have hne : name ≠ "" := by
        have hhead := List.head?_dropWhile_not (fun s : String => decide (s = "")) names.reverse
        rw [hdrop] at hhead
        simpa using hhead
      exact .inr ⟨name, _, _, hback,
        ⟨hne, fun e => hspecial (.inl e), fun e => hspecial (.inr e)⟩, rfl⟩

theorem Alike.directoryOf_eq (h : Alike places t u) (hc : Covers places t path) :
    directoryOf t path = directoryOf u path := by
  have hnames : ∃ rest, pathNames path.text = (splitLast (pathNames path.text)).1 ++ rest := by
    rcases splitLast_cases (pathNames path.text) with ⟨rest, hn, _⟩ | ⟨_, _, _, hn, _⟩
    · exact ⟨rest, hn⟩
    · exact ⟨_, hn⟩
  obtain ⟨rest, hn⟩ := hnames
  simp only [directoryOf, h.follow_names hc hn]

/-- A path comes by the entry that it names for an operation. -/
theorem passes_of_directoryOf (h : tree.Plain) {slash : Bool}
    (hd : directoryOf tree path = .ok (dir, .plain name slash)) (hlong : isTooLong name = false) :
    Passes tree path (name :: dir) ∧ tree.get? dir = some .directory := by
  unfold directoryOf at hd
  obtain ⟨⟨⟩, _, hd⟩ := exists_of_bind_eq_ok hd
  simp only at hd
  split at hd
  · rename_i found hf
    have he := (follow_eq_directory_iff h).1 hf
    simp only [Except.ok.injEq, Prod.mk.injEq] at hd
    obtain ⟨rfl, hlast⟩ := hd
    rcases splitLast_cases (pathNames path.text) with ⟨_, _, hspecial⟩ | ⟨_, _, rest, hn, ho, hp⟩
    · rw [hspecial] at hlast
      cases hlast
    · rw [hp] at hlast
      cases hlast
      exact ⟨⟨_, name, rest, found, hn, ho, hlong, he, rfl⟩, he.stop⟩
  all_goals cases hd

/-! ## Changing both trees -/

theorem Parallel.refl (h : Alike places t u) : Parallel places t u t u where
  before := h
  after := h
  same := .refl
  left := fun _ _ => rfl
  right := fun _ _ => rfl

theorem Parallel.trans (h : Parallel places t u v w) (h' : Parallel places v w t' u') :
    Parallel places t u t' u' where
  before := h.before
  after := h'.after
  same := h.same.trans h'.same
  left := fun place hno => (h'.left place hno).trans (h.left place hno)
  right := fun place hno => (h'.right place hno).trans (h.right place hno)

/-- Two changes of one tree, each made again in what the other has made of it, come to the same:
one makes `t'` of `t` and `x` of `u`, the other makes `u` of `t` and `y` of `t'`. -/
theorem Parallel.commute {second : Place → Prop} {x y : Tree} (h : Parallel places t u t' x)
    (h' : Parallel second t t' u y) : y.Same x := by
  constructor
  · calc y.home = u.home := h'.after.same.home.symm
      _ = t.home := h'.same.home.symm
      _ = t'.home := h.same.home
      _ = x.home := h.after.same.home
  · -- What stands in a place is up to whichever change looks at it; none changed what both look at.
    intro place
    by_cases hp : places place
    · rw [← h.after.agree place hp]
      by_cases hp' : second place
      · rw [← h'.after.agree place hp', ← h.before.agree place hp, h'.before.agree place hp']
      · exact h'.right place hp'
    · rw [h.right place hp]
      by_cases hp' : second place
      · exact (h'.after.agree place hp').symm
      · rw [h'.right place hp', h.left place hp, h'.left place hp']

theorem ne_of_outside {p : Place} (hp : places p) (hno : ¬ places place) : place ≠ p := by
  rintro rfl
  exact hno hp

section Change

variable {content : ByteArray} (h : Alike places t u) (hplace : places (name :: dir))
include h hplace

theorem Alike.put (hdir : t.get? dir = some .directory)
    (hnot : t.get? (name :: dir) ≠ some .directory) :
    Parallel places t u (t.put (name :: dir) (.file content))
      (u.put (name :: dir) (.file content)) where
  before := h
  after := by
    have hdir' : u.get? dir = some .directory := (h.same.directory _).1 hdir
    have hnot' : u.get? (name :: dir) ≠ some .directory := mt (h.same.directory _).2 hnot
    refine ⟨h.left.put hdir hnot (by simp), h.right.put hdir' hnot' (by simp), ?_, ?_⟩
    · exact (Tree.sameDirectories_put hnot).symm.trans
        (h.same.trans (Tree.sameDirectories_put hnot'))
    · intro place hp
      rw [Tree.get?_put, Tree.get?_put, h.agree place hp]
  same := Tree.sameDirectories_put hnot
  left := by
    intro place hno
    rw [Tree.get?_put, if_neg (ne_of_outside hplace hno)]
  right := by
    intro place hno
    rw [Tree.get?_put, if_neg (ne_of_outside hplace hno)]

theorem Alike.erase (hnot : t.get? (name :: dir) ≠ some .directory) :
    Parallel places t u (t.erase (name :: dir)) (u.erase (name :: dir)) where
  before := h
  after := by
    have hnot' : u.get? (name :: dir) ≠ some .directory := mt (h.same.directory _).2 hnot
    refine ⟨h.left.erase hnot, h.right.erase hnot', ?_, ?_⟩
    · exact (Tree.sameDirectories_erase hnot).symm.trans
        (h.same.trans (Tree.sameDirectories_erase hnot'))
    · intro place hp
      rw [Tree.get?_erase, Tree.get?_erase, h.agree place hp]
  same := Tree.sameDirectories_erase hnot
  left := by
    intro place hno
    rw [Tree.get?_erase, if_neg (ne_of_outside hplace hno)]
  right := by
    intro place hno
    rw [Tree.get?_erase, if_neg (ne_of_outside hplace hno)]

theorem Alike.move {p : Place} (hp : places p) (hg : t.get? p = some (.file content))
    (hne : p ≠ name :: dir) (hdir : t.get? dir = some .directory)
    (hnot : t.get? (name :: dir) ≠ some .directory) :
    Parallel places t u (t.move p (name :: dir)) (u.move p (name :: dir)) := by
  have hg' : u.get? p = some (.file content) := h.agree p hp ▸ hg
  have hdir' : u.get? dir = some .directory := (h.same.directory _).1 hdir
  have hnot' : u.get? (name :: dir) ≠ some .directory := mt (h.same.directory _).2 hnot
  have hmoved := moved_move h.left hg hne hdir hnot
  have hmoved' := moved_move h.right hg' hne hdir' hnot'
  refine ⟨h, ⟨hmoved.plain, hmoved'.plain, ?_, ?_⟩, hmoved.same, ?_, ?_⟩
  · exact hmoved.same.symm.trans (h.same.trans hmoved'.same)
  · intro place hplace
    rw [hmoved.get?, hmoved'.get?, hg, hg', h.agree place hplace]
  · intro place hno
    rw [hmoved.get?, if_neg (ne_of_outside hplace hno), if_neg (ne_of_outside hp hno)]
  · intro place hno
    rw [hmoved'.get?, if_neg (ne_of_outside hplace hno), if_neg (ne_of_outside hp hno)]

end Change

theorem Agrees.cases {x y : Except Fault Tree} (h : Agrees places t u x y) :
    (∃ fault, x = .error fault ∧ y = .error fault) ∨
      ∃ t' u', x = .ok t' ∧ y = .ok u' ∧ Parallel places t u t' u' := by
  cases h with
  | failed fault => exact .inl ⟨fault, rfl, rfl⟩
  | done hp => exact .inr ⟨_, _, rfl, rfl, hp⟩

theorem write_agrees (h : Alike places t u) (hc : Covers places t path) (content : ByteArray) :
    Agrees places t u (write t path content) (write u path content) := by
  have hlocate := h.locate_eq hc true
  unfold write
  rw [← hlocate]
  cases hl : locate t true path with
  | error fault => exact .failed fault
  | ok spot =>
    have hput : ∀ {place}, Leads t path place → t.get? place ≠ some .directory →
        Parallel places t u (t.put place (.file content)) (u.put place (.file content)) := by
      intro place hleads hnot
      obtain ⟨name, dir, rfl, hdir⟩ := hleads.exists_cons
      exact h.put (hc _ hleads.passes) hdir hnot
    cases spot with
    | directory place => exact .failed .isDirectory
    | file place found =>
      obtain ⟨p, hleads, hspot⟩ := leads_of_locate h.left (by simp) hl
      unfold spotAt at hspot
      split at hspot
      · rename_i hg
        cases hspot
        exact .done (hput hleads (by rw [hg]; simp))
      all_goals cases hspot
    | free place =>
      obtain ⟨p, hleads, hspot⟩ := leads_of_locate h.left (by simp) hl
      unfold spotAt at hspot
      split at hspot
      · cases hspot
      · cases hspot
      · rename_i hg
        cases hspot
        exact .done (hput hleads (by rw [hg]; simp))

theorem remove_agrees (h : Alike places t u) (hc : Covers places t path) :
    Agrees places t u (remove t path) (remove u path) := by
  have hdirectory := h.directoryOf_eq hc
  unfold remove
  rw [← hdirectory]
  cases nulFree path with
  | error fault => exact .failed fault
  | ok _ =>
    cases hd : directoryOf t path with
    | error fault => exact .failed fault
    | ok found =>
      obtain ⟨dir, last⟩ := found
      cases last with
      | special => exact .failed .isDirectory
      | plain name slash =>
        simp only [bind, Except.bind]
        by_cases hlong : isTooLong name = true
        · rw [if_pos hlong, if_pos hlong]
          exact .failed .nameTooLong
        · rw [if_neg hlong, if_neg hlong]
          obtain ⟨hpasses, _⟩ := passes_of_directoryOf h.left hd (by simpa using hlong)
          rw [← h.agree _ (hc _ hpasses)]
          cases hg : t.get? (name :: dir) with
          | none => exact .failed .notFound
          | some entry =>
            cases entry with
            | directory => exact .failed .isDirectory
            | link target => exact absurd hg (h.left.no_link _ _)
            | file content =>
              cases slash with
              | true => exact .failed .notDirectory
              | false => exact .done (h.erase (hc _ hpasses) (by rw [hg]; simp))

/-- The same file is renamed in the same way. -/
theorem rename_agrees {old new : Path} {p : Place} {content : ByteArray} (h : Alike places t u)
    (hc : Covers places t old) (hc' : Covers places t new) (hold : Leads t old p)
    (hp : t.get? p = some (.file content)) :
    Agrees places t u (rename t old new) (rename u old new) := by
  have hold' : Leads u old p := hold.transfer h.same
  have hp' : u.get? p = some (.file content) := h.agree p (hc p hold.passes) ▸ hp
  by_cases hnew : ∃ q, Leads t new q
  · obtain ⟨q, hq⟩ := hnew
    have hq' : Leads u new q := hq.transfer h.same
    rw [rename_eq h.left hold hp hq, rename_eq h.right hold' hp' hq',
      ← h.agree q (hc' q hq.passes)]
    split
    · exact .failed .directoryNotEmpty
    · split
      · exact .done (.refl h)
      · rename_i hne
        split
        · exact .failed .isDirectory
        · rename_i hnot
          have hplace := hc' q hq.passes
          obtain ⟨name, dir, rfl, hdir⟩ := hq.exists_cons
          exact .done (h.move hplace (hc p hold.passes) hp hne hdir hnot)
  · -- The new path names no entry, and why is found out before the tree is looked at again.
    obtain ⟨oldName, oldDir, rfl, hlong, hdirectory⟩ := hold.directoryOf h.left
    have hdirectory' := h.directoryOf_eq hc ▸ hdirectory
    unfold rename
    rw [hdirectory, hdirectory', ← h.directoryOf_eq hc', hold.nul]
    cases hnul : nulFree new with
    | error fault => exact .failed fault
    | ok _ =>
      cases hd : directoryOf t new with
      | error fault => exact .failed fault
      | ok found =>
        obtain ⟨newDir, last⟩ := found
        cases last with
        | special => exact .failed .busy
        | plain newName slash =>
          simp only [bind, Except.bind, hlong, Bool.false_eq_true, if_false, hp, hp']
          by_cases hnewLong : isTooLong newName = true
          · rw [if_pos hnewLong, if_pos hnewLong]
            exact .failed .nameTooLong
          · cases slash with
            | true => simpa [hnewLong] using Agrees.failed Fault.notDirectory
            | false =>
              exact absurd ⟨_, leads_of_directoryOf h.left hnul (by simpa using hnewLong) hd⟩ hnew

end

end Files
end SourceSplit
