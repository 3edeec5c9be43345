import SourceSplit.Proofs.Files.Leads

/-!
# SourceSplit.Proofs.Files.Change

What the changes of a plain tree come to, said with places: a write fills the place that its path
names, a removal empties it, and a file is renamed by moving it to the place that the new path
names, with nothing else touched (`Moved`).

* `write_eq_ok_iff`, `remove_eq`, `rename_eq`: the three changes.
* `rename_eq_ok`: what is known of a rename that went through.
-/

namespace SourceSplit
namespace Files

variable {tree : Tree} {path : Path} {place : Place}

theorem write_eq (h : tree.Plain) (hl : Leads tree path place)
    (hp : tree.get? place ≠ some .directory) (content : ByteArray) :
    write tree path content = .ok (tree.put place (.file content)) := by
  simp only [write, hl.locate h, bind, Except.bind, spotAt]
  cases hg : tree.get? place with
  | none => rfl
  | some entry =>
    cases entry with
    | file _ => rfl
    | directory => exact absurd hg hp
    | link target => exact absurd hg (h.no_link _ _)

theorem write_eq_ok_iff (h : tree.Plain) {content : ByteArray} {after : Tree} :
    write tree path content = .ok after ↔
      ∃ place, Leads tree path place ∧ tree.get? place ≠ some .directory ∧
        after = tree.put place (.file content) := by
  constructor
  · intro hw
    have hwrite := hw
    unfold write at hw
    obtain ⟨spot, hs, hw⟩ := exists_of_bind_eq_ok hw
    have hspot : ∀ dir, spot ≠ .directory dir := by
      rintro dir rfl
      cases hw
    obtain ⟨p, hl, hp⟩ := leads_of_locate h hspot hs
    have hnot : tree.get? p ≠ some .directory := by
      intro hd
      rw [spotAt, hd] at hp
      exact hspot p hp
    rw [write_eq h hl hnot] at hwrite
    exact ⟨p, hl, hnot, (Except.ok.inj hwrite).symm⟩
  · rintro ⟨p, hl, hp, rfl⟩
    exact write_eq h hl hp content

/-! ## Operations on the last name of a path -/

theorem splitLast_concat {before : List String} {name : String} (ho : Ordinary name) :
    splitLast (before ++ [name]) = (before, .plain name false) := by
  have hdrop : (before ++ [name]).reverse.dropWhile (· = "") = name :: before.reverse := by
    simp [ho.ne_empty]
  unfold splitLast
  rw [hdrop]
  simp [ho.ne_empty, ho.ne_here, ho.ne_up]

theorem eq_concat_of_splitLast {names before : List String} {name : String}
    (h : splitLast names = (before, .plain name false)) :
    names = before ++ [name] ∧ Ordinary name := by
  rcases names.eq_nil_or_concat with rfl | ⟨front, last, rfl⟩
  · simp [splitLast] at h
  · rw [List.concat_eq_append] at h ⊢
    by_cases hlast : last = ""
    · unfold splitLast at h
      split at h
      · simp at h
      · split at h
        · simp at h
        · simp [hlast] at h
    · have hdrop : (front ++ [last]).reverse.dropWhile (· = "") = last :: front.reverse := by
        simp [hlast]
      unfold splitLast at h
      rw [hdrop] at h
      simp only at h
      split at h
      · simp at h
      · rename_i hspecial
        simp only [List.reverse_reverse, Prod.mk.injEq, LastName.plain.injEq] at h
        obtain ⟨rfl, rfl, _⟩ := h
        exact ⟨rfl, hlast, fun e => hspecial (.inl e), fun e => hspecial (.inr e)⟩

theorem Leads.directoryOf (h : tree.Plain) (hl : Leads tree path place) :
    ∃ name dir, place = name :: dir ∧ isTooLong name = false ∧
      directoryOf tree path = .ok (dir, .plain name false) := by
  obtain ⟨before, name, dir, hn, ho, hlen, he, rfl⟩ := hl.names
  refine ⟨name, dir, rfl, hlen, ?_⟩
  have hf : follow tree false maxLinks _ before = _ := (follow_eq_directory_iff h).2 he
  simp only [Files.directoryOf, hl.fits, hn, splitLast_concat ho, hf, bind, Except.bind]

theorem leads_of_directoryOf (h : tree.Plain) {name : String} {dir : Place}
    (hnul : nulFree path = .ok ()) (hlen : isTooLong name = false)
    (hd : Files.directoryOf tree path = .ok (dir, .plain name false)) :
    Leads tree path (name :: dir) := by
  unfold Files.directoryOf at hd
  obtain ⟨⟨⟩, hfits, hd⟩ := exists_of_bind_eq_ok hd
  simp only at hd
  split at hd
  · rename_i p hf
    simp only [Except.ok.injEq, Prod.mk.injEq] at hd
    obtain ⟨rfl, hlast⟩ := hd
    obtain ⟨hn, ho⟩ := eq_concat_of_splitLast (Prod.ext rfl hlast)
    exact ⟨hnul, hfits, _, name, p, hn, ho, hlen, (follow_eq_directory_iff h).1 hf, rfl⟩
  all_goals cases hd

theorem remove_eq (h : tree.Plain) (hl : Leads tree path place) :
    remove tree path =
      match tree.get? place with
      | none => .error .notFound
      | some .directory => .error .isDirectory
      | some _ => .ok (tree.erase place) := by
  obtain ⟨name, dir, rfl, hlen, hd⟩ := hl.directoryOf h
  simp only [remove, hl.nul, hd, bind, Except.bind, hlen]
  cases hg : tree.get? (name :: dir) with
  | none => simp
  | some entry => cases entry <;> simp

/-! ## Renaming a file -/

theorem leads_of_rename (h : tree.Plain) {old new : Path} {after : Tree}
    (hr : rename tree old new = .ok after) (hfile : ∀ dir name slash,
      directoryOf tree old = .ok (dir, .plain name slash) →
        tree.get? (name :: dir) ≠ some .directory) : ∃ q, Leads tree new q := by
  unfold rename at hr
  obtain ⟨⟨⟩, _, hr⟩ := exists_of_bind_eq_ok hr
  obtain ⟨⟨⟩, hnul, hr⟩ := exists_of_bind_eq_ok hr
  obtain ⟨⟨oldDir, oldLast⟩, hold, hr⟩ := exists_of_bind_eq_ok hr
  obtain ⟨⟨newDir, newLast⟩, hnew, hr⟩ := exists_of_bind_eq_ok hr
  cases oldLast with
  | special => cases hr
  | plain oldName oldSlash =>
    cases newLast with
    | special => cases hr
    | plain newName newSlash =>
      simp only at hr
      split at hr
      · cases hr
      · split at hr
        · cases hr
        · rename_i entry hentry
          have hne : entry ≠ .directory := by
            rintro rfl
            exact hfile _ _ _ hold hentry
          split at hr
          · cases hr
          · rename_i hlong
            rw [Bool.not_eq_true] at hlong
            cases newSlash with
            | true => simp [hne] at hr
            | false => exact ⟨_, leads_of_directoryOf h hnul hlong hnew⟩

section Rename

variable {old new : Path} {p q : Place} {content : ByteArray} {after : Tree}

/-- Renaming a file moves it, unless the new path names a directory. -/
theorem rename_eq (h : tree.Plain) (hold : Leads tree old p)
    (hp : tree.get? p = some (.file content)) (hnew : Leads tree new q) :
    rename tree old new =
      if q.isSuffixOf p.tail then .error .directoryNotEmpty
      else if p = q then .ok tree
      else if tree.get? q = some .directory then .error .isDirectory
      else .ok (tree.move p q) := by
  obtain ⟨oldName, oldDir, rfl, hold1, hold2⟩ := hold.directoryOf h
  obtain ⟨newName, newDir, rfl, hnew1, hnew2⟩ := hnew.directoryOf h
  obtain ⟨_, _, hcons, hdir⟩ := hnew.exists_cons
  rw [← (List.cons.inj hcons).2] at hdir
  have hinto : ¬ (oldName :: oldDir).isSuffixOf newDir = true := by
    rw [List.isSuffixOf_iff_suffix]
    intro hs
    have heq := h.eq_of_suffix_file hp hdir hs
    rw [heq, hp] at hdir
    cases hdir
  have hmay : mayReplace tree (.file content) (newName :: newDir) =
      if tree.get? (newName :: newDir) = some .directory then .error .isDirectory else .ok () := by
    unfold mayReplace
    cases hg : tree.get? (newName :: newDir) with
    | none => rfl
    | some entry => cases entry <;> simp
  simp only [rename, hold.nul, hnew.nul, hold2, hnew2, bind, Except.bind, hold1, hnew1, hp, hinto,
    hmay, Bool.false_eq_true, if_false, or_self, and_false, List.tail_cons]
  by_cases habove : (newName :: newDir).isSuffixOf oldDir = true
  · simp only [habove, if_true]
  · by_cases hsame : oldName :: oldDir = newName :: newDir
    · simp only [habove, hsame, if_true]
    · by_cases hd : tree.get? (newName :: newDir) = some .directory
      · simp only [habove, hsame, hd, if_true, if_false]
      · simp only [habove, hsame, hd, if_false]

/-- The outcome of moving the file in `p` to `q`, which may be `p` itself. -/
structure Moved (tree : Tree) (p q : Place) (after : Tree) : Prop where
  home : after.home = tree.home
  get? : ∀ x, after.get? x = if x = q then tree.get? p else if x = p then none else tree.get? x
  same : tree.SameDirectories after
  plain : after.Plain

theorem moved_move (h : tree.Plain) {name : String} {dir : Place}
    (hp : tree.get? p = some (.file content)) (hne : p ≠ name :: dir)
    (hdir : tree.get? dir = some .directory) (hnot : tree.get? (name :: dir) ≠ some .directory) :
    Moved tree p (name :: dir) (tree.move p (name :: dir)) where
  home := Tree.home_move h.toSound hp _
  get? := by
    intro x
    rw [Tree.get?_move h.toSound hp hne, hp]
  same := Tree.sameDirectories_move h.toSound hp hne hnot
  plain := h.move hp hne hdir hnot

theorem moved_self (h : tree.Plain) (p : Place) : Moved tree p p tree where
  home := rfl
  get? := by
    intro x
    split
    · rename_i hx
      rw [hx]
    · rfl
  same := .refl
  plain := h

theorem rename_eq_ok (h : tree.Plain) (hold : Leads tree old p)
    (hp : tree.get? p = some (.file content)) (hr : rename tree old new = .ok after) :
    ∃ q, Leads tree new q ∧ tree.get? q ≠ some .directory ∧ Moved tree p q after := by
  obtain ⟨oldName, oldDir, rfl, _, hdirectory⟩ := hold.directoryOf h
  have hfile : ∀ dir name slash, directoryOf tree old = .ok (dir, .plain name slash) →
      tree.get? (name :: dir) ≠ some .directory := by
    intro dir name slash hd
    rw [hdirectory] at hd
    cases hd
    rw [hp]
    simp
  obtain ⟨q, hnew⟩ := leads_of_rename h hr hfile
  rw [rename_eq h hold hp hnew] at hr
  split at hr
  · cases hr
  · split at hr
    · rename_i hsame
      cases hr
      refine ⟨q, hnew, ?_, hsame ▸ moved_self h _⟩
      rw [← hsame, hp]
      simp
    · rename_i hne
      split at hr
      · cases hr
      · rename_i hnot
        cases hr
        obtain ⟨name, dir, rfl, hdir⟩ := hnew.exists_cons
        exact ⟨_, hnew, hnot, moved_move h hp hne hdir hnot⟩

/-- A file can be given any name that is not one of a directory. -/
theorem exists_rename_eq_ok (h : tree.Plain) (hold : Leads tree old p)
    (hp : tree.get? p = some (.file content)) (hnew : Leads tree new q)
    (hq : tree.get? q ≠ some .directory) : ∃ after, rename tree old new = .ok after := by
  have habove : ¬ q.isSuffixOf p.tail = true := by
    rw [List.isSuffixOf_iff_suffix]
    rintro ⟨below, hs⟩
    apply hq
    obtain ⟨name, dir, rfl, hdir⟩ := hold.exists_cons
    rw [List.tail_cons] at hs
    rw [← hs] at hdir
    cases below with
    | nil => exact hdir
    | cons name below => exact h.above (List.cons_ne_nil name below) hdir
  rw [rename_eq h hold hp hnew, if_neg habove, if_neg hq]
  split <;> exact ⟨_, rfl⟩

end Rename

end Files
end SourceSplit
