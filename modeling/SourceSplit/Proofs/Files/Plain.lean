import SourceSplit.Files.Tree

/-!
# SourceSplit.Proofs.Files.Plain

Trees as they stand on a disk: what holds an entry is a directory. A plain tree has no symbolic
links besides. Putting, erasing and moving a file keeps a tree plain and keeps its directories.

* `get?_move`: a file that is moved is found in the new place, and nothing else changes.
* `SameDirectories`: two trees that differ in files only.
-/

namespace SourceSplit
namespace Files
namespace Tree

/-- Every entry stands in a directory, and the working directory is one. -/
structure Sound (tree : Tree) : Prop where
  parent : ∀ {name : String} {dir : Place} {entry : Entry},
    tree.get? (name :: dir) = some entry → tree.get? dir = some .directory
  home : tree.get? tree.home = some .directory

structure Plain (tree : Tree) : Prop extends Sound tree where
  no_link : ∀ (place : Place) (target : String), tree.get? place ≠ some (.link target)

structure SameDirectories (t u : Tree) : Prop where
  home : t.home = u.home
  directory : ∀ place, t.get? place = some .directory ↔ u.get? place = some .directory

namespace SameDirectories

variable {t u v : Tree}

theorem refl : SameDirectories t t := ⟨rfl, fun _ => .rfl⟩

theorem symm (h : SameDirectories t u) : SameDirectories u t :=
  ⟨h.home.symm, fun place => (h.directory place).symm⟩

theorem trans (h : SameDirectories t u) (h' : SameDirectories u v) : SameDirectories t v :=
  ⟨h.home.trans h'.home, fun place => (h.directory place).trans (h'.directory place)⟩

end SameDirectories

theorem Same.refl {t : Tree} : Same t t := ⟨rfl, fun _ => rfl⟩

theorem mem_andAbove {home place : Place} : place ∈ home.andAbove ↔ place ≠ [] ∧ place <:+ home := by
  induction home with
  | nil =>
    simp only [Place.andAbove, List.not_mem_nil, List.suffix_nil, false_iff]
    rintro ⟨hne, rfl⟩
    exact hne rfl
  | cons name dir ih =>
    simp only [Place.andAbove, List.mem_cons, ih, List.suffix_cons_iff]
    constructor
    · rintro (rfl | ⟨hne, hs⟩)
      · exact ⟨by simp, .inl rfl⟩
      · exact ⟨hne, .inr hs⟩
    · rintro ⟨hne, rfl | hs⟩
      · exact .inl rfl
      · exact .inr ⟨hne, hs⟩

theorem get?_bare {home place : Place} :
    (bare home).get? place = if place <:+ home then some .directory else none := by
  cases place with
  | nil => simp
  | cons name dir =>
    simp only [get?, bare]
    split
    · rename_i h
      have hmem := mem_andAbove.2 ⟨List.cons_ne_nil name dir, h⟩
      cases hl : List.lookup (name :: dir) (home.andAbove.map fun p => (p, Entry.directory)) with
      | none =>
        rw [List.lookup_eq_none_iff] at hl
        simpa using hl _ (List.mem_map_of_mem hmem)
      | some entry =>
        obtain ⟨before, after, he, _⟩ := List.lookup_eq_some_iff.1 hl
        have : (name :: dir, entry) ∈ home.andAbove.map fun p => (p, Entry.directory) := by
          simp [he]
        obtain ⟨place, _, hp⟩ := List.mem_map.1 this
        rw [← (Prod.mk.inj hp).2]
    · rename_i h
      rw [List.lookup_eq_none_iff]
      intro e he
      obtain ⟨place, hplace, rfl⟩ := List.mem_map.1 he
      rw [bne_iff_ne]
      rintro rfl
      exact h (mem_andAbove.1 hplace).2

/-- Nothing but the working directory and what holds it. -/
theorem plain_bare (home : Place) : (bare home).Plain where
  parent := by
    intro name dir entry h
    rw [get?_bare] at h ⊢
    split at h
    · rename_i hs
      rw [if_pos ((List.suffix_cons name dir).trans hs)]
    · cases h
  home := get?_bare_home home
  no_link := by
    intro place target h
    rw [get?_bare] at h
    split at h <;> cases h

/-! ## A tree from its entries -/

/-- The tree with the entries, with the root for a working directory. -/
def ofEntries (entries : List (Place × Entry)) : Tree :=
  ⟨entries, []⟩

section OfEntries

variable {entries : List (Place × Entry)} {name : String} {dir place : Place} {entry : Entry}

@[simp] theorem get?_ofEntries_nil :
    (ofEntries []).get? place = if place = [] then some .directory else none := by
  cases place <;> rfl

@[simp] theorem get?_ofEntries_cons :
    (ofEntries ((name :: dir, entry) :: entries)).get? place =
      if place = name :: dir then some entry else (ofEntries entries).get? place := by
  cases place with
  | nil => rfl
  | cons n d =>
    by_cases h : n :: d = name :: dir
    · simp [ofEntries, get?, h]
    · simp only [ofEntries, get?, List.lookup_cons, beq_eq_false_iff_ne.2 h, if_neg h]

theorem mem_of_get?_ofEntries (h : (ofEntries entries).get? (name :: dir) = some entry) :
    (name :: dir, entry) ∈ entries := by
  obtain ⟨before, after, rfl, _⟩ := List.lookup_eq_some_iff.1 h
  exact List.mem_append_right _ (.head _)

/-- Entries without a link, each of them in a directory, make a plain tree. -/
theorem plain_ofEntries (h : ∀ e ∈ entries, (ofEntries entries).get? e.1.tail = some .directory ∧
    ∀ target, e.2 ≠ .link target) : (ofEntries entries).Plain where
  parent := fun he => (h _ (mem_of_get?_ofEntries he)).1
  home := rfl
  no_link := by
    intro place target hl
    cases place with
    | nil => cases hl
    | cons name dir => exact (h _ (mem_of_get?_ofEntries hl)).2 target rfl

end OfEntries

theorem Sound.above {tree : Tree} (h : tree.Sound) {below place : Place} {entry : Entry}
    (hne : below ≠ []) (he : tree.get? (below ++ place) = some entry) :
    tree.get? place = some .directory := by
  induction below generalizing entry with
  | nil => contradiction
  | cons name below ih =>
    have hd := h.parent he
    cases below with
    | nil => exact hd
    | cons n below => exact ih (by simp) hd

theorem Sound.tail {tree : Tree} (h : tree.Sound) {place : Place}
    (hd : tree.get? place = some .directory) : tree.get? place.tail = some .directory := by
  cases place with
  | nil => rfl
  | cons name dir => exact h.parent hd

/-! ## Putting and erasing a file -/

theorem get?_put {tree : Tree} {name : String} {dir q : Place} {entry : Entry} :
    (tree.put (name :: dir) entry).get? q =
      if q = name :: dir then some entry else tree.get? q := by
  split
  · rename_i h
    rw [h, get?_put_self]
  · rename_i h
    exact get?_put_of_ne h

theorem get?_erase {tree : Tree} {name : String} {dir q : Place} :
    (tree.erase (name :: dir)).get? q = if q = name :: dir then none else tree.get? q := by
  split
  · rename_i h
    rw [h, get?_erase_self]
  · rename_i h
    exact get?_erase_of_ne h

section OneFile

variable {tree : Tree} {name : String} {dir : Place} {content : ByteArray}

theorem sameDirectories_put (h : tree.get? (name :: dir) ≠ some .directory) :
    SameDirectories tree (tree.put (name :: dir) (.file content)) where
  home := rfl
  directory := by
    intro place
    rw [get?_put]
    split <;> simp_all

theorem sameDirectories_erase (h : tree.get? (name :: dir) ≠ some .directory) :
    SameDirectories tree (tree.erase (name :: dir)) where
  home := rfl
  directory := by
    intro place
    rw [get?_erase]
    split <;> simp_all

end OneFile

theorem Plain.put {tree : Tree} {name : String} {dir : Place} {entry : Entry} (h : tree.Plain)
    (hdir : tree.get? dir = some .directory) (hnot : tree.get? (name :: dir) ≠ some .directory)
    (hentry : ∀ target, entry ≠ .link target) : (tree.put (name :: dir) entry).Plain where
  parent := by
    intro n d e he
    have hd : tree.get? d = some .directory := by
      rw [get?_put] at he
      split at he
      · rename_i hn
        rw [(List.cons.inj hn).2]
        exact hdir
      · exact h.parent he
    rw [get?_put_of_ne]
    · exact hd
    · rintro rfl
      exact hnot hd
  home := by
    rw [home_put, get?_put_of_ne]
    · exact h.home
    · intro hh
      exact hnot (hh ▸ h.home)
  no_link := by
    intro place target hl
    rw [get?_put] at hl
    split at hl
    · exact hentry target (Option.some.inj hl)
    · exact h.no_link place target hl

theorem Plain.erase {tree : Tree} {name : String} {dir : Place} (h : tree.Plain)
    (hnot : tree.get? (name :: dir) ≠ some .directory) : (tree.erase (name :: dir)).Plain where
  parent := by
    intro n d e he
    have hd : tree.get? d = some .directory := by
      rw [get?_erase] at he
      split at he
      · cases he
      · exact h.parent he
    rw [get?_erase_of_ne]
    · exact hd
    · rintro rfl
      exact hnot hd
  home := by
    rw [home_erase, get?_erase_of_ne]
    · exact h.home
    · intro hh
      exact hnot (hh ▸ h.home)
  no_link := by
    intro place target hl
    rw [get?_erase] at hl
    split at hl
    · cases hl
    · exact h.no_link place target hl

/-! ## Moving a file -/

theorem lookup_cons_eq (entries : List (Place × Entry)) (key x : Place) (entry : Entry) :
    ((key, entry) :: entries).lookup x = if x = key then some entry else entries.lookup x := by
  rw [List.lookup_cons]
  by_cases h : x = key
  · simp [h]
  · simp [beq_eq_false_iff_ne.2 h, h]

theorem lookup_map_key {entries : List (Place × Entry)} {p q : Place}
    (hq : ∀ e ∈ entries, e.1 ≠ q) (x : Place) :
    (entries.map fun e => (if e.1 = p then q else e.1, e.2)).lookup x =
      if x = q then entries.lookup p else if x = p then none else entries.lookup x := by
  induction entries with
  | nil => simp
  | cons e entries ih =>
    obtain ⟨key, entry⟩ := e
    have hkey : key ≠ q := hq (key, entry) (by simp)
    rw [List.map_cons, lookup_cons_eq, ih fun e he => hq e (List.mem_cons_of_mem _ he),
      lookup_cons_eq, lookup_cons_eq]
    grind

theorem mem_entries_isSome {tree : Tree} {e : Place × Entry} (h : e ∈ tree.entries) :
    (tree.get? e.1).isSome = true := by
  obtain ⟨place, entry⟩ := e
  cases place with
  | nil => rfl
  | cons name dir =>
    rw [get?, List.lookup_isSome_iff]
    exact ⟨_, h, by simp⟩

/-- There is nothing below a file. -/
theorem Sound.eq_of_suffix_file {tree : Tree} (h : tree.Sound) {p place : Place}
    {content : ByteArray} {entry : Entry} (hp : tree.get? p = some (.file content))
    (he : tree.get? place = some entry) (hs : p <:+ place) : place = p := by
  obtain ⟨below, rfl⟩ := hs
  cases below with
  | nil => rfl
  | cons name below =>
    have := h.above (List.cons_ne_nil name below) he
    rw [hp] at this
    cases this

theorem moved_eq {p q place : Place} (h : p <:+ place → place = p) :
    Place.moved p q place = if place = p then q else place := by
  unfold Place.moved
  by_cases hp : place = p
  · simp [hp]
  · rw [if_neg, if_neg hp]
    rw [List.isSuffixOf_iff_suffix]
    exact fun hs => hp (h hs)

section Move

variable {tree : Tree} {p : Place} {name : String} {dir : Place} {content : ByteArray}

theorem get?_move (h : tree.Sound) (hp : tree.get? p = some (.file content))
    (hne : p ≠ name :: dir) (x : Place) :
    (tree.move p (name :: dir)).get? x =
      if x = name :: dir then some (.file content) else if x = p then none else tree.get? x := by
  have hmap : (tree.move p (name :: dir)).entries =
      (tree.erase (name :: dir)).entries.map fun e =>
        (if e.1 = p then name :: dir else e.1, e.2) := by
    simp only [move]
    refine List.map_congr_left fun e he => ?_
    rw [moved_eq]
    intro hs
    have hmem : e ∈ tree.entries := by
      simp only [erase, List.mem_filter] at he
      exact he.1
    obtain ⟨entry, hentry⟩ := Option.isSome_iff_exists.1 (mem_entries_isSome hmem)
    exact h.eq_of_suffix_file hp hentry hs
  have hkeys : ∀ e ∈ (tree.erase (name :: dir)).entries, e.1 ≠ name :: dir := by
    intro e he
    simp only [erase, List.mem_filter, ne_eq, decide_not, Bool.not_eq_true',
      decide_eq_false_iff_not] at he
    exact he.2
  have hlookup : ∀ y : Place, y ≠ [] → y ≠ name :: dir →
      (tree.erase (name :: dir)).entries.lookup y = tree.get? y := by
    intro y hy hyq
    cases y with
    | nil => contradiction
    | cons n d => exact get?_erase_of_ne hyq
  have hpne : p ≠ [] := by
    rintro rfl
    cases hp
  cases x with
  | nil => simp [Ne.symm hpne]
  | cons n d =>
    rw [get?, hmap, lookup_map_key hkeys]
    by_cases hq : n :: d = name :: dir
    · rw [if_pos hq, if_pos hq, hlookup p hpne hne, hp]
    · rw [if_neg hq, if_neg hq, hlookup _ (by simp) hq]

theorem home_move (h : tree.Sound) (hp : tree.get? p = some (.file content)) (q : Place) :
    (tree.move p q).home = tree.home := by
  have hhome : tree.home ≠ p := by
    intro hh
    have := h.home
    rw [hh, hp] at this
    cases this
  rw [move, moved_eq (h.eq_of_suffix_file hp h.home), if_neg hhome]

theorem sameDirectories_move (h : tree.Sound) (hp : tree.get? p = some (.file content))
    (hne : p ≠ name :: dir) (hnot : tree.get? (name :: dir) ≠ some .directory) :
    SameDirectories tree (tree.move p (name :: dir)) where
  home := (home_move h hp _).symm
  directory := by
    intro place
    rw [get?_move h hp hne]
    split
    · simp_all
    · split <;> simp_all

theorem Plain.move (h : tree.Plain) (hp : tree.get? p = some (.file content))
    (hne : p ≠ name :: dir) (hdir : tree.get? dir = some .directory)
    (hnot : tree.get? (name :: dir) ≠ some .directory) : (tree.move p (name :: dir)).Plain where
  parent := by
    intro n d e he
    rw [← (sameDirectories_move h.toSound hp hne hnot).directory]
    rw [get?_move h.toSound hp hne] at he
    split at he
    · rename_i hn
      rw [(List.cons.inj hn).2]
      exact hdir
    · split at he
      · cases he
      · exact h.parent he
  home := by
    rw [home_move h.toSound hp, ← (sameDirectories_move h.toSound hp hne hnot).directory]
    exact h.home
  no_link := by
    intro place target hl
    rw [get?_move h.toSound hp hne] at hl
    split at hl
    · cases hl
    · split at hl
      · cases hl
      · exact h.no_link place target hl

end Move

end Tree
end Files
end SourceSplit
