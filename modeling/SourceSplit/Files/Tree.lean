/-!
# SourceSplit.Files.Tree

A file tree: a finite map from places to entries, in which the root is always a directory. One of
its places is the working directory, where relative paths start.

Of what a disk has besides, the tree leaves out: hard links (an entry stands in one place), owners,
permissions and times, mount points, and names that are not UTF-8.

A tree is known by what `get?` finds in each place: the laws here say what it finds after `put` and
`erase`, and `mem_names` that a directory lists exactly the names under which there is an entry.
`get?_bare_home`: a tree made for a working directory has that directory.
-/

namespace SourceSplit
namespace Files

inductive Entry where
  | file (content : ByteArray)
  | directory
  | link (target : String)

instance : DecidableEq Entry
  | .file a, .file b =>
    match ByteArray.instDecidableEq a b with
    | .isTrue h => .isTrue (congrArg Entry.file h)
    | .isFalse h => .isFalse fun he => h (Entry.file.inj he)
  | .directory, .directory => .isTrue rfl
  | .link s, .link t =>
    match decEq s t with
    | .isTrue h => .isTrue (congrArg Entry.link h)
    | .isFalse h => .isFalse fun he => h (Entry.link.inj he)
  | .file _, .directory => .isFalse nofun
  | .file _, .link _ => .isFalse nofun
  | .directory, .file _ => .isFalse nofun
  | .directory, .link _ => .isFalse nofun
  | .link _, .file _ => .isFalse nofun
  | .link _, .directory => .isFalse nofun

/-- Where an entry stands: the names on the way from it up to the root. -/
abbrev Place := List String

/-- A place below the root and all that are above it. -/
def Place.andAbove : Place → List Place
  | [] => []
  | name :: dir => (name :: dir) :: andAbove dir

/-- Where `place` is once `p`, and all below it, has become `q`. -/
def Place.moved (p q place : Place) : Place :=
  if p.isSuffixOf place then place.take (place.length - p.length) ++ q else place

/-- `home` is the working directory. -/
structure Tree where
  entries : List (Place × Entry)
  home : Place

namespace Tree

/-- Nothing but a working directory and what holds it. -/
def bare (home : Place) : Tree :=
  ⟨home.andAbove.map fun place => (place, .directory), home⟩

def get? (tree : Tree) : Place → Option Entry
  | [] => some .directory
  | name :: dir => tree.entries.lookup (name :: dir)

def erase (tree : Tree) (place : Place) : Tree :=
  ⟨tree.entries.filter fun e => e.1 ≠ place, tree.home⟩

def put (tree : Tree) (place : Place) (entry : Entry) : Tree :=
  ⟨(place, entry) :: (tree.erase place).entries, tree.home⟩

@[simp] theorem get?_root (tree : Tree) : tree.get? [] = some .directory := rfl

theorem get?_bare_home (home : Place) : (bare home).get? home = some .directory := by
  cases home with
  | nil => rfl
  | cons name dir => simp [bare, get?, Place.andAbove]

@[simp] theorem home_erase (tree : Tree) (place : Place) :
    (tree.erase place).home = tree.home := rfl

@[simp] theorem home_put (tree : Tree) (place : Place) (entry : Entry) :
    (tree.put place entry).home = tree.home := rfl

theorem lookup_filter_ne {entries : List (Place × Entry)} {p q : Place} (h : q ≠ p) :
    (entries.filter fun e => e.1 ≠ p).lookup q = entries.lookup q := by
  simp only [ne_eq, decide_not]
  induction entries with
  | nil => rfl
  | cons e entries ih =>
    obtain ⟨r, v⟩ := e
    by_cases hp : r = p
    · have hq : (q == p) = false := by simp [h]
      simp [hp, ih, List.lookup_cons, hq]
    · simp [hp, List.lookup_cons, ih]

theorem lookup_filter_self {entries : List (Place × Entry)} {p : Place} :
    (entries.filter fun e => e.1 ≠ p).lookup p = none := by
  rw [List.lookup_eq_none_iff]
  intro e he
  simp only [ne_eq, decide_not, List.mem_filter, Bool.not_eq_eq_eq_not, Bool.not_true,
    decide_eq_false_iff_not] at he
  simp [Ne.symm he.2]

theorem get?_erase_self {tree : Tree} {name : String} {dir : Place} :
    (tree.erase (name :: dir)).get? (name :: dir) = none :=
  lookup_filter_self

theorem get?_erase_of_ne {tree : Tree} {p q : Place} (h : q ≠ p) :
    (tree.erase p).get? q = tree.get? q := by
  cases q with
  | nil => rfl
  | cons name dir => exact lookup_filter_ne h

theorem get?_put_self {tree : Tree} {name : String} {dir : Place} {entry : Entry} :
    (tree.put (name :: dir) entry).get? (name :: dir) = some entry := by
  simp [get?, put]

theorem get?_put_of_ne {tree : Tree} {p q : Place} {entry : Entry} (h : q ≠ p) :
    (tree.put p entry).get? q = tree.get? q := by
  cases q with
  | nil => rfl
  | cons name dir =>
    have : (name :: dir == p) = false := by simp [h]
    simp only [get?, put, List.lookup_cons, this]
    exact lookup_filter_ne h

/-- Names in a directory, in byte order. Comparing code points compares the UTF-8 forms. -/
def names (tree : Tree) (dir : Place) : List String :=
  let found := tree.entries.filterMap fun e =>
    match e.1 with
    | name :: above => if above = dir then some name else none
    | [] => none
  found.eraseDups.mergeSort fun a b => a ≤ b

theorem mem_names {tree : Tree} {dir : Place} {name : String} :
    name ∈ tree.names dir ↔ (tree.get? (name :: dir)).isSome = true := by
  simp only [names, List.mem_mergeSort, List.mem_eraseDups, List.mem_filterMap, get?,
    List.lookup_isSome_iff, beq_iff_eq]
  constructor
  · rintro ⟨⟨place, entry⟩, he, hname⟩
    refine ⟨(place, entry), he, ?_⟩
    split at hname
    · rename_i n above h
      split at hname
      · rename_i habove
        simp_all
      · cases hname
    · cases hname
  · rintro ⟨⟨place, entry⟩, he, rfl⟩
    exact ⟨(name :: dir, entry), he, by simp⟩

/-- The tree with the entry at `p`, and all below it, moved to `q`. -/
def move (tree : Tree) (p q : Place) : Tree :=
  ⟨(tree.erase q).entries.map fun e => (Place.moved p q e.1, e.2), Place.moved p q tree.home⟩

/-- Two trees with the same working directory and the same entry in every place. -/
def Same (t u : Tree) : Prop :=
  t.home = u.home ∧ ∀ place, t.get? place = u.get? place

end Tree
end Files
end SourceSplit
