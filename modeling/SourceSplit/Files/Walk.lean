import SourceSplit.Files.Lookup

/-!
# SourceSplit.Files.Walk

A walk through all files below a directory, links followed: siblings in the order of their names,
a directory before what comes after it, every file with the path it was reached by. A link to a
directory that the walk is inside of is reported and not followed. A directory is listed by way of
its path, so one whose path has grown too long is reported; a file is named whatever its path.

The walk ends because each link that is followed leads to a directory it is not yet inside of, and
between two links it only goes deeper into the tree (`unentered_cons_lt`, `length_le_depthBound`).
-/

namespace SourceSplit
namespace Files

inductive WalkFault where
  | loop (link ancestor : Path)
  | io (path : Path) (fault : Fault)
  deriving DecidableEq, Repr

def WalkFault.message : WalkFault → String
  | .loop link ancestor =>
    "File system loop found: " ++ link.text ++ " points to an ancestor " ++ ancestor.text
  | .io path fault => "IO error for operation on " ++ path.text ++ ": " ++ fault.message

inductive Visit where
  | file (path : Path)
  | problem (fault : WalkFault)
  deriving DecidableEq, Repr

/-- A directory that the walk is inside of. -/
structure Level where
  path : Path
  place : Place

namespace Tree

def directories (tree : Tree) : List Place :=
  [] :: (tree.entries.filter fun e => e.2 = .directory).map Prod.fst

theorem mem_directories {tree : Tree} {place : Place} (h : tree.get? place = some .directory) :
    place ∈ tree.directories := by
  cases place with
  | nil => simp [directories]
  | cons name dir =>
    simp only [get?, List.lookup_eq_some_iff] at h
    obtain ⟨before, after, he, _⟩ := h
    simp [directories, he]

/-- At least the length of every place. -/
def depthBound (tree : Tree) : Nat :=
  (tree.entries.flatMap Prod.fst).length

theorem length_le_depthBound {tree : Tree} {place : Place} {entry : Entry}
    (h : tree.get? place = some entry) : place.length ≤ tree.depthBound := by
  cases place with
  | nil => simp
  | cons name dir =>
    simp only [get?, List.lookup_eq_some_iff] at h
    obtain ⟨before, after, he, _⟩ := h
    simp only [depthBound, he, List.flatMap_append, List.flatMap_cons, List.length_append]
    omega

end Tree

/-- How many directories the walk is not inside of. -/
def unentered (tree : Tree) (above : List Level) : Nat :=
  (tree.directories.filter fun p => !above.any (·.place = p)).length

theorem length_filter_le {p q : Place → Bool} {l : List Place} (h : ∀ x, p x = true → q x = true) :
    (l.filter p).length ≤ (l.filter q).length := by
  rw [← List.countP_eq_length_filter, ← List.countP_eq_length_filter]
  exact List.countP_mono_left fun x _ => h x

theorem length_filter_lt {p q : Place → Bool} {l : List Place} {x : Place}
    (h : ∀ x, p x = true → q x = true) (hx : x ∈ l) (hp : p x = false) (hq : q x = true) :
    (l.filter p).length < (l.filter q).length := by
  obtain ⟨before, after, rfl⟩ := List.append_of_mem hx
  have h1 := length_filter_le (l := before) h
  have h2 := length_filter_le (l := after) h
  simp only [List.filter_append, List.filter_cons, hp, hq, List.length_append, ↓reduceIte,
    List.length_cons, Bool.false_eq_true]
  omega

theorem unentered_cons_le {tree : Tree} {above : List Level} {level : Level} :
    unentered tree (level :: above) ≤ unentered tree above := by
  apply length_filter_le
  intro x hx
  simp only [List.any_cons, Bool.not_or, Bool.and_eq_true] at hx
  exact hx.2

theorem unentered_cons_lt {tree : Tree} {above : List Level} {level : Level}
    (hd : tree.get? level.place = some .directory)
    (hn : above.find? (·.place = level.place) = none) :
    unentered tree (level :: above) < unentered tree above := by
  refine length_filter_lt ?_ (Tree.mem_directories hd) (by simp) ?_
  · intro x hx
    simp only [List.any_cons, Bool.not_or, Bool.and_eq_true] at hx
    exact hx.2
  · rw [List.find?_eq_none] at hn
    simpa using hn

theorem get?_of_follow {tree : Tree} {create : Bool} {links : Nat} {start place : Place}
    {names : List String} (h : follow tree create links start names = .ok (.directory place)) :
    tree.get? place = some .directory := by
  fun_induction follow tree create links start names <;> simp_all

theorem get?_of_status {tree : Tree} {path : Path} {place : Place}
    (h : status tree path = .ok (.directory place)) : tree.get? place = some .directory := by
  simp only [status] at h
  split at h
  · cases h
  · simp only [locate, bind, Except.bind] at h
    split at h
    · cases h
    · split at h
      · cases h
      · exact get?_of_follow h

/-- The visits to what `names` name in the directory at `place`, which was reached by `path`.
`above` holds the directories that the walk is inside of, this one first. -/
def walkNames (tree : Tree) (above : List Level) (path : Path) (place : Place)
    (names : List String) : List Visit :=
  match names with
  | [] => []
  | name :: rest =>
    let here := path.join name
    let visits :=
      match _h : tree.get? (name :: place) with
      | none => []
      | some (.file _) => [.file here]
      | some .directory =>
        match status tree here with
        | .error fault => [.problem (.io here fault)]
        | .ok _ =>
          walkNames tree (⟨here, name :: place⟩ :: above) here (name :: place)
            (tree.names (name :: place))
      | some (.link _) =>
        match _hs : status tree here with
        | .error fault => [.problem (.io here fault)]
        | .ok (.file _ _) => [.file here]
        | .ok (.free _) => []
        | .ok (.directory target) =>
          match _hf : above.find? (·.place = target) with
          | some level => [.problem (.loop here level.path)]
          | none => walkNames tree (⟨here, target⟩ :: above) here target (tree.names target)
    visits ++ walkNames tree above path place rest
termination_by (unentered tree above, tree.depthBound - place.length, names.length)
decreasing_by
  · have hle : unentered tree (⟨path.join name, name :: place⟩ :: above) ≤ unentered tree above :=
      unentered_cons_le
    have hd := Tree.length_le_depthBound _h
    simp only [List.length_cons] at hd
    rcases Nat.lt_or_eq_of_le hle with hlt | heq
    · exact Prod.Lex.left _ _ hlt
    · rw [heq]
      exact Prod.Lex.right _ (Prod.Lex.left _ _ (by simp only [List.length_cons]; omega))
  · exact Prod.Lex.left _ _ (unentered_cons_lt (get?_of_status _hs) _hf)
  · exact Prod.Lex.right _ (Prod.Lex.right _ (by simp))

/-- All visits at and below a path. -/
def walk (tree : Tree) (root : Path) : List Visit :=
  match status tree root with
  | .error fault => [.problem (.io root fault)]
  | .ok (.file _ _) => [.file root]
  | .ok (.free _) => []
  | .ok (.directory place) => walkNames tree [⟨root, place⟩] root place (tree.names place)

end Files
end SourceSplit
