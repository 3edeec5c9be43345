import SourceSplit.Text.Offset

/-!
# SourceSplit.Path

Paths. A path is a text and is shown as it was written; two paths name the same place by spelling
when they have the same parts, that is apart from repeated slashes, a slash at the end and a `.`
that is not at the start.

`segments_ofSegments` and `ofSegments_segments`: cutting a path at its slashes and joining
segments with slashes undo each other. `length_parent?`: a parent has a shorter text, so every
path has finitely many ancestors.
-/

namespace SourceSplit

structure Path where
  text : String
  deriving DecidableEq, Repr, Inhabited

namespace Path

abbrev Segment := List Char

def cutAtSlash : List Char → List Segment
  | [] => [[]]
  | c :: cs =>
    match cutAtSlash cs with
    | [] => []
    | segment :: segments =>
      if c = '/' then [] :: segment :: segments else (c :: segment) :: segments

def joinWithSlash : List Segment → List Char
  | [] => []
  | [segment] => segment
  | segment :: segments => segment ++ '/' :: joinWithSlash segments

theorem cutAtSlash_ne_nil (cs : List Char) : cutAtSlash cs ≠ [] := by
  induction cs with
  | nil => simp [cutAtSlash]
  | cons c cs ih =>
    simp only [cutAtSlash]
    split
    · contradiction
    · split <;> simp

theorem joinWithSlash_cutAtSlash (cs : List Char) : joinWithSlash (cutAtSlash cs) = cs := by
  induction cs with
  | nil => rfl
  | cons c cs ih =>
    simp only [cutAtSlash]
    split
    · exact absurd ‹_› (cutAtSlash_ne_nil cs)
    · rename_i segment segments h
      rw [h] at ih
      split
      · rename_i hc
        simp [joinWithSlash, ih, hc]
      · cases segments with
        | nil => simpa [joinWithSlash] using ih
        | cons s ss => simpa [joinWithSlash] using ih

theorem cutAtSlash_of_not_mem {segment : Segment} (h : '/' ∉ segment) :
    cutAtSlash segment = [segment] := by
  induction segment with
  | nil => rfl
  | cons c cs ih =>
    simp only [List.mem_cons, not_or] at h
    simp [cutAtSlash, ih h.2, Ne.symm h.1]

theorem cutAtSlash_append {segment cs : List Char} (h : '/' ∉ segment) :
    cutAtSlash (segment ++ '/' :: cs) = segment :: cutAtSlash cs := by
  induction segment with
  | nil =>
    simp only [List.nil_append, cutAtSlash]
    split
    · exact absurd ‹_› (cutAtSlash_ne_nil cs)
    · rename_i hcut
      simp [hcut]
  | cons c segment ih =>
    simp only [List.mem_cons, not_or] at h
    simp [cutAtSlash, ih h.2, Ne.symm h.1]

theorem cutAtSlash_joinWithSlash {segments : List Segment} (hne : segments ≠ [])
    (h : ∀ s ∈ segments, '/' ∉ s) : cutAtSlash (joinWithSlash segments) = segments := by
  induction segments with
  | nil => contradiction
  | cons s ss ih =>
    cases ss with
    | nil => exact cutAtSlash_of_not_mem (h s (by simp))
    | cons t ts =>
      simp only [joinWithSlash]
      rw [cutAtSlash_append (h s (by simp)),
        ih (by simp) (fun x hx => h x (List.mem_cons_of_mem s hx))]

theorem length_joinWithSlash_lt (kept dropped : List Segment) (hk : kept ≠ []) (hd : dropped ≠ []) :
    (joinWithSlash kept).length < (joinWithSlash (kept ++ dropped)).length := by
  induction kept with
  | nil => contradiction
  | cons s ss ih =>
    cases ss with
    | nil =>
      cases dropped with
      | nil => contradiction
      | cons d ds =>
        simp [joinWithSlash]
    | cons t ts =>
      have := ih (by simp)
      simp only [List.cons_append, joinWithSlash, List.length_append, List.length_cons] at this ⊢
      omega

def segments (path : Path) : List Segment :=
  cutAtSlash path.text.toList

def ofSegments (segments : List Segment) : Path :=
  ⟨String.ofList (joinWithSlash segments)⟩

theorem ofSegments_segments (path : Path) : ofSegments path.segments = path := by
  simp [ofSegments, segments, joinWithSlash_cutAtSlash]

theorem segments_ofSegments {segments : List Segment} (hne : segments ≠ [])
    (h : ∀ s ∈ segments, '/' ∉ s) : (ofSegments segments).segments = segments := by
  simp [ofSegments, Path.segments, cutAtSlash_joinWithSlash hne h]

inductive Part where
  | root
  | here
  | up
  | name (name : String)
  deriving DecidableEq, Repr

/-- A segment behind the first says nothing when it is empty or a single dot. -/
def isIdle (segment : Segment) : Bool :=
  segment.isEmpty || segment = ['.']

def Part.ofSegment? (segment : Segment) : Option Part :=
  if isIdle segment then none
  else if segment = ['.', '.'] then some .up
  else some (.name (String.ofList segment))

def parts (path : Path) : List Part :=
  match path.segments with
  | [] => []
  | first :: rest =>
    let front :=
      if first = ['.'] then [.here]
      else if first.isEmpty && !rest.isEmpty then [.root]
      else (Part.ofSegment? first).toList
    front ++ rest.filterMap Part.ofSegment?

/-- The same place by spelling. -/
def same (p q : Path) : Bool :=
  p.parts = q.parts

def isAbsolute (path : Path) : Bool :=
  path.text.toList.head? = some '/'

/-- The segments up to the last one that says something. -/
def dropIdleEnd (segments : List Segment) : List Segment :=
  (segments.reverse.dropWhile isIdle).reverse

theorem dropIdleEnd_isPrefix (segments : List Segment) : dropIdleEnd segments <+: segments := by
  have := List.dropWhile_suffix (l := segments.reverse) isIdle
  rw [← List.reverse_prefix, List.reverse_reverse] at this
  exact this

/-- The path without its last part; the root and the empty path have none. -/
def parent? (path : Path) : Option Path :=
  match path.segments with
  | [] => none
  | first :: rest =>
    let body := dropIdleEnd rest
    if body.isEmpty then
      if first.isEmpty then none else some ⟨""⟩
    else
      let kept := dropIdleEnd body.dropLast
      if first.isEmpty && kept.isEmpty then some ⟨"/"⟩ else some (ofSegments (first :: kept))

theorem length_parent? {path parent : Path} (h : path.parent? = some parent) :
    parent.text.toList.length < path.text.toList.length := by
  have htext : path.text.toList = joinWithSlash path.segments :=
    (joinWithSlash_cutAtSlash path.text.toList).symm
  rw [htext]
  simp only [parent?] at h
  split at h
  · cases h
  · rename_i first rest hs
    rw [hs]
    split at h
    · split at h
      · cases h
      · rename_i hfirst
        cases h
        cases first with
        | nil => simp at hfirst
        | cons c cs => cases rest <;> simp [joinWithSlash]
    · rename_i hbody
      simp only [List.isEmpty_iff] at hbody
      have hlt : (dropIdleEnd (dropIdleEnd rest).dropLast).length < rest.length := by
        have h1 := (dropIdleEnd_isPrefix (dropIdleEnd rest).dropLast).length_le
        have h2 := (dropIdleEnd_isPrefix rest).length_le
        have h3 := List.length_pos_iff.2 hbody
        simp only [List.length_dropLast] at h1
        omega
      obtain ⟨dropped, hd⟩ :=
        (dropIdleEnd_isPrefix (dropIdleEnd rest).dropLast).trans
          (( List.dropLast_prefix _).trans (dropIdleEnd_isPrefix rest))
      have hne : dropped ≠ [] := by
        rintro rfl
        rw [List.append_nil] at hd
        rw [hd] at hlt
        exact Nat.lt_irrefl _ hlt
      split at h
      · cases h
        cases rest with
        | nil => simp [dropIdleEnd] at hbody
        | cons r rs =>
          cases rs with
          | nil =>
            cases r with
            | nil => simp [dropIdleEnd, isIdle] at hbody
            | cons => simp [joinWithSlash]; omega
          | cons => simp [joinWithSlash]; omega
      · cases h
        have := length_joinWithSlash_lt
          (first :: dropIdleEnd (dropIdleEnd rest).dropLast) dropped (by simp) hne
        rw [List.cons_append, hd] at this
        simpa [ofSegments] using this

/-- `name` looked up in `dir`: an absolute name stands for itself. -/
def join (dir : Path) (name : String) : Path :=
  if isAbsolute ⟨name⟩ then ⟨name⟩
  else if dir.text.isEmpty || dir.text.toList.getLast? = some '/' then ⟨dir.text ++ name⟩
  else ⟨dir.text ++ "/" ++ name⟩

/-- The file `stem.extension` in the directory of `path`. -/
def sibling (path : Path) (stem extension : String) : Path :=
  let name := stem ++ "." ++ extension
  match path.parent? with
  | some dir => dir.join name
  | none => ⟨name⟩

def withSuffix (path : Path) (suffix : String) : Path :=
  ⟨path.text ++ suffix⟩

def fileName? (path : Path) : Option String :=
  match path.parts.getLast? with
  | some (.name name) => some name
  | _ => none

/-- What follows the last dot of the file name. A dot that starts the name does not count. -/
def extension? (path : Path) : Option String :=
  match path.fileName? with
  | none => none
  | some name =>
    let backward := name.toList.reverse
    match backward.dropWhile (· ≠ '.') with
    | _ :: _ :: _ => some (String.ofList (backward.takeWhile (· ≠ '.')).reverse)
    | _ => none

end Path
end SourceSplit
