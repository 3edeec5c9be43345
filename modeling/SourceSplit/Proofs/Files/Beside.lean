import SourceSplit.Proofs.Files.Change
import SourceSplit.Proofs.Path.Beside

/-!
# SourceSplit.Proofs.Files.Beside

Where the paths beside a path lead: a sibling names an entry of the same directory
(`Leads.sibling`), and so does the path with a suffix that has no slash (`Leads.withSuffix`).
-/

namespace SourceSplit
namespace Files

open SourceSplit.Path (Segment isIdle)

theorem ordinary_ofList_iff {segment : Segment} :
    Ordinary (String.ofList segment) ↔ Path.Names segment := by
  have hempty : String.ofList segment = "" ↔ segment = [] := by
    rw [← String.ofList_nil, String.ofList_inj]
  have hhere : String.ofList segment = "." ↔ segment = ['.'] := by
    rw [show "." = String.ofList ['.'] from rfl, String.ofList_inj]
  have hup : String.ofList segment = ".." ↔ segment = ['.', '.'] := by
    rw [show ".." = String.ofList ['.', '.'] from rfl, String.ofList_inj]
  constructor
  · intro h
    refine ⟨?_, mt hup.2 h.ne_up⟩
    have h1 := mt hempty.2 h.ne_empty
    have h2 := mt hhere.2 h.ne_here
    simp [isIdle, h1, h2]
  · intro h
    have hi := h.not_idle
    simp only [isIdle, Bool.or_eq_false_iff, List.isEmpty_eq_false_iff,
      decide_eq_false_iff_not] at hi
    exact ⟨mt hempty.1 hi.1, mt hhere.1 hi.2, mt hup.1 h.ne_up⟩

/-- A name that a path to an entry of the root can be made of. -/
structure Simple (name : String) : Prop where
  ordinary : Ordinary name
  short : isTooLong name = false
  no_slash : '/' ∉ name.toList
  no_nul : '\x00' ∉ name.toList

instance (name : String) : Decidable (Simple name) :=
  decidable_of_iff
    (Ordinary name ∧ isTooLong name = false ∧ '/' ∉ name.toList ∧ '\x00' ∉ name.toList)
    ⟨fun ⟨ho, hlong, hslash, hnul⟩ => ⟨ho, hlong, hslash, hnul⟩, fun h => ⟨h.1, h.2, h.3, h.4⟩⟩

/-- A path to an entry of the root. -/
theorem leads_of_root {tree : Tree} (name : String) (h : Simple name) :
    Leads tree ⟨"/" ++ name⟩ [name] := by
  obtain ⟨ho, hlong, hslash, hnul⟩ := h
  have htext : ("/" ++ name).toList = '/' :: name.toList := by
    rw [String.toList_append]
    rfl
  have hnames : pathNames ("/" ++ name) = [""] ++ [name] := by
    have hcut := Path.cutAtSlash_append_slash [] name.toList
    rw [Path.cutAtSlash_of_not_mem hslash, List.nil_append] at hcut
    unfold pathNames Path.segments
    rw [htext, hcut]
    simp [Path.cutAtSlash]
  have hstart : startFrom tree.home ("/" ++ name) = [] := by
    simp only [startFrom, Path.isAbsolute, htext, List.head?_cons, decide_true, if_true]
  refine ⟨?_, ?_, [""], name, [], hnames, ho, hlong, ?_, rfl⟩
  · have hnone : '\x00' ∉ ("/" ++ name).toList := by
      rw [htext, List.mem_cons, not_or]
      exact ⟨by decide, hnul⟩
    simp only [nulFree, List.contains_iff_mem, hnone, if_false]
  · have hlen : Text.byteLength ("/" ++ name).toList < maxPath := by
      rw [htext, Text.byteLength_cons]
      simp only [isTooLong, decide_eq_false_iff_not] at hlong
      have hone : Char.utf8Size '/' = 1 := by decide
      unfold maxName at hlong
      unfold maxPath
      omega
    have hne : ("/" ++ name).isEmpty = false := by
      rw [← Bool.not_eq_true, String.isEmpty_iff]
      intro he
      rw [he] at htext
      cases htext
    simp only [lengthFits, hne, Bool.false_eq_true, if_false, Nat.not_le.2 hlen]
  · rw [hstart]
    exact .stay rfl (.inl rfl) (.done rfl)

section

variable {tree : Tree} {path other : Path} {place : Place}

/-- `Leads`, said with the segments of the path. -/
theorem Leads.exists_segments (h : Leads tree path place) :
    ∃ before last dir, path.segments = before ++ [last] ∧ Path.Names last ∧
      isTooLong (String.ofList last) = false ∧
      Enters tree (startFrom tree.home path.text) (before.map String.ofList) dir ∧
      place = String.ofList last :: dir := by
  obtain ⟨before, name, dir, hn, ho, hl, he, rfl⟩ := h.names
  obtain ⟨front, back, hsegments, rfl, hback⟩ := List.map_eq_append_iff.1 hn
  obtain ⟨last, rest, rfl, hname, hrest⟩ := List.map_eq_cons_iff.1 hback
  rw [List.map_eq_nil_iff] at hrest
  subst hrest
  subst hname
  exact ⟨front, last, dir, hsegments, ordinary_ofList_iff.1 ho, hl, he, rfl⟩

theorem isAbsolute_congr {front idle : List Segment} {x y : Segment}
    (hp : path.segments = front ++ idle ++ [x]) (hq : other.segments = front ++ [y])
    (hf : front = [] → idle = []) : path.isAbsolute = other.isAbsolute := by
  cases front with
  | nil =>
    rw [hf rfl] at hp
    rw [Path.isAbsolute_of_segments hp, Path.isAbsolute_of_segments hq]
    simp
  | cons first front =>
    rw [Path.isAbsolute_of_segments hp, Path.isAbsolute_of_segments hq]
    cases front <;> cases idle <;> simp

/-- Two paths that differ in idle segments and in their last ones go into one directory. -/
theorem Leads.enters {front idle : List Segment} {x y : Segment} {name : String} {dir : Place}
    (h : Leads tree path (name :: dir)) (hp : path.segments = front ++ idle ++ [x])
    (hq : other.segments = front ++ [y]) (hidle : ∀ s ∈ idle, isIdle s = true)
    (hf : front = [] → idle = []) :
    name = String.ofList x ∧
      Enters tree (startFrom tree.home other.text) (front.map String.ofList) dir := by
  obtain ⟨before, last, _, hseg, _, _, he, hplace⟩ := h.exists_segments
  obtain ⟨rfl, rfl⟩ := List.cons.inj hplace
  obtain ⟨rfl, hx⟩ := List.append_inj' (hseg.symm.trans hp) rfl
  obtain ⟨rfl, _⟩ := List.cons.inj hx
  have hstart : startFrom tree.home path.text = startFrom tree.home other.text := by
    simp only [startFrom, isAbsolute_congr hp hq hf]
  rw [List.map_append, hstart] at he
  have hnames : ∀ name ∈ idle.map String.ofList, name = "" ∨ name = "." := by
    intro name hname
    obtain ⟨s, hs, rfl⟩ := List.mem_map.1 hname
    have := hidle s hs
    simp only [isIdle, Bool.or_eq_true, List.isEmpty_iff, decide_eq_true_eq] at this
    rcases this with rfl | rfl
    · exact .inl rfl
    · exact .inr rfl
  exact ⟨rfl, he.of_append_idle hnames⟩

/-- A path whose names but the last go into a directory can name nothing but an entry of it. -/
theorem Leads.eq_of_enters {before : List String} {name : String} {dir : Place}
    (h : Leads tree path place) (hn : pathNames path.text = before ++ [name])
    (he : Enters tree (startFrom tree.home path.text) before dir) : place = name :: dir := by
  obtain ⟨before', name', dir', hn', _, _, he', rfl⟩ := h.names
  obtain ⟨rfl, hlast⟩ := List.append_inj' (hn'.symm.trans hn) rfl
  rw [he'.unique he, (List.cons.inj hlast).1]

/-- A sibling goes into the same directory. -/
theorem Leads.enters_sibling {stem extension name : String} {dir : Place}
    (h : Leads tree path (name :: dir)) (hslash : '/' ∉ (stem ++ "." ++ extension).toList) :
    ∃ before, pathNames (path.sibling stem extension).text =
        before ++ [stem ++ "." ++ extension] ∧
      Enters tree (startFrom tree.home (path.sibling stem extension).text) before dir := by
  obtain ⟨before, last, _, hseg, hlast, _⟩ := h.exists_segments
  obtain ⟨front, idle, rfl, hidle, hf, hsib⟩ :=
    Path.segments_sibling hseg hlast.not_idle hslash
  refine ⟨front.map String.ofList, ?_, (h.enters hseg hsib hidle hf).2⟩
  rw [pathNames, hsib, List.map_append, List.map_singleton, String.ofList_toList]

/-- With a suffix that has no slash, a path goes into the same directory. -/
theorem Leads.enters_withSuffix {suffix name : String} {dir : Place}
    (h : Leads tree path (name :: dir)) (hslash : '/' ∉ suffix.toList) :
    ∃ before, pathNames (path.withSuffix suffix).text = before ++ [name ++ suffix] ∧
      Enters tree (startFrom tree.home (path.withSuffix suffix).text) before dir := by
  obtain ⟨before, last, _, hseg, _, _⟩ := h.exists_segments
  have hsuf := Path.segments_withSuffix hseg (Path.cutAtSlash_of_not_mem hslash)
  have hsame : path.segments = before ++ [] ++ [last] := by rw [hseg, List.append_nil]
  obtain ⟨rfl, he⟩ := h.enters hsame hsuf (List.forall_mem_nil _) fun _ => rfl
  refine ⟨before.map String.ofList, ?_, he⟩
  rw [pathNames, hsuf, List.map_append, List.map_singleton, String.ofList_append,
    String.ofList_toList]

/-- A sibling names an entry of the same directory. -/
theorem Leads.sibling {stem extension name : String} {dir : Place}
    (h : Leads tree path (name :: dir))
    (hslash : '/' ∉ (stem ++ "." ++ extension).toList)
    (hs : Leads tree (path.sibling stem extension) place) :
    place = (stem ++ "." ++ extension) :: dir := by
  obtain ⟨before, hn, he⟩ := h.enters_sibling hslash
  exact hs.eq_of_enters hn he

/-- A suffix without a slash makes the name longer. -/
theorem Leads.withSuffix {suffix name : String} {dir : Place} (h : Leads tree path (name :: dir))
    (hslash : '/' ∉ suffix.toList) (hs : Leads tree (path.withSuffix suffix) place) :
    place = (name ++ suffix) :: dir := by
  obtain ⟨before, hn, he⟩ := h.enters_withSuffix hslash
  exact hs.eq_of_enters hn he

end

end Files
end SourceSplit
