import Mathlib.Data.List.Basic
import SourceSplit.Proofs.Source.Header

/-!
# SourceSplit.Proofs.Source.Pattern

Search patterns as data, and what a search for one of them takes. `ways` lists all places to which a
pattern can lead, the most preferred first: a repetition prefers one more round to none, so what a
search takes is the first way, at the first place where there is one (`findFrom`).

A piece never gives back what it took. It does the same as a pattern where giving back is of no use,
since what follows could not take what is given back (`followedBy_run`), or takes nothing because
it took nothing with more (`head?_run`).
-/

namespace SourceSplit
namespace Source

open Text

/-- Classes of characters: one character, all but some, `\s` and `\w`. -/
inductive Class where
  | char (c : Char)
  | noneOf (cs : List Char)
  | blank
  | word
  deriving DecidableEq, Repr

def Class.holds : Class → Char → Bool
  | .char c, d => d = c
  | .noneOf cs, d => !cs.contains d
  | .blank, d => isBlank d
  | .word, d => isWord d

inductive Pattern where
  | empty
  | one (c : Class)
  /-- A word begins or ends here, `\b`. -/
  | boundary
  | seq (p q : Pattern)
  /-- As many rounds as can be, possibly none. -/
  | star (p : Pattern)
  /-- What the pattern takes is noted. -/
  | group (p : Pattern)
  deriving DecidableEq, Repr

/-- A place in a text, with what the last group took. -/
structure Cursor where
  before : List Char
  rest : List Char
  noted : Option (List Char)
  deriving DecidableEq, Repr

namespace Pattern

def plus (p : Pattern) : Pattern :=
  .seq p (.star p)

def text (word : String) : Pattern :=
  word.toList.foldr (fun c p => .seq (.one (.char c)) p) .empty

/-- Rounds from a place, the more the better. A round that takes nothing is none. -/
def rounds (round : Cursor → List Cursor) (here : Cursor) : List Cursor :=
  ((round here).flatMap fun next =>
    if _h : next.rest.length < here.rest.length then rounds round next else []) ++ [here]
termination_by here.rest.length

def ways : Pattern → Cursor → List Cursor
  | .empty, here => [here]
  | .one _, ⟨_, [], _⟩ => []
  | .one c, ⟨before, d :: rest, noted⟩ =>
    if c.holds d then [⟨before ++ [d], rest, noted⟩] else []
  | .boundary, here =>
    if here.before.getLast?.any isWord = here.rest.head?.any isWord then [] else [here]
  | .seq p q, here => (p.ways here).flatMap q.ways
  | .star p, here => rounds p.ways here
  | .group p, here =>
    (p.ways here).map fun stop =>
      { stop with noted := some (stop.before.drop here.before.length) }

/-- What a search took: the text in front of it, its own text, and what the group took. -/
structure Match where
  before : List Char
  text : List Char
  noted : Option (List Char)

/-- All that a search takes behind a text, one behind the other. What takes nothing is passed by. -/
def findFrom (p : Pattern) (before cs : List Char) : List Match :=
  match cs with
  | [] => []
  | c :: rest =>
    match (p.ways ⟨before, c :: rest, none⟩).head? with
    | none => findFrom p (before ++ [c]) rest
    | some stop =>
      if _h : stop.rest.length ≤ rest.length then
        ⟨before, stop.before.drop before.length, stop.noted⟩ ::
          findFrom p stop.before stop.rest
      else findFrom p (before ++ [c]) rest
termination_by cs.length

/-! ## What follows a pattern -/

/-- The ways of a pattern, each as far as it goes on with what follows. -/
def followedBy (p : Pattern) (next : Cursor → List Cursor) (here : Cursor) : List Cursor :=
  (p.ways here).flatMap next

section

variable {p q : Pattern} {c : Class} {next : Cursor → List Cursor} {here stop : Cursor}
  {before rest cs : List Char} {noted : Option (List Char)} {d : Char}

theorem ways_eq_followedBy : p.ways here = p.followedBy (fun stop => [stop]) here :=
  (List.flatMap_singleton' _).symm

theorem followedBy_empty : Pattern.empty.followedBy next here = next here :=
  List.append_nil _

theorem followedBy_one_nil : (Pattern.one c).followedBy next ⟨before, [], noted⟩ = [] := rfl

theorem followedBy_one_of_holds (h : c.holds d = true) :
    (Pattern.one c).followedBy next ⟨before, d :: rest, noted⟩ =
      next ⟨before ++ [d], rest, noted⟩ := by
  simp [followedBy, ways, h]

theorem followedBy_one_of_not (h : c.holds d = false) :
    (Pattern.one c).followedBy next ⟨before, d :: rest, noted⟩ = [] := by
  simp [followedBy, ways, h]

theorem followedBy_boundary : Pattern.boundary.followedBy next here =
    if here.before.getLast?.any isWord = here.rest.head?.any isWord then [] else next here := by
  unfold followedBy ways
  split <;> simp

theorem ways_seq : (Pattern.seq p q).ways = p.followedBy q.ways :=
  funext fun _ => rfl

theorem followedBy_seq : (Pattern.seq p q).followedBy next = p.followedBy (q.followedBy next) :=
  funext fun _ => List.flatMap_assoc

theorem followedBy_group : (Pattern.group p).followedBy next here =
    p.followedBy (fun stop =>
      next { stop with noted := some (stop.before.drop here.before.length) }) here := by
  simp only [followedBy, ways, List.flatMap_map]

theorem rounds_eq (round : Cursor → List Cursor) (here : Cursor) :
    rounds round here = ((round here).flatMap fun next =>
      if next.rest.length < here.rest.length then rounds round next else []) ++ [here] := by
  rw [rounds]
  simp only [dite_eq_ite]

/-! ## Ways go forward -/

/-- The text between two places. -/
def Passes (here stop : Cursor) : Prop :=
  ∃ part, here.rest = part ++ stop.rest ∧ stop.before = here.before ++ part

theorem passes_refl : Passes here here :=
  ⟨[], rfl, (List.append_nil _).symm⟩

theorem Passes.trans {mid : Cursor} (h : Passes here mid) (h' : Passes mid stop) :
    Passes here stop := by
  obtain ⟨part, hrest, hbefore⟩ := h
  obtain ⟨more, hrest', hbefore'⟩ := h'
  exact ⟨part ++ more, by rw [hrest, hrest', List.append_assoc],
    by rw [hbefore', hbefore, List.append_assoc]⟩

theorem Passes.length_le (h : Passes here stop) : stop.rest.length ≤ here.rest.length := by
  obtain ⟨part, hrest, _⟩ := h
  simp [hrest]

theorem passes_of_mem_rounds {round : Cursor → List Cursor}
    (hround : ∀ here, ∀ stop ∈ round here, Passes here stop) (h : stop ∈ rounds round here) :
    Passes here stop := by
  fun_induction rounds round here with
  | case1 here ih =>
    rcases List.mem_append.1 h with h | h
    · obtain ⟨mid, hmid, hstop⟩ := List.mem_flatMap.1 h
      split at hstop
      · rename_i hlt
        exact (hround here mid hmid).trans (ih mid hlt hstop)
      · cases hstop
    · rw [List.mem_singleton.1 h]
      exact passes_refl

theorem passes_of_mem_ways (h : stop ∈ p.ways here) : Passes here stop := by
  induction p generalizing here stop with
  | empty =>
    rw [List.mem_singleton.1 h]
    exact passes_refl
  | one c =>
    obtain ⟨before, _ | ⟨d, rest⟩, noted⟩ := here
    · cases h
    · simp only [ways, List.mem_ite_nil_right, List.mem_singleton] at h
      rw [h.2]
      exact ⟨[d], rfl, rfl⟩
  | boundary =>
    simp only [ways, List.mem_ite_nil_left, List.mem_singleton] at h
    rw [h.2]
    exact passes_refl
  | seq p q ihp ihq =>
    obtain ⟨mid, hmid, hstop⟩ := List.mem_flatMap.1 h
    exact (ihp hmid).trans (ihq hstop)
  | star p ih => exact passes_of_mem_rounds (fun _ _ => ih) h
  | group p ih =>
    obtain ⟨mid, hmid, rfl⟩ := List.mem_map.1 h
    have hpasses : Passes here mid := ih hmid
    exact hpasses

/-- A repetition whose rounds all take something: one more round, or none. -/
theorem followedBy_star (h : ∀ here, ∀ stop ∈ p.ways here, stop.rest.length < here.rest.length) :
    (Pattern.star p).followedBy next here =
      p.followedBy ((Pattern.star p).followedBy next) here ++ next here := by
  have hrounds : (p.ways here).flatMap (fun mid =>
      if mid.rest.length < here.rest.length then rounds p.ways mid else []) =
        (p.ways here).flatMap (rounds p.ways) := by
    refine List.flatMap_congr fun mid hmid => ?_
    rw [if_pos (h here mid hmid)]
  rw [followedBy, ways, rounds_eq, hrounds, List.flatMap_append, List.flatMap_assoc,
    List.flatMap_singleton]
  rfl

theorem length_lt_of_mem_one (h : stop ∈ ((Pattern.one c).seq p).ways here) :
    stop.rest.length < here.rest.length := by
  obtain ⟨mid, hmid, hstop⟩ := List.mem_flatMap.1 h
  obtain ⟨before, _ | ⟨d, rest⟩, noted⟩ := here
  · cases hmid
  · simp only [ways, List.mem_ite_nil_right, List.mem_singleton] at hmid
    have hle := (passes_of_mem_ways hstop).length_le
    rw [hmid.2] at hle
    exact Nat.lt_succ_of_le hle

/-! ## Runs of a class -/

theorem run_nil : (Pattern.star (.one c)).followedBy next ⟨before, [], noted⟩ =
    next ⟨before, [], noted⟩ := by
  rw [followedBy, ways, rounds_eq]
  exact List.append_nil _

theorem run_of_holds (h : c.holds d = true) :
    (Pattern.star (.one c)).followedBy next ⟨before, d :: rest, noted⟩ =
      (Pattern.star (.one c)).followedBy next ⟨before ++ [d], rest, noted⟩ ++
        next ⟨before, d :: rest, noted⟩ := by
  rw [followedBy, ways, rounds_eq]
  simp [ways, h, followedBy]

theorem run_of_not (h : c.holds d = false) :
    (Pattern.star (.one c)).followedBy next ⟨before, d :: rest, noted⟩ =
      next ⟨before, d :: rest, noted⟩ := by
  rw [followedBy, ways, rounds_eq]
  simp [ways, h]

/-- What follows takes nothing that begins with a character of the class. -/
def Rejects (c : Class) (next : Cursor → List Cursor) : Prop :=
  ∀ before d rest noted, c.holds d = true → next ⟨before, d :: rest, noted⟩ = []

/-- A run gives nothing back to what does not take it. -/
theorem followedBy_run (h : Rejects c next) :
    (Pattern.star (.one c)).followedBy next ⟨before, cs, noted⟩ =
      next ⟨before ++ cs.takeWhile c.holds, cs.dropWhile c.holds, noted⟩ := by
  induction cs generalizing before with
  | nil => rw [run_nil, List.takeWhile_nil, List.dropWhile_nil, List.append_nil]
  | cons d cs ih =>
    cases hd : c.holds d with
    | true =>
      rw [run_of_holds hd, ih, h before d cs noted hd, List.append_nil,
        List.takeWhile_cons_of_pos hd, List.dropWhile_cons_of_pos hd,
        List.append_cons before d (cs.takeWhile c.holds)]
    | false =>
      have hneg : ¬ c.holds d = true := by simp [hd]
      rw [run_of_not hd, List.takeWhile_cons_of_neg hneg, List.dropWhile_cons_of_neg hneg,
        List.append_nil]

/-- What follows a run can do all that it can do without the run. -/
theorem suffix_run : next ⟨before, cs, noted⟩ <:+
    (Pattern.star (.one c)).followedBy next ⟨before, cs, noted⟩ := by
  cases cs with
  | nil => exact run_nil ▸ List.suffix_refl _
  | cons d cs =>
    cases hd : c.holds d with
    | true => exact run_of_holds hd ▸ List.suffix_append _ _
    | false => exact run_of_not hd ▸ List.suffix_refl _

/-- The longest run is preferred. If what follows finds nothing behind it, and never finds more
when a character is given back, then there is no way at all. -/
theorem head?_run (h : ∀ before d rest noted, c.holds d = true →
      next ⟨before ++ [d], rest, noted⟩ = [] → next ⟨before, d :: rest, noted⟩ = []) :
    ((Pattern.star (.one c)).followedBy next ⟨before, cs, noted⟩).head? =
      (next ⟨before ++ cs.takeWhile c.holds, cs.dropWhile c.holds, noted⟩).head? := by
  induction cs generalizing before with
  | nil => rw [run_nil, List.takeWhile_nil, List.dropWhile_nil, List.append_nil]
  | cons d cs ih =>
    cases hd : c.holds d with
    | true =>
      rw [run_of_holds hd, List.takeWhile_cons_of_pos hd, List.dropWhile_cons_of_pos hd,
        List.append_cons before d (cs.takeWhile c.holds), ← ih, List.head?_append]
      cases hmore : (Pattern.star (.one c)).followedBy next ⟨before ++ [d], cs, noted⟩ with
      | nil =>
        have hnone : next ⟨before ++ [d], cs, noted⟩ = [] :=
          List.suffix_nil.1 (hmore ▸ suffix_run)
        rw [h before d cs noted hd hnone]
        rfl
      | cons stop stops => rfl
    | false =>
      have hneg : ¬ c.holds d = true := by simp [hd]
      rw [run_of_not hd, List.takeWhile_cons_of_neg hneg, List.dropWhile_cons_of_neg hneg,
        List.append_nil]

/-- Whatever follows a run follows some characters of the class. -/
theorem exists_of_head?_run
    (h : ((Pattern.star (.one c)).followedBy next ⟨before, cs, noted⟩).head? = some stop) :
    ∃ run rest, cs = run ++ rest ∧ (∀ d ∈ run, c.holds d = true) ∧
      (next ⟨before ++ run, rest, noted⟩).head? = some stop := by
  induction cs generalizing before with
  | nil =>
    rw [run_nil] at h
    exact ⟨[], [], rfl, nofun, by rwa [List.append_nil]⟩
  | cons d cs ih =>
    have hhere : (next ⟨before, d :: cs, noted⟩).head? = some stop →
        ∃ run rest, d :: cs = run ++ rest ∧ (∀ d ∈ run, c.holds d = true) ∧
          (next ⟨before ++ run, rest, noted⟩).head? = some stop :=
      fun hnext => ⟨[], d :: cs, rfl, nofun, by rwa [List.append_nil]⟩
    cases hd : c.holds d with
    | true =>
      rw [run_of_holds hd, List.head?_append, Option.or_eq_some_iff] at h
      rcases h with h | ⟨_, h⟩
      · obtain ⟨run, rest, rfl, hrun, hnext⟩ := ih h
        refine ⟨d :: run, rest, rfl, List.forall_mem_cons.2 ⟨hd, hrun⟩, ?_⟩
        rwa [List.append_cons]
      · exact hhere h
    | false =>
      rw [run_of_not hd] at h
      exact hhere h

end

end Pattern

/-! ## Pieces -/

namespace Piece

/-- A piece has one way or none. -/
def followedBy (piece : Piece) (next : Cursor → List Cursor) (here : Cursor) : List Cursor :=
  match piece here.rest with
  | some (part, rest) => next ⟨here.before ++ part, rest, here.noted⟩
  | none => []

section

variable {piece other : Piece} {next : Cursor → List Cursor} {c : Class} {word : String}

theorem followedBy_andThen :
    (piece.andThen other).followedBy next = piece.followedBy (other.followedBy next) := by
  funext here
  simp only [followedBy, andThen]
  cases piece here.rest with
  | none => rfl
  | some taken =>
    obtain ⟨part, rest⟩ := taken
    simp only
    cases other rest with
    | none => rfl
    | some more => simp only [Option.map_some, List.append_assoc]

theorem followedBy_text :
    (Pattern.text word).followedBy next = (literal word).followedBy next := by
  funext ⟨before, cs, noted⟩
  simp only [Pattern.text, followedBy, literal]
  generalize word.toList = letters
  induction letters generalizing before cs with
  | nil => simp [Pattern.followedBy_empty]
  | cons c letters ih =>
    rw [List.foldr_cons, Pattern.followedBy_seq]
    cases cs with
    | nil => simp [Pattern.followedBy_one_nil]
    | cons d cs =>
      by_cases hd : d = c
      · subst hd
        rw [Pattern.followedBy_one_of_holds (by simp [Class.holds]), ih,
          List.isPrefixOf_cons_cons_self, List.length_cons, List.drop_succ_cons]
        cases letters.isPrefixOf cs with
        | true => simp
        | false => rfl
      · rw [Pattern.followedBy_one_of_not (by simp [Class.holds, hd])]
        simp [List.isPrefixOf, Ne.symm hd]

theorem followedBy_many (h : Pattern.Rejects c next) :
    (Pattern.star (.one c)).followedBy next = (many c.holds).followedBy next :=
  funext fun _ => Pattern.followedBy_run h

theorem followedBy_some1 (h : Pattern.Rejects c next) :
    (Pattern.plus (.one c)).followedBy next = (some1 c.holds).followedBy next := by
  funext ⟨before, cs, noted⟩
  rw [Pattern.plus, Pattern.followedBy_seq, followedBy_many h]
  cases cs with
  | nil => rfl
  | cons d cs =>
    cases hd : c.holds d with
    | true =>
      rw [Pattern.followedBy_one_of_holds hd]
      simp [followedBy, some1, many, hd]
    | false =>
      rw [Pattern.followedBy_one_of_not hd]
      simp [followedBy, some1, hd]

end

end Piece

/-! ## Patterns and pieces that reject a class -/

section

variable {c other : Class} {next : Cursor → List Cursor}

theorem rejects_literal {word : String} {first : Char}
    (hfirst : word.toList.head? = some first) (hc : c.holds first = false) :
    Pattern.Rejects c ((Piece.literal word).followedBy next) := by
  intro before d rest noted hd
  obtain ⟨tail, hword⟩ := List.head?_eq_some_iff.1 hfirst
  have hne : first ≠ d := by
    rintro rfl
    rw [hd] at hc
    cases hc
  simp [Piece.followedBy, Piece.literal, hword, hne]

theorem rejects_plus (h : ∀ d, c.holds d = true → other.holds d = false) :
    Pattern.Rejects c ((Pattern.plus (.one other)).followedBy next) := by
  intro before d rest noted hd
  rw [Pattern.plus, Pattern.followedBy_seq]
  exact Pattern.followedBy_one_of_not (h d hd)

theorem holds_noneOf (c : Char) : (Class.noneOf [c]).holds = (· ≠ c) :=
  funext fun d => by simp [Class.holds]

/-- Where one character is to follow, all others are rejected. -/
theorem rejects_noneOf (c : Char) (note : Cursor → Option (List Char)) :
    Pattern.Rejects (.noneOf [c]) fun stop =>
      (Pattern.one (.char c)).ways ⟨stop.before, stop.rest, note stop⟩ := by
  intro before d rest noted hd
  rw [holds_noneOf, decide_eq_true_eq] at hd
  simp [Pattern.ways, Class.holds, hd]

end

end Source
end SourceSplit
