import Mathlib.Logic.Relation
import SourceSplit.Brace

/-!
# SourceSplit.Proofs.Brace.Step

The walk one step at a time. `move` is what the walk makes of one mark, with a look at the mark
behind it, and the walk is one move after the other (`walk_cons`). `Steps` leads from one state of a
walk to the later ones.

* `move_eq_go`: all that a move can do besides ending the walk.
* `Steps.ending_eq`: the states of a walk all come to the same end.
* `exists_final`, `exists_steps_of_closed`: a walk comes to a state at which it ends.
* `Steps.total`: of two states of a walk, one comes behind the other.
* `Steps.passes`: what a walk passes, it passes in the same way wherever it stands.
-/

namespace SourceSplit
namespace Brace

open Text

/-- What the walk makes of a mark: it goes on behind `width` marks, or it ends here. -/
inductive Move where
  | go (mode : Mode) (depth width : Nat)
  | close
  | refuse
  deriving DecidableEq, Repr

/-- The move at a mark, `next` being the mark behind it. -/
def move : Mode → (depth : Nat) → Mark → (next : Option Mark) → Move
  | .string true, depth, _, _ => .go (.string false) depth 1
  | .string false, depth, .backslash, _ => .go (.string true) depth 1
  | .string false, depth, .quote, _ => .go .code depth 1
  | .string false, depth, _, _ => .go (.string false) depth 1
  | .comment, depth, .star, some .slash => .go .code depth 2
  | .comment, depth, _, _ => .go .comment depth 1
  | .code, depth, .slash, some .star => .go .comment depth 2
  | .code, depth, .quote, _ => .go (.string false) depth 1
  | .code, depth, .opening, _ => .go .code (depth + 1) 1
  | .code, 0, .closing, _ => .refuse
  | .code, 1, .closing, _ => .close
  | .code, depth + 2, .closing, _ => .go .code (depth + 1) 1
  | .code, depth, _, _ => .go .code depth 1

section

variable {mode mode' : Mode} {depth depth' width : Nat} {mark : Mark} {next : Option Mark}

theorem walk_cons (mode : Mode) (depth offset : Nat) (mark : Mark) (rest : List Mark) :
    walk mode depth offset (mark :: rest) =
      match move mode depth mark rest.head? with
      | .go mode' depth' width => walk mode' depth' (offset + width) ((mark :: rest).drop width)
      | .close => .closed offset
      | .refuse => .unmatched offset := by
  generalize hnext : rest.head? = next
  fun_cases move mode depth mark next with
  | case5 =>
    obtain ⟨rest, rfl⟩ := List.head?_eq_some_iff.1 hnext
    rfl
  | case6 depth mark next hnot =>
    rw [walk]
    · rfl
    · rintro behind hmark rfl
      exact hnot hmark hnext.symm
  | case7 =>
    obtain ⟨rest, rfl⟩ := List.head?_eq_some_iff.1 hnext
    rfl
  | case13 depth mark next hnot =>
    rw [walk]
    · rfl
    · rintro behind hmark rfl
      exact hnot hmark hnext.symm
    all_goals assumption
  | _ => rw [walk] <;> simp_all

/-- A move either passes one mark, and would do so if it were the last, or the two marks of a
comment sign, which open and close no brace. -/
theorem move_eq_go (h : move mode depth mark next = .go mode' depth' width) :
    width = 1 ∧ move mode depth mark none = .go mode' depth' 1 ∨
      width = 2 ∧ depth' = depth ∧ (∃ second, next = some second) ∧
        move mode depth mark none = .go mode depth 1 := by
  revert h
  fun_cases move mode depth mark next with
  | case5 =>
    rintro ⟨⟩
    exact .inr ⟨rfl, rfl, ⟨_, rfl⟩, rfl⟩
  | case7 =>
    rintro ⟨⟩
    exact .inr ⟨rfl, rfl, ⟨_, rfl⟩, rfl⟩
  | case10 => rintro ⟨⟩
  | case11 => rintro ⟨⟩
  | _ =>
    rintro ⟨⟩
    refine .inl ⟨rfl, ?_⟩
    rw [move] <;> simp_all

theorem move_eq_close_iff :
    move mode depth mark next = .close ↔ mode = .code ∧ depth = 1 ∧ mark = .closing := by
  fun_cases move mode depth mark next <;> simp_all

theorem move_eq_refuse_iff :
    move mode depth mark next = .refuse ↔ mode = .code ∧ depth = 0 ∧ mark = .closing := by
  fun_cases move mode depth mark next <;> simp_all

theorem move_depth_pos (h : move mode depth mark next = .go mode' depth' width) (hpos : 0 < depth) :
    0 < depth' := by
  revert h
  fun_cases move mode depth mark next <;> rintro ⟨⟩ <;> omega

/-- A move is the same with more braces open. -/
theorem move_raise (h : move mode depth mark next = .go mode' depth' width) (more : Nat) :
    move mode (depth + more) mark next = .go mode' (depth' + more) width := by
  revert h
  fun_cases move mode depth mark next with
  | case10 => rintro ⟨⟩
  | case11 => rintro ⟨⟩
  | case9 =>
    rintro ⟨⟩
    rw [Nat.add_right_comm]
    rfl
  | case12 =>
    rintro ⟨⟩
    rename_i left
    change move .code (left + 2 + more) .closing next = .go .code (left + 1 + more) 1
    rw [Nat.add_right_comm left 2, Nat.add_right_comm left 1]
    rfl
  | case13 depth mark next hnot _ _ hzero hone hmore =>
    rintro ⟨⟩
    have hclosing : mark ≠ .closing := by
      rcases depth with _ | _ | depth
      · exact hzero rfl
      · exact hone rfl
      · exact hmore depth rfl
    rw [move] <;> simp_all
  | _ =>
    rintro ⟨⟩
    rw [move] <;> simp_all

end

/-! ## States of a walk -/

/-- A walk under way: what it is in, the braces that are open, and what is ahead. -/
structure State where
  mode : Mode
  depth : Nat
  offset : Nat
  ahead : List Mark

namespace State

/-- The walk that `closingOffset` takes, before its first step. -/
def start (text : String) (offset : Nat) : State :=
  ⟨.code, 0, offset, (marks text).drop offset⟩

/-- How the walk ends that goes on from here. -/
def ending (state : State) : Ending :=
  walk state.mode state.depth state.offset state.ahead

end State

inductive Step : State → State → Prop where
  | go {mode mode' : Mode} {depth depth' width offset : Nat} {mark : Mark} {rest : List Mark} :
      move mode depth mark rest.head? = .go mode' depth' width →
      Step ⟨mode, depth, offset, mark :: rest⟩
        ⟨mode', depth', offset + width, (mark :: rest).drop width⟩

abbrev Steps : State → State → Prop :=
  Relation.ReflTransGen Step

/-- The walk ends at this state. -/
inductive Final : State → Ending → Prop where
  | closed {offset : Nat} {rest : List Mark} :
      Final ⟨.code, 1, offset, .closing :: rest⟩ (.closed offset)
  | unmatched {offset : Nat} {rest : List Mark} :
      Final ⟨.code, 0, offset, .closing :: rest⟩ (.unmatched offset)
  | unfinished {mode : Mode} {depth offset : Nat} :
      Final ⟨mode, depth, offset, []⟩ (.unfinished depth)

section

variable {a b c : State}

theorem Step.unique (h : Step a b) (h' : Step a c) : b = c := by
  cases h with
  | go hmove =>
    cases h' with
    | go hmove' =>
      rw [hmove] at hmove'
      cases hmove'
      rfl

/-- A step passes at least one mark. It looks at no more than one mark behind them, and is the same
at any place where it sees the same there or nothing. -/
theorem Step.passes (h : Step a b) :
    ∃ passed, passed ≠ [] ∧ a.ahead = passed ++ b.ahead ∧ b.offset = a.offset + passed.length ∧
      ∀ offset ahead, (∀ next, ahead.head? = some next → b.ahead.head? = some next) →
        Step ⟨a.mode, a.depth, offset, passed ++ ahead⟩
          ⟨b.mode, b.depth, offset + passed.length, ahead⟩ := by
  cases h with
  | @go mode mode' depth depth' width offset mark rest hmove =>
    obtain ⟨rfl, hlast⟩ | ⟨rfl, _, ⟨second, hsecond⟩, _⟩ := move_eq_go hmove
    · refine ⟨[mark], by simp, rfl, rfl, fun offset ahead hsees => ?_⟩
      have hmove' : move mode depth mark ahead.head? = .go mode' depth' 1 := by
        cases hhead : ahead.head? with
        | none => exact hlast
        | some next =>
          have hnext : rest.head? = some next := hsees next hhead
          rwa [← hnext]
      exact .go hmove'
    · obtain ⟨rest, rfl⟩ := List.head?_eq_some_iff.1 hsecond
      refine ⟨[mark, second], by simp, rfl, rfl, fun offset ahead _ => ?_⟩
      have hmove' : move mode depth mark (second :: ahead).head? = .go mode' depth' 2 := hmove
      exact .go hmove'

theorem Step.length_lt (h : Step a b) : b.ahead.length < a.ahead.length := by
  obtain ⟨passed, hne, hahead, _, _⟩ := h.passes
  have hpos := List.length_pos_iff.2 hne
  rw [hahead, List.length_append]
  omega

theorem Step.offset_lt (h : Step a b) : a.offset < b.offset := by
  obtain ⟨passed, hne, _, hoffset, _⟩ := h.passes
  have hpos := List.length_pos_iff.2 hne
  omega

theorem Step.ending_eq (h : Step a b) : a.ending = b.ending := by
  cases h with
  | go hmove => rw [State.ending, walk_cons, hmove, State.ending]

theorem Step.depth_pos (h : Step a b) (hpos : 0 < a.depth) : 0 < b.depth := by
  cases h with
  | go hmove => exact move_depth_pos hmove hpos

theorem Steps.depth_pos (h : Steps a b) (hpos : 0 < a.depth) : 0 < b.depth := by
  induction h with
  | refl => exact hpos
  | tail _ hstep ih => exact hstep.depth_pos ih

theorem Steps.ending_eq (h : Steps a b) : a.ending = b.ending := by
  induction h with
  | refl => rfl
  | tail _ hstep ih => rw [ih, hstep.ending_eq]

theorem Steps.offset_le (h : Steps a b) : a.offset ≤ b.offset := by
  induction h with
  | refl => exact Nat.le_refl _
  | tail _ hstep ih => exact Nat.le_trans ih (Nat.le_of_lt hstep.offset_lt)

theorem Steps.passes (h : Steps a b) :
    ∃ passed, a.ahead = passed ++ b.ahead ∧ b.offset = a.offset + passed.length ∧
      ∀ offset ahead, (∀ next, ahead.head? = some next → b.ahead.head? = some next) →
        Steps ⟨a.mode, a.depth, offset, passed ++ ahead⟩
          ⟨b.mode, b.depth, offset + passed.length, ahead⟩ := by
  induction h using Relation.ReflTransGen.head_induction_on with
  | refl => exact ⟨[], rfl, rfl, fun _ _ _ => .refl⟩
  | head hstep _ ih =>
    obtain ⟨first, _, hfirst, hoffset, hstep⟩ := hstep.passes
    obtain ⟨more, hmore, hoffset', hsteps⟩ := ih
    refine ⟨first ++ more, ?_, ?_, fun offset ahead hsees => ?_⟩
    · rw [hfirst, hmore, List.append_assoc]
    · rw [hoffset', hoffset, List.length_append, Nat.add_assoc]
    · rw [List.append_assoc, List.length_append, ← Nat.add_assoc]
      refine .head (hstep offset _ fun next hnext => ?_) (hsteps _ ahead hsees)
      rw [hmore]
      cases more with
      | nil => exact hsees next hnext
      | cons mark more => exact hnext

theorem Steps.cases_head (h : Steps a b) : a = b ∨ ∃ next, Step a next ∧ Steps next b :=
  Relation.ReflTransGen.cases_head h

theorem Steps.eq_of_offset_eq (h : Steps a b) (hoffset : a.offset = b.offset) : a = b := by
  obtain rfl | ⟨next, hstep, hsteps⟩ := h.cases_head
  · rfl
  · have hlt := hstep.offset_lt
    have hle := hsteps.offset_le
    omega

theorem Steps.total (h : Steps a b) (h' : Steps a c) : Steps b c ∨ Steps c b :=
  Relation.ReflTransGen.total_of_right_unique (fun _ _ _ hb hc => hb.unique hc) h h'

theorem exists_final (a : State) : ∃ b, Steps a b ∧ Final b a.ending := by
  obtain ⟨mode, depth, offset, ahead⟩ := a
  match ahead with
  | [] =>
    refine ⟨_, .refl, ?_⟩
    rw [State.ending, walk_nil]
    exact .unfinished
  | mark :: rest =>
    rw [State.ending, walk_cons]
    cases hmove : move mode depth mark rest.head? with
    | go mode' depth' width =>
      have hstep : Step ⟨mode, depth, offset, mark :: rest⟩ _ := .go hmove
      have hshorter := hstep.length_lt
      obtain ⟨b, hsteps, hfinal⟩ :=
        exists_final ⟨mode', depth', offset + width, (mark :: rest).drop width⟩
      exact ⟨b, .head hstep hsteps, hfinal⟩
    | close =>
      obtain ⟨rfl, rfl, rfl⟩ := move_eq_close_iff.1 hmove
      exact ⟨_, .refl, .closed⟩
    | refuse =>
      obtain ⟨rfl, rfl, rfl⟩ := move_eq_refuse_iff.1 hmove
      exact ⟨_, .refl, .unmatched⟩
termination_by a.ahead.length
decreasing_by exact hshorter

/-- A walk that closes comes to the brace that closes. -/
theorem exists_steps_of_closed {stop : Nat} (h : a.ending = .closed stop) :
    ∃ rest, Steps a ⟨.code, 1, stop, .closing :: rest⟩ := by
  obtain ⟨last, hsteps, hfinal⟩ := exists_final a
  rw [h] at hfinal
  cases hfinal
  exact ⟨_, hsteps⟩

end

/-! ## The answer of a walk -/

section

variable {text : String} {start : Nat}

theorem length_marks (text : String) : (marks text).length = byteLength text.toList := by
  rw [marks, List.length_map, length_bytes]

/-- Ahead of a state is the text from its byte on. -/
theorem ahead_of_steps {state : State} (h : Steps (State.start text start) state) :
    state.ahead = (marks text).drop state.offset := by
  obtain ⟨passed, hahead, hoffset, _⟩ := h.passes
  have hstart : (marks text).drop start = passed ++ state.ahead := hahead
  have hstate : state.offset = start + passed.length := hoffset
  rw [hstate, ← List.drop_drop, hstart, List.drop_left]

/-- Behind the end of the text nothing is ahead. -/
theorem ending_start_of_outside (h : ¬ start < byteLength text.toList) :
    (State.start text start).ending = .unfinished 0 := by
  rw [State.ending, State.start, List.drop_eq_nil_of_le (by rw [length_marks]; omega), walk_nil]

theorem closingOffset_eq_ok_iff {stop : Nat} :
    closingOffset text start = .ok stop ↔ (State.start text start).ending = .closed stop := by
  unfold closingOffset
  split
  · rw [State.ending, State.start]
    cases walk .code 0 start ((marks text).drop start) <;> simp [Ending.toExcept]
  · rename_i houtside
    simp [ending_start_of_outside houtside]

theorem closingOffset_eq_unmatched_iff {offset : Nat} :
    closingOffset text start = .error (.unmatchedClose offset) ↔
      (State.start text start).ending = .unmatched offset := by
  unfold closingOffset
  split
  · rw [State.ending, State.start]
    cases walk .code 0 start ((marks text).drop start) <;> simp [Ending.toExcept]
  · rename_i houtside
    simp [ending_start_of_outside houtside]

/-- The answer names the place of a closing brace. -/
theorem exists_closing_ahead {offset : Nat}
    (h : closingOffset text start = .ok offset ∨
      closingOffset text start = .error (.unmatchedClose offset)) :
    ∃ rest, (marks text).drop offset = .closing :: rest := by
  obtain ⟨last, hsteps, hfinal⟩ := exists_final (State.start text start)
  have hahead := ahead_of_steps hsteps
  rw [closingOffset_eq_ok_iff, closingOffset_eq_unmatched_iff] at h
  rcases h with h | h
  · rw [h] at hfinal
    cases hfinal
    exact ⟨_, hahead.symm⟩
  · rw [h] at hfinal
    cases hfinal
    exact ⟨_, hahead.symm⟩

end

end Brace
end SourceSplit
