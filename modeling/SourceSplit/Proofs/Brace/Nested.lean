import SourceSplit.Proofs.Brace.Step
import SourceSplit.Proofs.Brace.Token

/-!
# SourceSplit.Proofs.Brace.Nested

Brace structures inside one another. A brace that opens inside a structure, in code, closes inside
it (`Inner.closes`), and two such braces close one inside the other or one before the other
(`Inner.apart_or_inside`).

The walk from an inner brace and the walk that comes by it from outside take the same steps, the one
with fewer braces open than the other (`State.raise`), until the inner brace closes.
-/

namespace SourceSplit
namespace Brace

open Text

/-- The same state with more braces open. -/
def State.raise (state : State) (more : Nat) : State :=
  ⟨state.mode, state.depth + more, state.offset, state.ahead⟩

section

variable {a b c : State} {more stop : Nat}

theorem Step.raise (h : Step a b) (more : Nat) : Step (a.raise more) (b.raise more) := by
  cases h with
  | go hmove => exact .go (move_raise hmove more)

theorem Steps.raise (h : Steps a b) (more : Nat) : Steps (a.raise more) (b.raise more) :=
  Relation.ReflTransGen.lift (State.raise · more) (fun _ _ hstep => hstep.raise more) _ _ h

/-- As far as a walk goes, the walk with more braces open goes along with it. -/
theorem Steps.of_raise (h : Steps a b) (h' : Steps (a.raise more) c) (hle : c.offset ≤ b.offset) :
    ∃ d, Steps a d ∧ c = d.raise more := by
  induction h using Relation.ReflTransGen.head_induction_on with
  | refl => exact ⟨b, .refl, (h'.eq_of_offset_eq (Nat.le_antisymm h'.offset_le hle)).symm⟩
  | head hstep _ ih =>
    obtain rfl | ⟨next, hnext, hsteps⟩ := h'.cases_head
    · exact ⟨_, .refl, rfl⟩
    · obtain rfl := (hstep.raise more).unique hnext
      obtain ⟨d, hd, rfl⟩ := ih hsteps
      exact ⟨d, .head hstep hd, rfl⟩

theorem offset_le_of_closed (h : a.ending = .closed stop) : a.offset ≤ stop := by
  obtain ⟨rest, hsteps⟩ := exists_steps_of_closed h
  exact hsteps.offset_le

/-- If the walk closes with more braces open, then the braces that are open without them close
before. -/
theorem closes_of_raise (hopen : 0 < a.depth) (hmore : 0 < more)
    (h : (a.raise more).ending = .closed stop) :
    ∃ stop', a.ending = .closed stop' ∧ a.offset ≤ stop' ∧ stop' < stop := by
  obtain ⟨last, hsteps, hfinal⟩ := exists_final a
  rw [(hsteps.raise more).ending_eq] at h
  have hdepth := hsteps.depth_pos hopen
  have hoffset := hsteps.offset_le
  generalize a.ending = ending at hfinal
  cases hfinal with
  | @closed offset rest =>
    refine ⟨offset, rfl, hoffset, ?_⟩
    -- The brace that closes with nothing else open is passed where `more` braces are open.
    obtain ⟨left, rfl⟩ := Nat.exists_eq_succ_of_ne_zero (Nat.ne_of_gt hmore)
    have hnext : (⟨.code, left + 1, offset + 1, rest⟩ : State).ending = .closed stop := by
      rw [← h, State.ending, State.ending, State.raise, Nat.add_comm 1, walk]
    exact offset_le_of_closed hnext
  | unmatched => exact absurd hdepth (Nat.lt_irrefl 0)
  | unfinished =>
    rw [State.ending, State.raise, walk_nil] at h
    cases h

end

/-! ## Braces of a text -/

/-- An opening brace stands at byte `offset`. -/
def BraceAt (text : String) (offset : Nat) : Prop :=
  (bytes text.toList)[offset]? = some Byte.opening

/-- The walk from byte `start` comes to byte `offset` in code. -/
def InCode (text : String) (start offset : Nat) : Prop :=
  ∃ state, Steps (State.start text start) state ∧ state.offset = offset ∧ state.mode = .code

/-- An opening brace that stands in code between the braces at `start` and `stop`. -/
structure Inner (text : String) (start stop offset : Nat) : Prop where
  behind : start < offset
  before : offset < stop
  brace : BraceAt text offset
  code : InCode text start offset

section

variable {text : String} {start stop offset : Nat}

theorem marks_of_brace (h : BraceAt text offset) :
    (marks text).drop offset = .opening :: (marks text).drop (offset + 1) := by
  obtain ⟨hlt, hbyte⟩ := List.getElem?_eq_some_iff.1 h
  rw [List.drop_eq_getElem_cons (by rw [marks, List.length_map]; exact hlt)]
  simp only [marks, List.getElem_map, hbyte]
  rfl

theorem step_of_brace (h : BraceAt text offset) :
    Step (State.start text offset) ⟨.code, 1, offset + 1, (marks text).drop (offset + 1)⟩ := by
  rw [State.start, marks_of_brace h]
  exact .go rfl

/-- A state in code is where the walk from its own byte starts, but for the braces open. -/
theorem eq_raise_of_code {state : State} (h : Steps (State.start text start) state)
    (hcode : state.mode = .code) :
    state = (State.start text state.offset).raise state.depth := by
  have hahead := ahead_of_steps h
  obtain ⟨mode, depth, offset, ahead⟩ := state
  obtain rfl : mode = .code := hcode
  obtain rfl : ahead = (marks text).drop offset := hahead
  rw [State.raise, State.start, Nat.zero_add]

/-- The walk comes by an inner brace with some braces open. -/
theorem Inner.exists_raise (hstart : BraceAt text start) (h : Inner text start stop offset) :
    ∃ depth, 0 < depth ∧
      Steps (State.start text start) ((State.start text offset).raise depth) := by
  obtain ⟨state, hsteps, rfl, hcode⟩ := h.code
  refine ⟨state.depth, ?_, by rw [← eq_raise_of_code hsteps hcode]; exact hsteps⟩
  obtain heq | ⟨next, hnext, hrest⟩ := hsteps.cases_head
  · have hoffset : start = state.offset := congrArg State.offset heq
    have hbehind := h.behind
    omega
  · obtain rfl := (step_of_brace hstart).unique hnext
    exact hrest.depth_pos Nat.one_pos

/-- An inner brace closes before the brace around it. -/
theorem Inner.closes (hstart : BraceAt text start) (hstop : closingOffset text start = .ok stop)
    (h : Inner text start stop offset) :
    ∃ stop', closingOffset text offset = .ok stop' ∧ offset < stop' ∧ stop' < stop := by
  rw [closingOffset_eq_ok_iff] at hstop
  obtain ⟨depth, hdepth, hsteps⟩ := h.exists_raise hstart
  have hinner := step_of_brace h.brace
  rw [hsteps.ending_eq, (hinner.raise depth).ending_eq] at hstop
  obtain ⟨stop', hclosed, hle, hlt⟩ := closes_of_raise Nat.one_pos hdepth hstop
  refine ⟨stop', ?_, hle, hlt⟩
  rw [closingOffset_eq_ok_iff, hinner.ending_eq, hclosed]

/-- Where a structure closes no other one opens. -/
theorem ne_of_closed (hstop : closingOffset text start = .ok stop) (h : BraceAt text offset) :
    offset ≠ stop := by
  rintro rfl
  obtain ⟨rest, hclosing⟩ := exists_closing_ahead (.inl hstop)
  rw [marks_of_brace h] at hclosing
  cases hclosing

/-- Of two inner braces, the later one closes inside the earlier one or opens behind it. -/
theorem Inner.apart_or_inside {offset' close close' : Nat} (hstart : BraceAt text start)
    (h : Inner text start stop offset) (h' : Inner text start stop offset')
    (hlt : offset < offset') (hclose : closingOffset text offset = .ok close)
    (hclose' : closingOffset text offset' = .ok close') : close < offset' ∨ close' < close := by
  rcases Nat.lt_or_ge close offset' with happart | hle
  · exact .inl happart
  · right
    have hbefore : offset' < close := Nat.lt_of_le_of_ne hle (ne_of_closed hclose h'.brace)
    obtain ⟨depth, _, hsteps⟩ := h.exists_raise hstart
    obtain ⟨depth', _, hsteps'⟩ := h'.exists_raise hstart
    -- The walk from outside comes by both braces, and so does the walk from the first of them.
    have hbetween : Steps ((State.start text offset).raise depth)
        ((State.start text offset').raise depth') := by
      rcases hsteps.total hsteps' with hbetween | hback
      · exact hbetween
      · exact absurd hback.offset_le (Nat.not_le.2 hlt)
    obtain ⟨rest, hlast⟩ := exists_steps_of_closed (closingOffset_eq_ok_iff.1 hclose)
    obtain ⟨state, hstate, heq⟩ := hlast.of_raise hbetween hle
    have hcode : InCode text offset offset' :=
      ⟨state, hstate, (congrArg State.offset heq).symm, (congrArg State.mode heq).symm⟩
    obtain ⟨stop', hstop', _, hinside⟩ :=
      Inner.closes h.brace hclose ⟨hlt, hbefore, h'.brace, hcode⟩
    rw [hclose'] at hstop'
    cases hstop'
    exact hinside

end

end Brace
end SourceSplit
