import SourceSplit.Proofs.Brace.Step

/-!
# SourceSplit.Proofs.Brace.Local

An answer of the scanner hangs on the bytes from the start to the place it names and on nothing else
(`closingOffset_local`). With more text in front and behind, the place is the same but for the text
in front. With the text cut off before that place, the braces that are open at the cut are left
open.

* `Steps.ending_take`: a walk that is cut off ends with the braces open at the cut (`DepthAt`).
* `ending_placed`: a walk that comes to a brace comes to the same brace wherever it is placed.
-/

namespace SourceSplit
namespace Brace

open Text

/-- The last state behind `a` that is no further than `cut`. -/
structure LastBefore (a : State) (cut : Nat) (b : State) : Prop where
  steps : Steps a b
  le : b.offset ≤ cut
  last : ∀ later, Steps a later → later.offset ≤ cut → later.offset ≤ b.offset

/-- At byte `cut` the walk from byte `start` has `depth` braces open. The cut may be between the
bytes of a comment sign, which the walk takes in one step. -/
def DepthAt (text : String) (start cut depth : Nat) : Prop :=
  ∃ state, LastBefore (State.start text start) cut state ∧ state.depth = depth

section

variable {a b c : State} {cut : Nat}

theorem LastBefore.unique (h : LastBefore a cut b) (h' : LastBefore a cut c) : b = c := by
  have hoffset : b.offset = c.offset :=
    Nat.le_antisymm (h'.last b h.steps h.le) (h.last c h'.steps h'.le)
  rcases h.steps.total h'.steps with hbc | hcb
  · exact hbc.eq_of_offset_eq hoffset
  · exact (hcb.eq_of_offset_eq hoffset.symm).symm

theorem DepthAt.unique {text : String} {start depth depth' : Nat}
    (h : DepthAt text start cut depth) (h' : DepthAt text start cut depth') : depth = depth' := by
  obtain ⟨state, hstate, rfl⟩ := h
  obtain ⟨state', hstate', rfl⟩ := h'
  rw [hstate.unique hstate']

/-- A walk that goes on to the cut or behind it has a state at the cut, or steps over it. -/
theorem exists_at_or_over (h : Steps a b) (hfrom : a.offset ≤ cut) (hto : cut ≤ b.offset) :
    ∃ c, Steps a c ∧ (c.offset = cut ∨ c.offset < cut ∧ ∃ d, Step c d ∧ cut < d.offset) := by
  induction h with
  | refl => exact ⟨a, .refl, .inl (Nat.le_antisymm hfrom hto)⟩
  | @tail c d hsteps hstep ih =>
    rcases Nat.lt_or_ge c.offset cut with hlt | hge
    · rcases Nat.lt_or_eq_of_le hto with hover | hat
      · exact ⟨c, hsteps, .inr ⟨hlt, d, hstep, hover⟩⟩
      · exact ⟨d, hsteps.tail hstep, .inl hat.symm⟩
    · exact ih hge

theorem lastBefore_of_over (h : Steps a b)
    (hcut : b.offset = cut ∨ b.offset < cut ∧ ∃ d, Step b d ∧ cut < d.offset) :
    LastBefore a cut b := by
  refine ⟨h, by omega, fun later hlater hle => ?_⟩
  rcases h.total hlater with hbehind | hbefore
  · rcases hcut with hat | ⟨_, d, hstep, hover⟩
    · omega
    · obtain rfl | ⟨next, hnext, hsteps⟩ := Steps.cases_head hbehind
      · exact Nat.le_refl _
      · obtain rfl := hstep.unique hnext
        have hle' := hsteps.offset_le
        omega
  · exact hbefore.offset_le

/-- Between the two marks of a comment sign the walk has only the first of them. -/
theorem Step.ending_of_over (h : Step b c) (hlt : b.offset < cut) (hover : cut < c.offset) :
    cut = b.offset + 1 ∧ ∃ mark rest, b.ahead = mark :: rest ∧
      walk b.mode b.depth b.offset [mark] = .unfinished b.depth := by
  cases h with
  | @go mode mode' depth depth' width offset mark rest hmove =>
    obtain ⟨rfl, _⟩ | ⟨rfl, _, _, hlast⟩ := move_eq_go hmove
    · simp only at hlt hover
      omega
    · simp only at hlt hover
      refine ⟨by simp only; omega, mark, rest, rfl, ?_⟩
      have hnone : move mode depth mark ([] : List Mark).head? = .go mode depth 1 := hlast
      rw [walk_cons, hnone]
      exact walk_nil _ _ _

/-- A walk that is cut off ends with the braces that are open at the cut. -/
theorem Steps.ending_take (h : Steps a c) (hfrom : a.offset ≤ cut) (hto : cut ≤ c.offset) :
    ∃ b, LastBefore a cut b ∧
      walk a.mode a.depth a.offset (a.ahead.take (cut - a.offset)) = .unfinished b.depth := by
  obtain ⟨b, hb, hcut⟩ := exists_at_or_over h hfrom hto
  refine ⟨b, lastBefore_of_over hb hcut, ?_⟩
  obtain ⟨passed, hahead, hoffset, helse⟩ := hb.passes
  rcases hcut with hat | ⟨hlt, d, hstep, hover⟩
  · have htake : a.ahead.take (cut - a.offset) = passed ++ [] := by
      rw [hahead, List.append_nil, List.take_left' (by omega)]
    have hsteps := helse a.offset [] (by simp)
    rw [htake]
    exact hsteps.ending_eq.trans (walk_nil _ _ _)
  · obtain ⟨hcut, mark, rest, hmark, hend⟩ := hstep.ending_of_over hlt hover
    have htake : a.ahead.take (cut - a.offset) = passed ++ [mark] := by
      have hlen : cut - a.offset = (passed ++ [mark]).length := by
        simp only [List.length_append, List.length_cons, List.length_nil]
        omega
      rw [hahead, hmark, hlen, List.append_cons passed mark rest, List.take_left]
    have hsteps := helse a.offset [mark] (by simp [hmark])
    rw [htake]
    rw [hoffset] at hend
    exact hsteps.ending_eq.trans hend

/-- The same walk behind more text, and with more text behind it. -/
def State.placed (state : State) (shift : Nat) (behind : List Mark) : State :=
  ⟨state.mode, state.depth, shift + state.offset, state.ahead ++ behind⟩

def Ending.placed (shift : Nat) : Ending → Ending
  | .closed offset => .closed (shift + offset)
  | .unmatched offset => .unmatched (shift + offset)
  | .unfinished depth => .unfinished depth

/-- A walk that comes to a brace comes to the same brace wherever it is placed. -/
theorem ending_placed (hbrace : ∀ depth, a.ending ≠ .unfinished depth) (shift : Nat)
    (behind : List Mark) : (a.placed shift behind).ending = a.ending.placed shift := by
  obtain ⟨last, hsteps, hfinal⟩ := exists_final a
  obtain ⟨passed, hahead, hoffset, helse⟩ := hsteps.passes
  have hplaced := helse (shift + a.offset) (last.ahead ++ behind)
  rw [← List.append_assoc, ← hahead, Nat.add_assoc, ← hoffset] at hplaced
  generalize a.ending = ending at hbrace hfinal
  cases hfinal with
  | closed => exact (hplaced fun _ => id).ending_eq
  | unmatched => exact (hplaced fun _ => id).ending_eq
  | unfinished => exact absurd rfl (hbrace _)

end

/-! ## Texts -/

theorem marks_append (front back : String) : marks (front ++ back) = marks front ++ marks back := by
  simp only [marks, String.toList_append, bytes_append, List.map_append]

/-- The walk over a text that has text in front and behind. -/
theorem start_placed {before text behind : String} {start : Nat}
    (h : start ≤ byteLength text.toList) :
    State.start (before ++ text ++ behind) (byteLength before.toList + start) =
      (State.start text start).placed (byteLength before.toList) (marks behind) := by
  rw [← length_marks] at h ⊢
  rw [State.start, State.placed, State.start, marks_append, marks_append, List.append_assoc,
    List.drop_length_add_append, List.drop_append_of_le_length h]

theorem ending_start_placed {before text behind : String} {start : Nat}
    (hbrace : ∀ depth, (State.start text start).ending ≠ .unfinished depth) :
    (State.start (before ++ text ++ behind) (byteLength before.toList + start)).ending =
      (State.start text start).ending.placed (byteLength before.toList) := by
  have hinside : start < byteLength text.toList := by
    refine Nat.lt_of_not_le fun houtside => hbrace 0 ?_
    exact ending_start_of_outside (Nat.not_lt.2 houtside)
  rw [start_placed (Nat.le_of_lt hinside), ending_placed hbrace]

/-- A text that is cut off in front of the brace that closes leaves the braces open that are open
there. -/
theorem closingOffset_of_cut {front back : String} {start stop : Nat}
    (h : closingOffset (front ++ back) start = .ok stop) (hstart : start < byteLength front.toList)
    (hstop : byteLength front.toList ≤ stop) :
    ∃ depth, DepthAt (front ++ back) start (byteLength front.toList) depth ∧
      closingOffset front start = .error (.unterminated start depth) := by
  rw [closingOffset_eq_ok_iff] at h
  obtain ⟨rest, hsteps⟩ := exists_steps_of_closed h
  obtain ⟨state, hlast, htake⟩ := hsteps.ending_take (Nat.le_of_lt hstart) hstop
  have hahead : (State.start (front ++ back) start).ahead.take (byteLength front.toList - start) =
      (marks front).drop start := by
    rw [State.start, ← length_marks, marks_append, ← List.drop_take, List.take_left]
  refine ⟨state.depth, ⟨state, hlast, rfl⟩, ?_⟩
  rw [closingOffset, if_pos hstart, ← hahead]
  exact congrArg (Ending.toExcept start) htake

/-- A brace that closes, or that closes nothing, is found wherever the text is placed; a text cut
off before the brace that closes is unterminated, with the braces open that the walk has open
there. -/
theorem closingOffset_local (before text behind : String) (start : Nat) :
    (∀ stop, closingOffset text start = .ok stop →
      closingOffset (before ++ text ++ behind) (byteLength before.toList + start) =
        .ok (byteLength before.toList + stop)) ∧
    (∀ offset, closingOffset text start = .error (.unmatchedClose offset) →
      closingOffset (before ++ text ++ behind) (byteLength before.toList + start) =
        .error (.unmatchedClose (byteLength before.toList + offset))) ∧
    ∀ stop front back, closingOffset text start = .ok stop → text = front ++ back →
      start < byteLength front.toList → byteLength front.toList ≤ stop →
      ∃ depth, (∀ d, DepthAt text start (byteLength front.toList) d ↔ d = depth) ∧
        closingOffset front start = .error (.unterminated start depth) := by
  simp only [closingOffset_eq_ok_iff, closingOffset_eq_unmatched_iff]
  refine ⟨fun stop h => ?_, fun offset h => ?_, ?_⟩
  · rw [ending_start_placed (by simp [h]), h, Ending.placed]
  · rw [ending_start_placed (by simp [h]), h, Ending.placed]
  · rintro stop front back h rfl hstart hstop
    rw [← closingOffset_eq_ok_iff] at h
    obtain ⟨depth, hdepth, hcut⟩ := closingOffset_of_cut h hstart hstop
    refine ⟨depth, fun d => ⟨fun hd => hd.unique hdepth, ?_⟩, hcut⟩
    rintro rfl
    exact hdepth

/-- Braces inside braces, with text around them, and a cut in the middle. -/
theorem closingOffset_local_sample :
    closingOffset ("é" ++ "\x7b\x7b\x7d\x7d" ++ "\x7d") (2 + 0) = .ok (2 + 3) ∧
      closingOffset ("é" ++ "\x7d" ++ "\x7b") (2 + 0) = .error (.unmatchedClose (2 + 0)) ∧
      (∀ depth, DepthAt "\x7b\x7b\x7d\x7d" 0 2 depth ↔ depth = 2) ∧
      closingOffset "\x7b\x7b" 0 = .error (.unterminated 0 2) := by
  have hclosed : closingOffset "\x7b\x7b\x7d\x7d" 0 = .ok 3 := rfl
  have hcut : closingOffset "\x7b\x7b" 0 = .error (.unterminated 0 2) := rfl
  refine ⟨(closingOffset_local "é" _ "\x7d" 0).1 3 hclosed,
    (closingOffset_local "é" "\x7d" "\x7b" 0).2.1 0 rfl, ?_, hcut⟩
  obtain ⟨depth, hdepth, hopen⟩ := (closingOffset_local "" "\x7b\x7b\x7d\x7d" "" 0).2.2 3
    "\x7b\x7b" "\x7d\x7d" hclosed rfl (by decide) (by decide)
  rw [hcut, Except.error.injEq, Fault.unterminated.injEq] at hopen
  rwa [← hopen.2] at hdepth

/-- A comment sign may be cut in two: what is left of it is text. -/
example : closingOffset "\x7b/*\x7d*/\x7d" 0 = .ok 6 ∧
    closingOffset "\x7b/" 0 = .error (.unterminated 0 1) :=
  ⟨rfl, rfl⟩

end Brace
end SourceSplit
