import SourceSplit.Proofs.Brace.Step
import SourceSplit.Proofs.Text.Ascii

/-!
# SourceSplit.Proofs.Brace.Closing

Where a walk closes there stands a closing brace, and what comes behind that brace is nothing to
the walk (`closes_of_walk`). So a text can be cut behind the brace that closes, and put behind
another text, and the walk finds the same brace (`exists_closing`).
-/

namespace SourceSplit
namespace Brace

open Text

/-- The walk over `ms` closes at the brace behind `pre`, and would whatever came then. -/
structure Closes (mode : Mode) (depth : Nat) (ms pre : List Mark) : Prop where
  brace : ∃ post, ms = pre ++ .closing :: post
  walk : ∀ start rest, walk mode depth start (pre ++ .closing :: rest) = .closed (start + pre.length)

section

variable {mode : Mode} {depth offset stop : Nat} {ms : List Mark}

theorem closes_of_walk (h : walk mode depth offset ms = .closed stop) :
    ∃ pre, stop = offset + pre.length ∧ Closes mode depth ms pre := by
  obtain ⟨post, hsteps⟩ := exists_steps_of_closed (a := ⟨mode, depth, offset, ms⟩) h
  obtain ⟨pre, hahead, hstop, helse⟩ := hsteps.passes
  refine ⟨pre, hstop, ⟨_, hahead⟩, fun start rest => ?_⟩
  exact (helse start (.closing :: rest) fun _ => id).ending_eq

theorem ofByte_eq_closing_iff {b : UInt8} : Mark.ofByte b = .closing ↔ b = 0x7D := by
  unfold Mark.ofByte
  grind

/-- The marks of a text from the end of its first part on. -/
theorem drop_marks (front cs : List Char) :
    (marks (String.ofList (front ++ cs))).drop (byteLength front) =
      (bytes cs).map Mark.ofByte := by
  rw [marks, String.toList_ofList, bytes_append, List.map_append, ← length_bytes,
    List.drop_left' (List.length_map _)]

/-- The structure that begins behind `front` closes with a brace of the text, and so does it
wherever it stands and whatever is behind that brace. -/
theorem exists_closing {front cs : List Char}
    (h : closingOffset (String.ofList (front ++ cs)) (byteLength front) = .ok stop) :
    ∃ body rest, cs = body ++ '\x7d' :: rest ∧ stop = byteLength front + byteLength body ∧
      ∀ front' rest', closingOffset (String.ofList (front' ++ (body ++ '\x7d' :: rest')))
        (byteLength front') = .ok (byteLength front' + byteLength body) := by
  unfold closingOffset at h
  split at h
  · rw [drop_marks] at h
    have hwalk : walk .code 0 (byteLength front) ((bytes cs).map Mark.ofByte) = .closed stop := by
      generalize walk .code 0 (byteLength front) ((bytes cs).map Mark.ofByte) = ending at h ⊢
      cases ending <;> cases h
      rfl
    obtain ⟨pre, rfl, ⟨post, hms⟩, hcloses⟩ := closes_of_walk hwalk
    obtain ⟨before, behind, hbytes, rfl, hbehind⟩ := List.map_eq_append_iff.1 hms
    obtain ⟨b, after, rfl, hb, rfl⟩ := List.map_eq_cons_iff.1 hbehind
    rw [ofByte_eq_closing_iff] at hb
    subst hb
    obtain ⟨body, rest, rfl, rfl, rfl⟩ := exists_char_of_byte (d := '\x7d') (by decide) hbytes
    refine ⟨body, rest, rfl, by rw [List.length_map, length_bytes], fun front' rest' => ?_⟩
    have hbyte : bytes (body ++ '\x7d' :: rest') = bytes body ++ 0x7D :: bytes rest' := by
      rw [bytes_append]
      rfl
    unfold closingOffset
    rw [drop_marks, if_pos, hbyte, List.map_append, List.map_cons, ofByte_eq_closing_iff.2 rfl,
      hcloses, List.length_map, length_bytes]
    · rfl
    · simp only [String.toList_ofList, byteLength_append, byteLength_cons]
      have := Char.utf8Size_pos '\x7d'
      omega
  · cases h

end

end Brace
end SourceSplit
