import SourceSplit.Proofs.Brace.Closing

/-!
# SourceSplit.Proofs.Brace.Opening

Walks that begin at an opening brace. Behind it some brace is open until the walk closes
(`keepsOpen_walk`), so such a walk never comes to a closing brace with nothing open, and where it
ends with the text some braces are left (`closingOffset_of_opening`).
-/

namespace SourceSplit
namespace Brace

open Text

/-- Some brace was open all along. -/
def Ending.KeepsOpen : Ending → Prop
  | .closed _ => True
  | .unmatched _ => False
  | .unfinished depth => 0 < depth

theorem keepsOpen_walk {depth : Nat} (h : 0 < depth) (mode : Mode) (offset : Nat)
    (ms : List Mark) : (walk mode depth offset ms).KeepsOpen := by
  fun_induction walk mode depth offset ms with
  | case1 => exact h
  | case4 depth offset rest ih => exact ih (Nat.succ_pos depth)
  | case5 => cases h
  | case6 => trivial
  | case7 depth offset rest ih => exact ih (Nat.succ_pos depth)
  -- No other mark changes the depth.
  | _ => rename_i ih; exact ih h

theorem closingOffset_of_opening {text : String} {front cs : List Char}
    (h : text.toList = front ++ '\x7b' :: cs) :
    (∃ stop, closingOffset text (byteLength front) = .ok stop) ∨
      ∃ depth, 1 ≤ depth ∧ closingOffset text (byteLength front) =
        .error (.unterminated (byteLength front) depth) := by
  have hinside : byteLength front < byteLength text.toList := by
    rw [h, byteLength_append, byteLength_cons]
    have hpos := Char.utf8Size_pos '\x7b'
    omega
  have hmarks : (marks text).drop (byteLength front) =
      .opening :: (bytes cs).map Mark.ofByte := by
    rw [← String.ofList_toList (s := text), h, drop_marks]
    rfl
  have hopen := keepsOpen_walk (Nat.succ_pos 0) .code (byteLength front + 1)
    ((bytes cs).map Mark.ofByte)
  rw [closingOffset, if_pos hinside, hmarks, walk]
  generalize walk .code 1 (byteLength front + 1) _ = ending at hopen ⊢
  cases ending with
  | closed stop => exact .inl ⟨stop, rfl⟩
  | unmatched offset => cases hopen
  | unfinished depth => exact .inr ⟨depth, hopen, rfl⟩

end Brace
end SourceSplit
