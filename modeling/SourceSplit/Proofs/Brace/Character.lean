import SourceSplit.Proofs.Brace.Closing

/-!
# SourceSplit.Proofs.Brace.Character

The walk over bytes against the one over whole characters (`walkChars`). In a string, a backslash
takes along one byte in the first and one character in the second, and inside a character of several
bytes the two are out of step; but only the first byte of a character can have a meaning
(`marks_char`), so that the bytes behind it change nothing (`walk_char`) and both walks end alike
(`walk_bytes`). Braces are found between two characters even by a walk that starts inside one
(`closingOffset_by_chars`).
-/

namespace SourceSplit
namespace Brace

open Text

/-- The walk over whole characters from byte `offset` on. In a string, a backslash takes the
character behind it along. -/
def walkChars : Mode → (depth offset : Nat) → List Char → Ending
  | _, depth, _, [] => .unfinished depth
  | .code, depth, offset, '/' :: '*' :: cs => walkChars .comment depth (offset + 2) cs
  | .code, depth, offset, '"' :: cs => walkChars (.string false) depth (offset + 1) cs
  | .code, depth, offset, '\x7b' :: cs => walkChars .code (depth + 1) (offset + 1) cs
  | .code, 0, offset, '\x7d' :: _ => .unmatched offset
  | .code, 1, offset, '\x7d' :: _ => .closed offset
  | .code, depth + 2, offset, '\x7d' :: cs => walkChars .code (depth + 1) (offset + 1) cs
  | .code, depth, offset, c :: cs => walkChars .code depth (offset + c.utf8Size) cs
  | .string true, depth, offset, c :: cs =>
    walkChars (.string false) depth (offset + c.utf8Size) cs
  | .string false, depth, offset, '\\' :: cs => walkChars (.string true) depth (offset + 1) cs
  | .string false, depth, offset, '"' :: cs => walkChars .code depth (offset + 1) cs
  | .string false, depth, offset, c :: cs =>
    walkChars (.string false) depth (offset + c.utf8Size) cs
  | .comment, depth, offset, '*' :: '/' :: cs => walkChars .code depth (offset + 2) cs
  | .comment, depth, offset, c :: cs => walkChars .comment depth (offset + c.utf8Size) cs

/-! ## The marks of a character -/

/-- What a character means to the walk. -/
def Mark.ofChar (c : Char) : Mark :=
  if c = '/' then .slash
  else if c = '*' then .star
  else if c = '"' then .quote
  else if c = '\\' then .backslash
  else if c = '\x7b' then .opening
  else if c = '\x7d' then .closing
  else .other

section

variable {c d : Char} {mode mode' : Mode} {depth : Nat}

theorem ofByte_toUInt8 (hc : c.utf8Size = 1) : Mark.ofByte c.val.toUInt8 = Mark.ofChar c := by
  have hall : ∀ n < 128, Mark.ofByte (Char.ofNat n).val.toUInt8 = Mark.ofChar (Char.ofNat n) := by
    decide
  have hlt := Nat.lt_succ_of_le (utf8Size_eq_one_iff.1 hc)
  have hchar := hall c.toNat hlt
  rwa [Char.ofNat_toNat] at hchar

/-- The characters that have a meaning. -/
theorem sign_of_ofChar (h : Mark.ofChar c ≠ .other) :
    c = '/' ∨ c = '*' ∨ c = '"' ∨ c = '\\' ∨ c = '\x7b' ∨ c = '\x7d' := by
  unfold Mark.ofChar at h
  grind

theorem utf8Size_of_ofChar (h : Mark.ofChar c ≠ .other) : c.utf8Size = 1 := by
  rcases sign_of_ofChar h with rfl | rfl | rfl | rfl | rfl | rfl <;> rfl

theorem ofByte_of_high {b : UInt8} (h : 127 < b.toNat) : Mark.ofByte b = .other := by
  refine Decidable.byContradiction fun hne => ?_
  have hsign : b = 0x2F ∨ b = 0x2A ∨ b = 0x22 ∨ b = 0x5C ∨ b = 0x7B ∨ b = 0x7D := by
    unfold Mark.ofByte at hne
    grind
  rcases hsign with rfl | rfl | rfl | rfl | rfl | rfl <;> exact absurd h (by decide)

/-- A character with a meaning is known by its mark. -/
theorem eq_of_ofChar_eq (h : Mark.ofChar c = Mark.ofChar d) (hd : Mark.ofChar d ≠ .other) :
    c = d := by
  rcases sign_of_ofChar hd with rfl | rfl | rfl | rfl | rfl | rfl <;>
    (unfold Mark.ofChar at h; grind)

/-- Only the first byte of a character can have a meaning. -/
theorem marks_char (c : Char) :
    (String.utf8EncodeChar c).map Mark.ofByte =
      Mark.ofChar c :: List.replicate (c.utf8Size - 1) .other := by
  by_cases hc : c.utf8Size = 1
  · rw [String.utf8EncodeChar_eq_singleton hc, hc, List.map_singleton, ofByte_toUInt8 hc]
    rfl
  · have hother : Mark.ofChar c = .other :=
      Decidable.byContradiction fun hne => hc (utf8Size_of_ofChar hne)
    have hpos := Char.utf8Size_pos c
    rw [hother, ← List.replicate_succ, Nat.sub_add_cancel hpos, List.eq_replicate_iff,
      List.length_map, String.length_utf8EncodeChar, List.forall_mem_map]
    refine ⟨rfl, fun b hb => ofByte_of_high (Nat.lt_of_not_le fun hlow => ?_)⟩
    exact hc (utf8Size_eq_one_of_mem hb hlow)

/-- The marks behind the first one of a character: those of its other bytes, and of the text. -/
def marksBehind (c : Char) (cs : List Char) : List Mark :=
  List.replicate (c.utf8Size - 1) .other ++ (bytes cs).map Mark.ofByte

theorem map_bytes_cons (c : Char) (cs : List Char) :
    (bytes (c :: cs)).map Mark.ofByte = Mark.ofChar c :: marksBehind c cs := by
  rw [bytes_cons, List.map_append, marks_char, List.cons_append, marksBehind]

/-- What stands behind a character that has a meaning is the next character. -/
theorem head?_marksBehind {cs : List Char} {next : Mark} (hc : Mark.ofChar c ≠ .other)
    (h : (marksBehind c cs).head? = some next) :
    ∃ d rest, cs = d :: rest ∧ Mark.ofChar d = next := by
  rw [marksBehind, utf8Size_of_ofChar hc, Nat.sub_self, List.replicate_zero, List.nil_append] at h
  cases cs with
  | nil => cases h
  | cons d rest =>
    rw [map_bytes_cons] at h
    exact ⟨d, rest, rfl, Option.some.inj h⟩

/-- Marks without a meaning are passed, except that the first one may be what a backslash takes. -/
theorem walk_others (hmode : mode ≠ .string true) (depth offset n : Nat) (rest : List Mark) :
    walk mode depth offset (List.replicate n .other ++ rest) =
      walk mode depth (offset + n) rest := by
  induction n generalizing offset with
  | zero => rfl
  | succ n ih =>
    have hmove : ∀ next, move mode depth .other next = .go mode depth 1 := by
      intro next
      rcases mode with _ | escaped | _
      · rfl
      · cases escaped with
        | false => rfl
        | true => exact absurd rfl hmode
      · rfl
    rw [List.replicate_succ, List.cons_append, walk_cons, hmove]
    simp only [List.drop_one, List.tail_cons]
    rw [ih, Nat.add_assoc, Nat.add_comm 1]

/-- A character that is passed as one mark is passed with all its bytes. -/
theorem walk_char {cs : List Char} (hmode : mode' ≠ .string true)
    (hmove : move mode depth (Mark.ofChar c) (marksBehind c cs).head? = .go mode' depth 1)
    (offset : Nat) :
    walk mode depth offset ((bytes (c :: cs)).map Mark.ofByte) =
      walk mode' depth (offset + c.utf8Size) ((bytes cs).map Mark.ofByte) := by
  have hpos := Char.utf8Size_pos c
  rw [map_bytes_cons, walk_cons, hmove]
  simp only [List.drop_one, List.tail_cons]
  rw [marksBehind, walk_others hmode]
  congr 1
  omega

end

/-! ## The walks compared -/

theorem move_code_char (depth : Nat) {cs : List Char}
    (hcomment : ∀ rest, c = '/' → cs ≠ '*' :: rest) (hquote : c ≠ '"') (hopening : c ≠ '\x7b')
    (hclosing : c ≠ '\x7d') :
    move .code depth (Mark.ofChar c) (marksBehind c cs).head? = .go .code depth 1 := by
  rw [move]
  · exact fun h => hquote (eq_of_ofChar_eq h (by decide))
  · exact fun h => hopening (eq_of_ofChar_eq h (by decide))
  · exact fun _ h => hclosing (eq_of_ofChar_eq h (by decide))
  · exact fun _ h => hclosing (eq_of_ofChar_eq h (by decide))
  · exact fun _ _ h => hclosing (eq_of_ofChar_eq h (by decide))
  · intro hslash hstar
    obtain ⟨d, rest, rfl, hd⟩ := head?_marksBehind (by rw [hslash]; decide) hstar
    obtain rfl : c = '/' := eq_of_ofChar_eq hslash (by decide)
    obtain rfl : d = '*' := eq_of_ofChar_eq hd (by decide)
    exact hcomment rest rfl rfl

/-- The bytes of a text are walked to the same end as its characters. The induction follows the
characters; a character without a meaning is passed byte by byte. -/
theorem walk_bytes (mode : Mode) (depth offset : Nat) (cs : List Char) :
    walk mode depth offset ((bytes cs).map Mark.ofByte) = walkChars mode depth offset cs := by
  fun_induction walkChars mode depth offset cs with
  | case1 => exact walk_nil _ _ _
  | case2 depth offset cs ih => exact ih
  | case3 depth offset cs ih => exact ih
  | case4 depth offset cs ih => exact ih
  | case5 => rfl
  | case6 => rfl
  | case7 depth offset cs ih => exact ih
  | case8 depth offset c cs hcomment hquote hopening hzero hone hmore ih =>
    have hclosing : c ≠ '\x7d' := by
      rcases depth with _ | _ | depth
      · exact hzero rfl
      · exact hone rfl
      · exact hmore depth rfl
    have hmove := move_code_char depth hcomment hquote hopening hclosing
    exact (walk_char (by decide) hmove offset).trans ih
  | case9 depth offset c cs ih => exact (walk_char (by decide) rfl offset).trans ih
  | case10 depth offset cs ih => exact ih
  | case11 depth offset cs ih => exact ih
  | case12 depth offset c cs hbackslash hquote ih =>
    refine (walk_char (by decide) ?_ offset).trans ih
    rw [move]
    · exact fun h => hbackslash (eq_of_ofChar_eq h (by decide))
    · exact fun h => hquote (eq_of_ofChar_eq h (by decide))
  | case13 depth offset cs ih => exact ih
  | case14 depth offset c cs hcomment ih =>
    refine (walk_char (by decide) ?_ offset).trans ih
    rw [move]
    intro hstar hslash
    obtain ⟨d, rest, rfl, hd⟩ := head?_marksBehind (by rw [hstar]; decide) hslash
    obtain rfl : c = '*' := eq_of_ofChar_eq hstar (by decide)
    obtain rfl : d = '/' := eq_of_ofChar_eq hd (by decide)
    exact hcomment rest rfl rfl

/-- The answer of the walk over whole characters that begins between two of them. -/
def closingOffsetByChars (front cs : List Char) : Except Fault Nat :=
  match cs with
  | [] => .error (.startOutside (byteLength front) (byteLength front))
  | cs => (walkChars .code 0 (byteLength front) cs).toExcept (byteLength front)

theorem closingOffset_append (front cs : List Char) :
    closingOffset (String.ofList (front ++ cs)) (byteLength front) =
      closingOffsetByChars front cs := by
  unfold closingOffset closingOffsetByChars
  rw [String.toList_ofList, byteLength_append, drop_marks, walk_bytes]
  cases cs with
  | nil => rw [if_neg (by simp), byteLength_nil, Nat.add_zero]
  | cons c cs =>
    have hpos := Char.utf8Size_pos c
    rw [if_pos (by rw [byteLength_cons]; omega)]

/-- A closing brace among the bytes of a text is one of its characters. -/
theorem exists_char_of_closing {text : String} {offset : Nat} {rest : List Mark}
    (h : (marks text).drop offset = .closing :: rest) :
    ∃ front back, text.toList = front ++ '\x7d' :: back ∧ byteLength front = offset := by
  rw [marks, ← List.map_drop] at h
  obtain ⟨b, after, hdrop, hb, _⟩ := List.map_eq_cons_iff.1 h
  rw [ofByte_eq_closing_iff] at hb
  subst hb
  have hlt : offset < (bytes text.toList).length := by
    refine Nat.lt_of_not_le fun hle => ?_
    rw [List.drop_eq_nil_of_le hle] at hdrop
    cases hdrop
  have hbytes : bytes text.toList = (bytes text.toList).take offset ++ 0x7D :: after := by
    rw [← hdrop, List.take_append_drop]
  obtain ⟨front, back, htext, hfront, _⟩ := exists_char_of_byte (d := '\x7d') (by decide) hbytes
  refine ⟨front, back, htext, ?_⟩
  rw [← length_bytes, hfront, List.length_take, Nat.min_eq_left (Nat.le_of_lt hlt)]

/-- From between two characters, the answer is that of the walk over characters; from anywhere, the
brace it names is a character of its own. -/
theorem closingOffset_by_chars (text : String) (start : Nat) :
    (∀ front cs, text.toList = front ++ cs → start = byteLength front →
      closingOffset text start = closingOffsetByChars front cs) ∧
    ∀ offset, closingOffset text start = .ok offset ∨
        closingOffset text start = .error (.unmatchedClose offset) →
      (charsAt? offset text.toList).isSome ∧ (charsAt? (offset + 1) text.toList).isSome := by
  constructor
  · rintro front cs htext rfl
    rw [← closingOffset_append, ← htext, String.ofList_toList]
  · intro offset h
    obtain ⟨rest, hclosing⟩ := exists_closing_ahead h
    obtain ⟨front, back, htext, rfl⟩ := exists_char_of_closing hclosing
    refine ⟨isSome_charsAt? front ('\x7d' :: back) htext rfl, ?_⟩
    refine isSome_charsAt? (front ++ ['\x7d']) back (by rw [htext]; simp) ?_
    rw [byteLength_append]
    rfl

/-- The backslash takes along the first byte of `ü`, and the quote behind it ends the string. -/
example : closingOffset "\x7b\"\\ü\"\x7d" 0 = .ok 6 := rfl

end Brace
end SourceSplit
