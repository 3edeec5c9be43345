import SourceSplit.Proofs.Report.Grammar

/-!
# SourceSplit.Proofs.Report.Printed

The printed text of a value spells the value, and no other (`spells_pretty_iff`).
-/

namespace SourceSplit
namespace Report
namespace Grammar

open Json (escaped quoted newline elementChars memberChars)

/-! ## Numbers and strings -/

section

variable {c : Char} {n : Nat} {cs rest : List Char}

theorem head?_toDigits (hn : 0 < n) : (Nat.toDigits 10 n).head? ≠ some '0' := by
  induction n using Nat.strongRecOn with
  | ind n ih =>
    by_cases hlt : n < 10
    · have hdigit : ∀ n < 10, 0 < n → Nat.digitChar n ≠ '0' := by decide
      rw [Nat.toDigits_of_lt_base hlt]
      exact fun hc => hdigit n hlt hn (Option.some.inj hc)
    · rw [Nat.toDigits_of_base_le (by decide) (Nat.le_of_not_lt hlt), List.head?_append]
      have hfront := ih (n / 10) (by omega) (by omega)
      cases hh : (Nat.toDigits 10 (n / 10)).head? with
      | none => exact absurd (List.head?_eq_none_iff.1 hh) Nat.toDigits_ne_nil
      | some c =>
        rw [hh] at hfront
        exact hfront

theorem whole_toDigits (n : Nat) : Whole (Nat.toDigits 10 n ++ rest) (Nat.toDigits 10 n) rest where
  text_eq := rfl
  all _ hc := Nat.isDigit_of_mem_toDigits (by decide) (by decide) hc
  ne_nil := Nat.toDigits_ne_nil
  zero hhead := by
    rcases Nat.eq_zero_or_pos n with rfl | hn
    · rfl
    · exact absurd hhead (head?_toDigits hn)

theorem numeral_toDigits (n : Nat) : Numeral (Nat.toDigits 10 n ++ rest) n 0 rest := by
  have hwhole : Whole (Nat.toDigits 10 n ++ rest) (Nat.toDigits 10 n) rest := whole_toDigits n
  have hplus : (Nat.toDigits 10 n ++ rest).head? ≠ some '+' := by
    intro hhead
    cases hd : Nat.toDigits 10 n with
    | nil => exact Nat.toDigits_ne_nil hd
    | cons d ds =>
      rw [hd] at hhead hwhole
      obtain rfl := Option.some.inj hhead
      exact absurd hwhole.head (by decide)
  have h := Numeral.mk hplus .none hwhole .none .none
  rwa [List.append_nil, Nat.ofDigitChars_toDigits (by decide) (by decide), Int.one_mul,
    List.length_nil, Int.natCast_zero, Int.sub_zero] at h

theorem unit?_control :
    ∀ n < 0x20, unit? '0' '0' (Nat.digitChar (n / 16)) (Nat.digitChar (n % 16)) = some n := by
  decide +kernel

theorem writes_escaped (c : Char) : Writes (escaped c ++ rest) c rest := by
  unfold escaped
  -- the characters that have a letter to stand for them, one after the other
  iterate 7
    split
    · rename_i heq
      subst heq
      exact .letter (by decide)
  split
  · rename_i hcontrol
    exact .unit (unit?_control c.toNat hcontrol)
  · rename_i hquote hback _ _ _ _ _ hplain
    exact .plain (Nat.le_of_not_lt hplain) hquote hback

theorem quoted_escaped (cs : List Char) : Quoted (cs.flatMap escaped ++ '"' :: rest) cs rest := by
  induction cs with
  | nil => exact .close
  | cons c cs ih =>
    rw [List.flatMap_cons, List.append_assoc]
    exact .char (writes_escaped c) ih

end

/-! ## Values -/

section

variable {rest : List Char}

theorem blanks_newline (level : Nat) : Blanks (newline level ++ rest) rest := by
  refine ⟨newline level, rfl, fun c hc => ?_⟩
  rcases List.mem_cons.1 hc with rfl | hc
  · decide
  · rw [List.eq_of_mem_replicate hc]
    decide

theorem quoted_eq (text : String) :
    quoted text ++ rest = '"' :: (text.toList.flatMap escaped ++ '"' :: rest) := by
  rw [quoted, List.append_assoc]
  rfl

/-- A member on a line of its own. -/
theorem reads_member {value behind : List Char} {json : Json} (level : Nat) (name : String)
    (hvalue : Reads .value value json behind) (hbehind : Blanks behind rest) :
    Reads .member (newline level ++ (quoted name ++ ':' :: ' ' :: value)) (name, json) rest := by
  rw [quoted_eq]
  have hspace : Blanks (' ' :: value) value := ⟨[' '], rfl, List.forall_mem_singleton.2 (by decide)⟩
  exact .member (blanks_newline level) (quoted_escaped name.toList) .refl
    (.item hspace hvalue hbehind)

mutual

theorem reads_chars (level : Nat) :
    ∀ (json : Json) (rest : List Char), Reads .value (json.chars level ++ rest) json rest
  | .null, _ => .nullName
  | .bool true, _ => .trueName
  | .bool false, _ => .falseName
  | .number n, rest => .number (numeral_toDigits n) rfl
  | .text string, rest => by
    rw [Json.chars, quoted_eq]
    exact .text (quoted_escaped string.toList)
  | .array [], rest => .emptyArray .refl
  | .array (first :: others), rest => by
    obtain ⟨mid, hblanks, hothers⟩ :=
      reads_elementChars (level + 1) level others (']' :: rest)
    have hfirst := Reads.item (blanks_newline (level + 1)) (reads_chars (level + 1) first _) hblanks
    have h := Reads.array hfirst hothers
    simpa only [Json.chars, List.cons_append, List.append_assoc, List.nil_append] using h
  | .object [], rest => .emptyObject .refl
  | .object ((name, first) :: others), rest => by
    obtain ⟨mid, hblanks, hothers⟩ :=
      reads_memberChars (level + 1) level others ('\x7d' :: rest)
    have hfirst := reads_member (level + 1) name (reads_chars (level + 1) first _) hblanks
    have h := Reads.object hfirst hothers
    simpa only [Json.chars, List.cons_append, List.append_assoc, List.nil_append] using h

/-- The line that closes the array is either behind the last element or, if there is none, behind
what stands before it. -/
theorem reads_elementChars (level outer : Nat) :
    ∀ (elements : List Json) (rest : List Char), ∃ mid,
      Blanks (elementChars level elements ++ (newline outer ++ rest)) mid ∧
        Reads .items mid elements rest
  | [], rest => ⟨rest, blanks_newline outer, .noItems⟩
  | element :: others, rest => by
    obtain ⟨mid, hblanks, hothers⟩ := reads_elementChars level outer others rest
    have hfirst := Reads.item (blanks_newline level) (reads_chars level element _) hblanks
    refine ⟨_, .refl, ?_⟩
    have h := Reads.items hfirst hothers
    simpa only [elementChars, List.cons_append, List.append_assoc] using h

theorem reads_memberChars (level outer : Nat) :
    ∀ (members : List (String × Json)) (rest : List Char), ∃ mid,
      Blanks (memberChars level members ++ (newline outer ++ rest)) mid ∧
        Reads .members mid members rest
  | [], rest => ⟨rest, blanks_newline outer, .noMembers⟩
  | (name, value) :: others, rest => by
    obtain ⟨mid, hblanks, hothers⟩ := reads_memberChars level outer others rest
    have hfirst := reads_member level name (reads_chars level value _) hblanks
    refine ⟨_, .refl, ?_⟩
    have h := Reads.members hfirst hothers
    simpa only [memberChars, List.cons_append, List.append_assoc, List.nil_append] using h

end

theorem spells_pretty_iff {json other : Json} : Spells json.pretty other ↔ other = json := by
  have h : Spells json.pretty json := by
    have hvalue := reads_chars 0 json []
    rw [List.append_nil] at hvalue
    rw [Spells, Json.pretty, String.toList_ofList]
    exact .item .refl hvalue .refl
  constructor
  · intro hother
    exact hother.unique h
  · rintro rfl
    exact h

end

end Grammar
end Report
end SourceSplit
