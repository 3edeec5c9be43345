import SourceSplit.Proofs.Report.Printed
import SourceSplit.Toml.Document

/-!
# SourceSplit.Proofs.Toml.Spelled

The grammar of single TOML values (version 1.0) on one line: a text between double quotes, a
boolean, a decimal integer. Each rule is a relation between a text, what is read at its front, and
what stands behind that.

* `basic_quoted`: a text between quotes is read as the text it stands for, whatever way each of its
  characters is written. `exists_quoted`: every text can be written so.
* `word?_whole`: the digits of a number are read as that number, and not as a date or a floating
  point number.
* `value_spelled`: a value that stands before the end of its line is read.
-/

namespace SourceSplit
namespace Toml
namespace Grammar

open Report.Grammar (Run Whole Halts halts_cons hexDigit? unit?)

/-! ## The rules -/

/-- What stands behind a backslash, and for which character. -/
def letters : List (Char × Char) :=
  [('b', '\x08'), ('t', '\t'), ('n', '\n'), ('f', '\x0c'), ('r', '\r'), ('"', '"'), ('\\', '\\')]

/-- `basic-char`: a character as it is, but for quote, backslash and the controls other than the
tab, or one of its escapes. -/
inductive Writes : List Char → Char → List Char → Prop where
  | plain {c : Char} {rest : List Char} :
      c = '\t' ∨ 0x20 ≤ c.toNat → c.toNat ≠ 0x7F → c ≠ '"' → c ≠ '\\' → Writes (c :: rest) c rest
  | letter {e c : Char} {rest : List Char} : (e, c) ∈ letters → Writes ('\\' :: e :: rest) c rest
  | short {a b c d char : Char} {rest : List Char} :
      unit? a b c d = some char.toNat → Writes ('\\' :: 'u' :: a :: b :: c :: d :: rest) char rest
  | long {a b c d e f g h char : Char} {high low : Nat} {rest : List Char} :
      unit? a b c d = some high → unit? e f g h = some low → 0x10000 * high + low = char.toNat →
      Writes ('\\' :: 'U' :: a :: b :: c :: d :: e :: f :: g :: h :: rest) char rest

/-- `*basic-char quotation-mark`: a text behind its opening quote. -/
inductive Quoted : List Char → List Char → List Char → Prop where
  | close {rest : List Char} : Quoted ('"' :: rest) [] rest
  | char {text mid cs rest : List Char} {c : Char} :
      Writes text c mid → Quoted mid cs rest → Quoted text (c :: cs) rest

/-- A value. An integer has 64 bits, one of them for the sign. -/
inductive Spells : List Char → Value → List Char → Prop where
  | text {text rest : List Char} {string : String} :
      Quoted text string.toList rest → Spells ('"' :: text) (.text string) rest
  | trueName {rest : List Char} : Spells ('t' :: 'r' :: 'u' :: 'e' :: rest) (.boolean true) rest
  | falseName {rest : List Char} :
      Spells ('f' :: 'a' :: 'l' :: 's' :: 'e' :: rest) (.boolean false) rest
  | decimal {text digits rest : List Char} {n : Nat} :
      Whole text digits rest → Nat.ofDigitChars 10 digits 0 = n → n ≤ 0x7FFFFFFFFFFFFFFF →
      Spells text (.integer n) rest

/-- `newline`, or the end of the text. -/
inductive LineEnd : List Char → List Char → Prop where
  | newline {rest : List Char} : LineEnd ('\n' :: rest) rest
  | carriageReturn {rest : List Char} : LineEnd ('\r' :: '\n' :: rest) rest
  | last : LineEnd [] []

theorem ne_of_holds {p : Char → Bool} {c d : Char} (hc : p c = true) (hd : p d = false) :
    c ≠ d := by
  rintro rfl
  rw [hc] at hd
  cases hd

/-! ## Texts -/

section

variable {c : Char} {seen text cs rest : List Char}

theorem toNat_lt_of_toLower (h : c.toLower.toNat < 128) : c.toNat < 128 := by
  unfold Char.toLower at h
  split at h
  · rename_i hc
    have hle : c.val.toNat ≤ 90 := hc.2
    have htoNat : c.toNat = c.val.toNat := rfl
    omega
  · exact h

theorem hexDigit?_eq_hexValue? (h : c.toNat < 128) : hexDigit? c = hexValue? c := by
  have hascii : ∀ k < 4, ∀ n < 32,
      hexDigit? (Char.ofNat (32 * k + n)) = hexValue? (Char.ofNat (32 * k + n)) := by
    decide +kernel
  have hc := hascii (c.toNat / 32) (by omega) (c.toNat % 32) (by omega)
  rwa [Nat.div_add_mod, Char.ofNat_toNat] at hc

theorem toNat_lt_of_hexDigit? {v : Nat} (h : hexDigit? c = some v) : c.toNat < 128 := by
  have hsmall : ("0123456789abcdef".toList.all fun d => decide (d.toNat < 128)) = true := by
    decide +kernel
  have hmem : c.toLower ∈ "0123456789abcdef".toList := by
    refine Classical.byContradiction fun hnot => ?_
    rw [hexDigit?, List.idxOf?_eq_none_iff.2 hnot] at h
    cases h
  exact toNat_lt_of_toLower (of_decide_eq_true (List.all_eq_true.1 hsmall _ hmem))

/-- The two readers of a hexadecimal digit agree. -/
theorem hexValue?_of_hexDigit? {v : Nat} (h : hexDigit? c = some v) : hexValue? c = some v := by
  rw [← hexDigit?_eq_hexValue? (toNat_lt_of_hexDigit? h), h]

/-- The digits of a unit one by one. -/
theorem exists_values_of_unit? {a b c d : Char} {n : Nat} (h : unit? a b c d = some n) :
    ∃ x y z w, hexValue? a = some x ∧ hexValue? b = some y ∧ hexValue? c = some z ∧
      hexValue? d = some w ∧ n = 4096 * x + 256 * y + 16 * z + w := by
  simp only [unit?, bind, Option.bind_eq_some_iff, pure, Option.some.injEq] at h
  obtain ⟨x, hx, y, hy, z, hz, w, hw, hcode⟩ := h
  exact ⟨x, y, z, w, hexValue?_of_hexDigit? hx, hexValue?_of_hexDigit? hy,
    hexValue?_of_hexDigit? hz, hexValue?_of_hexDigit? hw, hcode.symm⟩

theorem charOfHex?_eq {digits : List Char} {values : List Nat}
    (h : digits.mapM hexValue? = some values)
    (hcode : values.foldl (fun n d => 16 * n + d) 0 = c.toNat) : charOfHex? digits = some c := by
  have hvalid : c.toNat.isValidChar := c.valid
  simp [charOfHex?, h, hcode, hvalid]

theorem charOfHex?_short {a b c d char : Char} (h : unit? a b c d = some char.toNat) :
    charOfHex? [a, b, c, d] = some char := by
  obtain ⟨x, y, z, w, hx, hy, hz, hw, hcode⟩ := exists_values_of_unit? h
  have hmap : [a, b, c, d].mapM hexValue? = some [x, y, z, w] := by simp [hx, hy, hz, hw]
  refine charOfHex?_eq hmap ?_
  simp only [List.foldl_cons, List.foldl_nil]
  omega

theorem charOfHex?_long {a b c d e f g h char : Char} {high low : Nat}
    (hhigh : unit? a b c d = some high) (hlow : unit? e f g h = some low)
    (hchar : 0x10000 * high + low = char.toNat) :
    charOfHex? [a, b, c, d, e, f, g, h] = some char := by
  obtain ⟨x, y, z, w, hx, hy, hz, hw, hcode⟩ := exists_values_of_unit? hhigh
  obtain ⟨x', y', z', w', hx', hy', hz', hw', hcode'⟩ := exists_values_of_unit? hlow
  have hmap : [a, b, c, d, e, f, g, h].mapM hexValue? = some [x, y, z, w, x', y', z', w'] := by
    simp [hx, hy, hz, hw, hx', hy', hz', hw']
  refine charOfHex?_eq hmap ?_
  simp only [List.foldl_cons, List.foldl_nil]
  omega

theorem isPlain_iff : isPlain c = true ↔ c = '\t' ∨ 0x20 ≤ c.toNat ∧ c.toNat ≠ 0x7F := by
  simp [isPlain]

theorem escape?_of_mem {e : Char} (h : (e, c) ∈ letters) :
    escape? e = some c ∧ e ≠ 'u' ∧ e ≠ 'U' := by
  have hall : ∀ p ∈ letters, escape? p.1 = some p.2 ∧ p.1 ≠ 'u' ∧ p.1 ≠ 'U' := by decide
  exact hall _ h

/-- The reader takes one character, whatever way it is written. -/
theorem basic_writes (h : Writes text c rest) : basic seen text = basic (c :: seen) rest := by
  cases h with
  | plain hprintable hdelete hquote hback =>
    have hplain : isPlain c = true := isPlain_iff.2 (hprintable.imp_right fun hle => ⟨hle, hdelete⟩)
    rw [basic, if_pos hplain]
    · exact hquote
    · intro _ _ _ _ _ heq
      exact absurd heq hback
    · intro _ _ _ _ _ _ _ _ _ heq
      exact absurd heq hback
    · intro _ _ heq
      exact absurd heq hback
  | letter hmem =>
    obtain ⟨hescape, hshort, hlong⟩ := escape?_of_mem hmem
    rw [basic, hescape]
    · intro _ _ _ _ _ heq
      exact absurd heq hshort
    · intro _ _ _ _ _ _ _ _ _ heq
      exact absurd heq hlong
  | short hcode => rw [basic, charOfHex?_short hcode]
  | long hhigh hlow hchar => rw [basic, charOfHex?_long hhigh hlow hchar]

theorem basic_quoted (h : Quoted text cs rest) :
    basic seen text = some (String.ofList (seen.reverse ++ cs), rest) := by
  induction h generalizing seen with
  | close => simp [basic]
  | char hc _ ih =>
    rw [basic_writes hc, ih]
    simp

theorem not_writes_quote : ¬ Writes ('"' :: text) c rest := by
  intro h
  cases h with
  | plain _ _ hquote _ => exact hquote rfl

theorem Quoted.eq_of_quote (h : Quoted ('"' :: text) cs rest) : text = rest := by
  cases h with
  | close => rfl
  | char hc _ => exact absurd hc not_writes_quote

/-- The reader for all kinds of quotes sees a text on one line, since no two quotes come next. -/
theorem quoted?_quoted (h : Quoted text cs rest) (hrest : rest.head? ≠ some '"') :
    quoted? ('"' :: text) = some (String.ofList cs, rest) := by
  rw [quoted?, basic_quoted h]
  · rfl
  · rintro more rfl
    rw [← h.eq_of_quote] at hrest
    exact hrest rfl

theorem exists_writes (c : Char) (rest : List Char) : ∃ text, Writes text c rest := by
  by_cases hquote : c = '"'
  · have hletter : ('"', c) ∈ letters := by
      rw [hquote]
      decide
    exact ⟨_, .letter hletter⟩
  by_cases hback : c = '\\'
  · have hletter : ('\\', c) ∈ letters := by
      rw [hback]
      decide
    exact ⟨_, .letter hletter⟩
  by_cases hdelete : c.toNat = 0x7F
  · have hunit : unit? '0' '0' '7' 'f' = some c.toNat := by
      rw [hdelete]
      decide +kernel
    exact ⟨_, .short hunit⟩
  by_cases hcontrol : c.toNat < 0x20
  · exact ⟨_, .short (Report.Grammar.unit?_control c.toNat hcontrol)⟩
  · exact ⟨_, .plain (.inr (Nat.le_of_not_lt hcontrol)) hdelete hquote hback⟩

theorem exists_quoted (cs rest : List Char) : ∃ text, Quoted text cs rest := by
  induction cs with
  | nil => exact ⟨_, .close⟩
  | cons c cs ih =>
    obtain ⟨mid, hmid⟩ := ih
    obtain ⟨text, htext⟩ := exists_writes c mid
    exact ⟨text, .char htext hmid⟩

end

/-! ## Numbers -/

section

variable {c : Char} {text word digits rest : List Char} {n : Nat}

theorem ne_of_no_digit (hall : ∀ c ∈ digits, c.isDigit = true) (hc : c ∈ word)
    (hno : c.isDigit = false) : digits ≠ word := by
  rintro rfl
  exact ne_of_holds (hall c hc) hno rfl

theorem digitRun?_digits (hall : ∀ c ∈ digits, c.isDigit = true) (hne : digits ≠ []) :
    digitRun? Char.isDigit digits = some digits := by
  induction digits with
  | nil => exact absurd rfl hne
  | cons c digits ih =>
    rw [List.forall_mem_cons] at hall
    obtain ⟨hc, htail⟩ := hall
    cases digits with
    | nil => rw [digitRun?, if_pos hc]
    | cons d digits =>
      have hd : d ≠ '_' := ne_of_holds (htail d (by simp)) rfl
      rw [digitRun?, if_pos hc, ih htail (by simp)]
      · rfl
      · simp
      · intro _ heq
        exact absurd (List.cons.inj heq).1 hd

theorem decimalRun?_whole (h : Whole text digits rest) : decimalRun? digits = some digits := by
  rw [decimalRun?, digitRun?_digits h.all h.ne_nil]
  split
  · rename_i heq
    obtain rfl := Option.some.inj heq
    have hzero := h.zero rfl
    simp at hzero
  · rfl

theorem foldl_digitValue (hall : ∀ c ∈ digits, c.isDigit = true) (init : Nat) :
    digits.foldl (fun n c => 10 * n + digitValue c) init = Nat.ofDigitChars 10 digits init := by
  induction digits generalizing init with
  | nil => rfl
  | cons c digits ih =>
    rw [List.forall_mem_cons] at hall
    have hc : digitValue c = c.toNat - '0'.toNat := by rw [digitValue, if_pos hall.1]
    rw [List.foldl_cons, hc, ih hall.2]
    rfl

theorem splitSign_digits (hall : ∀ c ∈ digits, c.isDigit = true) :
    splitSign digits = (false, digits) := by
  unfold splitSign
  split
  · exact absurd (hall '-' (by simp)) (by decide)
  · exact absurd (hall '+' (by simp)) (by decide)
  · rfl

theorem integer?_whole (h : Whole text digits rest) (hn : Nat.ofDigitChars 10 digits 0 = n)
    (hle : n ≤ 0x7FFFFFFFFFFFFFFF) : integer? digits = some n := by
  have hall := h.all
  have hin : minInteger ≤ (n : Int) ∧ (n : Int) ≤ maxInteger := by
    simp only [minInteger, maxInteger]
    omega
  unfold integer?
  split
  · exact absurd (hall 'x' (by simp)) (by decide)
  · exact absurd (hall 'o' (by simp)) (by decide)
  · exact absurd (hall 'b' (by simp)) (by decide)
  · simp [splitSign_digits hall, decimalRun?_whole h, natOfDigits, foldl_digitValue hall, hn,
      inRange?, hin]

theorem date?_digits (hall : ∀ c ∈ digits, c.isDigit = true) : date? digits = none := by
  unfold date?
  split
  · exact absurd (hall '-' (by simp)) (by decide)
  · rfl

theorem time?_digits (hall : ∀ c ∈ digits, c.isDigit = true) : time? digits = none := by
  unfold time?
  split
  · exact absurd (hall ':' (by simp)) (by decide)
  · rfl

/-- Without a point and an exponent there is no floating point number. -/
theorem isFloat_digits (hall : ∀ c ∈ digits, c.isDigit = true) : isFloat digits = false := by
  have hinf : digits ≠ "inf".toList := ne_of_no_digit hall (by decide : 'i' ∈ _) rfl
  have hnan : digits ≠ "nan".toList := ne_of_no_digit hall (by decide : 'n' ∈ _) rfl
  have hmark : Run (fun c => !isExponentMark c) digits digits [] := by
    refine ⟨by simp, fun c hc => ?_⟩
    have hsmall : c ≠ 'e' := ne_of_holds (hall c hc) rfl
    have hlarge : c ≠ 'E' := ne_of_holds (hall c hc) rfl
    simp [isExponentMark, hsmall, hlarge]
  have hpoint : Run (· ≠ '.') digits digits [] := by
    refine ⟨by simp, fun c hc => ?_⟩
    have hdot : c ≠ '.' := ne_of_holds (hall c hc) rfl
    simp [hdot]
  have hend : ∀ p, Halts p [] := by simp [Halts]
  simp only [isFloat, splitSign_digits hall, hinf, hnan, or_self, if_false,
    hmark.takeWhile_eq (hend _), hmark.dropWhile_eq (hend _), hpoint.dropWhile_eq (hend _)]
  rfl

theorem word?_whole (h : Whole text digits rest) (hn : Nat.ofDigitChars 10 digits 0 = n)
    (hle : n ≤ 0x7FFFFFFFFFFFFFFF) : word? digits = some (.integer n) := by
  have hall := h.all
  have htrue : digits ≠ "true".toList := ne_of_no_digit hall (by decide : 't' ∈ _) rfl
  have hfalse : digits ≠ "false".toList := ne_of_no_digit hall (by decide : 'f' ∈ _) rfl
  have hmoment : isMoment digits = false := by
    simp [isMoment, date?_digits hall, time?_digits hall]
  rw [word?, if_neg htrue, if_neg hfalse, hmoment, isFloat_digits hall, integer?_whole h hn hle]
  rfl

theorem exists_digit (h : Whole text digits rest) : ∃ c cs, text = c :: cs ∧ c.isDigit = true := by
  cases text with
  | nil =>
    have hnil := List.append_eq_nil_iff.1 h.text_eq.symm
    exact absurd hnil.1 h.ne_nil
  | cons c cs => exact ⟨c, cs, rfl, h.toDigits.head⟩

end

/-! ## Values -/

section

variable {c : Char} {text word tail rest : List Char} {v : Value}

theorem LineEnd.halts (h : LineEnd tail rest) {p : Char → Bool} (hnewline : p '\n' = false)
    (hreturn : p '\r' = false) : Halts p tail := by
  cases h with
  | newline => exact halts_cons hnewline
  | carriageReturn => exact halts_cons hreturn
  | last => simp [Halts]

theorem value_eq_leaf (hbracket : c ≠ '[') (hbrace : c ≠ '\x7b') (depth : Nat) :
    value depth (c :: text) = leaf (c :: text) := by
  cases depth with
  | zero => rfl
  | succ depth =>
    simp only [value]
    split
    · exact absurd (List.cons.inj ‹_›).1 hbracket
    · exact absurd (List.cons.inj ‹_›).1 hbrace
    · rfl

theorem leaf_eq_scalar? (hquote : c ≠ '"') (hsingle : c ≠ '\x27') :
    leaf (c :: text) = scalar? (c :: text) := by
  unfold leaf
  split
  · exact absurd (List.cons.inj ‹_›).1 hquote
  · exact absurd (List.cons.inj ‹_›).1 hsingle
  · rfl

/-- A word up to the end of its line is read as a whole. If it is no date, nothing behind it can
be part of the value. -/
theorem value_word (hc : isWordChar c = true) (hword : ∀ d ∈ word, isWordChar d = true)
    (hdate : date? (c :: word) = none) (hend : LineEnd tail rest) (depth : Nat) :
    value depth (c :: (word ++ tail)) = (word? (c :: word)).map (·, tail) := by
  have hrun : Run isWordChar (c :: (word ++ tail)) (c :: word) tail :=
    ⟨rfl, List.forall_mem_cons.2 ⟨hc, hword⟩⟩
  have hhalts : Halts isWordChar tail := hend.halts rfl rfl
  rw [value_eq_leaf (ne_of_holds hc rfl) (ne_of_holds hc rfl),
    leaf_eq_scalar? (ne_of_holds hc rfl) (ne_of_holds hc rfl)]
  simp only [scalar?, hrun.takeWhile_eq hhalts, hrun.dropWhile_eq hhalts, hdate]

theorem value_spelled (h : Spells text v tail) (hend : LineEnd tail rest) (depth : Nat) :
    value depth text = some (v, tail) := by
  cases h with
  | text hquoted =>
    have hquote : tail.head? ≠ some '"' := by cases hend <;> simp
    rw [value_eq_leaf (by decide) (by decide), leaf, quoted?_quoted hquoted hquote]
    simp
  | trueName =>
    exact value_word rfl (List.all_eq_true.1 rfl : ∀ d ∈ ['r', 'u', 'e'], _) rfl hend depth
  | falseName =>
    exact value_word rfl (List.all_eq_true.1 rfl : ∀ d ∈ ['a', 'l', 's', 'e'], _) rfl hend depth
  | @decimal _ digits _ n hwhole hn hle =>
    have hall := hwhole.all
    have hread := word?_whole hwhole hn hle
    have hdate := date?_digits hall
    obtain rfl := hwhole.text_eq
    cases digits with
    | nil => exact absurd rfl hwhole.ne_nil
    | cons c word =>
      have hchar : ∀ d ∈ c :: word, isWordChar d = true := by
        intro d hd
        simp [isWordChar, Char.isAlphanum, hall d hd]
      rw [List.forall_mem_cons] at hchar
      rw [List.cons_append, value_word hchar.1 hchar.2 hdate hend, hread]
      rfl

end

end Grammar
end Toml
end SourceSplit
