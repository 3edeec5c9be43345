/-!
# SourceSplit.Text.Offset

Byte offsets into a text. An offset counts bytes of the UTF-8 form; it is legal when it does not
fall inside a character or behind the end.

`bytes_toList` and `byteLength_toList`: bytes and byte length are those of the string in memory.
`charsAt?_eq_some_iff`: an offset is legal exactly when it is the byte length of a leading part of
the text, and then the number of characters of that part is given.
-/

namespace SourceSplit
namespace Text

/-- The largest offset: offsets are kept in words of 64 bits. -/
def maxOffset : Nat := 0xFFFFFFFFFFFFFFFF

def byteLength : List Char → Nat
  | [] => 0
  | c :: cs => c.utf8Size + byteLength cs

@[simp] theorem byteLength_nil : byteLength [] = 0 := rfl

@[simp] theorem byteLength_cons (c : Char) (cs : List Char) :
    byteLength (c :: cs) = c.utf8Size + byteLength cs := rfl

@[simp] theorem byteLength_append (as bs : List Char) :
    byteLength (as ++ bs) = byteLength as + byteLength bs := by
  induction as with
  | nil => simp
  | cons c as ih => rw [List.cons_append, byteLength_cons, byteLength_cons, ih, Nat.add_assoc]

/-- The bytes of the UTF-8 form. -/
def bytes (cs : List Char) : List UInt8 :=
  cs.flatMap String.utf8EncodeChar

@[simp] theorem bytes_nil : bytes [] = [] := rfl

@[simp] theorem bytes_cons (c : Char) (cs : List Char) :
    bytes (c :: cs) = String.utf8EncodeChar c ++ bytes cs := rfl

@[simp] theorem bytes_append (as bs : List Char) : bytes (as ++ bs) = bytes as ++ bytes bs := by
  simp [bytes]

@[simp] theorem length_bytes (cs : List Char) : (bytes cs).length = byteLength cs := by
  induction cs with
  | nil => rfl
  | cons c cs ih => simp [ih]

theorem bytes_toList (text : String) : bytes text.toList = text.toUTF8.data.toList := by
  have h : text.toUTF8 = text.toList.utf8Encode := by simp
  rw [h]
  simp [bytes, List.utf8Encode]

theorem byteLength_toList (text : String) : byteLength text.toList = text.utf8ByteSize := by
  rw [← length_bytes, bytes_toList, Array.length_toList]
  rfl

/-- The number of characters before a byte offset, counted on from `seen`. -/
def charsAtFrom? (seen : Nat) : Nat → List Char → Option Nat
  | 0, _ => some seen
  | _ + 1, [] => none
  | offset + 1, c :: cs =>
    if c.utf8Size ≤ offset + 1 then charsAtFrom? (seen + 1) (offset + 1 - c.utf8Size) cs else none

def charsAt? (offset : Nat) (cs : List Char) : Option Nat :=
  charsAtFrom? 0 offset cs

theorem charsAtFrom?_eq_some_iff {seen offset n : Nat} {cs : List Char} :
    charsAtFrom? seen offset cs = some n ↔
      ∃ as bs, cs = as ++ bs ∧ byteLength as = offset ∧ n = seen + as.length := by
  induction cs generalizing seen offset with
  | nil =>
    cases offset with
    | zero => simp [charsAtFrom?, eq_comm]
    | succ k => simp [charsAtFrom?]
  | cons c cs ih =>
    cases offset with
    | zero =>
      simp only [charsAtFrom?, Option.some.injEq]
      constructor
      · rintro rfl
        exact ⟨[], c :: cs, rfl, rfl, rfl⟩
      · rintro ⟨as, bs, h, hz, hn⟩
        cases as with
        | nil => simpa using hn.symm
        | cons a as =>
          have := Char.utf8Size_pos a
          simp only [byteLength_cons] at hz
          omega
    | succ k =>
      simp only [charsAtFrom?]
      have hpos := Char.utf8Size_pos c
      split
      · rename_i hle
        rw [ih]
        constructor
        · rintro ⟨as, bs, rfl, hl, rfl⟩
          exact ⟨c :: as, bs, rfl, by simp only [byteLength_cons]; omega, by simp; omega⟩
        · rintro ⟨as, bs, h, hl, rfl⟩
          cases as with
          | nil => simp at hl
          | cons a as =>
            simp only [List.cons_append, List.cons.injEq] at h
            obtain ⟨rfl, rfl⟩ := h
            simp only [byteLength_cons] at hl
            exact ⟨as, bs, rfl, by omega, by simp; omega⟩
      · rename_i hle
        simp only [reduceCtorEq, false_iff]
        rintro ⟨as, bs, h, hl, -⟩
        cases as with
        | nil => simp at hl
        | cons a as =>
          simp only [List.cons_append, List.cons.injEq] at h
          obtain ⟨rfl, rfl⟩ := h
          simp only [byteLength_cons] at hl
          omega

theorem charsAt?_eq_some_iff {offset n : Nat} {cs : List Char} :
    charsAt? offset cs = some n ↔
      ∃ as bs, cs = as ++ bs ∧ byteLength as = offset ∧ n = as.length := by
  simp [charsAt?, charsAtFrom?_eq_some_iff]

theorem isSome_charsAt? (as bs : List Char) {offset : Nat} {cs : List Char} (hcs : cs = as ++ bs)
    (ho : offset = byteLength as) : (charsAt? offset cs).isSome = true := by
  rw [charsAt?_eq_some_iff.2 ⟨as, bs, hcs, ho.symm, rfl⟩]
  rfl

/-- The part of a text from byte `start` up to byte `stop`, if both are legal offsets in order. -/
def slice? (start stop : Nat) (cs : List Char) : Option (List Char) :=
  match charsAt? start cs, charsAt? stop cs with
  | some i, some j => if i ≤ j then some ((cs.drop i).take (j - i)) else none
  | _, _ => none

theorem slice?_append (as bs cs : List Char) :
    slice? (byteLength as) (byteLength as + byteLength bs) (as ++ (bs ++ cs)) = some bs := by
  have h1 : charsAt? (byteLength as) (as ++ (bs ++ cs)) = some as.length :=
    charsAt?_eq_some_iff.2 ⟨as, bs ++ cs, rfl, rfl, rfl⟩
  have h2 : charsAt? (byteLength as + byteLength bs) (as ++ (bs ++ cs)) =
      some (as ++ bs).length :=
    charsAt?_eq_some_iff.2 ⟨as ++ bs, cs, by simp, by simp, rfl⟩
  simp [slice?, h1, h2]

end Text
end SourceSplit
