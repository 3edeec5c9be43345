import SourceSplit.Text.Offset

/-!
# SourceSplit.Proofs.Text.Ascii

An ASCII byte in the UTF-8 form of a text is a character of the text, since all bytes of longer
characters are above it. So the place of such a byte is a legal offset (`exists_char_of_byte`).
-/

namespace SourceSplit
namespace Text

theorem utf8Size_eq_one_iff {c : Char} : c.utf8Size = 1 ↔ c.val.toNat ≤ 127 :=
  Char.utf8Size_eq_one_iff.trans UInt32.le_iff_toNat_le

theorem toNat_toUInt8 {c : Char} (hc : c.utf8Size = 1) : c.val.toUInt8.toNat = c.val.toNat := by
  have hle := utf8Size_eq_one_iff.1 hc
  rw [UInt32.toNat_toUInt8]
  omega

theorem eq_of_toUInt8_eq {c d : Char} (hc : c.utf8Size = 1) (hd : d.utf8Size = 1)
    (h : c.val.toUInt8 = d.val.toUInt8) : c = d := by
  apply Char.ext
  apply UInt32.toNat_inj.1
  rw [← toNat_toUInt8 hc, ← toNat_toUInt8 hd, h]

/-- Only characters of one byte have a byte in the ASCII range. -/
theorem utf8Size_eq_one_of_mem {c : Char} {b : UInt8} (hb : b ∈ String.utf8EncodeChar c)
    (hlow : b.toNat ≤ 127) : c.utf8Size = 1 := by
  rw [utf8Size_eq_one_iff]
  refine Nat.le_of_not_lt fun hlong => ?_
  have hhigh : ∀ n : Nat, 128 ≤ n → n < 256 → b ≠ UInt8.ofNat n := by
    rintro n hle hlt rfl
    rw [UInt8.toNat_ofNat_of_lt' hlt] at hlow
    omega
  rw [String.utf8EncodeChar.eq_1] at hb
  simp only [if_neg (Nat.not_le.2 hlong)] at hb
  split at hb
  · simp only [List.mem_cons, List.not_mem_nil, or_false] at hb
    rcases hb with hb | hb <;> exact hhigh _ (by omega) (by omega) hb
  · split at hb
    · simp only [List.mem_cons, List.not_mem_nil, or_false] at hb
      rcases hb with hb | hb | hb <;> exact hhigh _ (by omega) (by omega) hb
    · simp only [List.mem_cons, List.not_mem_nil, or_false] at hb
      rcases hb with hb | hb | hb | hb <;> exact hhigh _ (by omega) (by omega) hb

/-- The byte of an ASCII character stands for that character. -/
theorem exists_char_of_byte {cs : List Char} {before after : List UInt8} {d : Char}
    (hd : d.utf8Size = 1) (h : bytes cs = before ++ d.val.toUInt8 :: after) :
    ∃ as bs, cs = as ++ d :: bs ∧ bytes as = before ∧ bytes bs = after := by
  induction cs generalizing before with
  | nil => simp at h
  | cons c cs ih =>
    rw [bytes_cons] at h
    rcases List.append_eq_append_iff.1 h with ⟨front, rfl, hcs⟩ | ⟨part, hc, hpart⟩
    · obtain ⟨as, bs, rfl, rfl, rfl⟩ := ih hcs
      exact ⟨c :: as, bs, rfl, rfl, rfl⟩
    · cases part with
      | nil =>
        obtain ⟨as, bs, rfl, has, rfl⟩ := @ih [] hpart.symm
        refine ⟨c :: as, bs, rfl, ?_, rfl⟩
        rw [bytes_cons, has, hc, List.append_nil, List.append_nil]
      | cons b part =>
        obtain ⟨rfl, hafter⟩ := List.cons.inj hpart
        have hmem : d.val.toUInt8 ∈ String.utf8EncodeChar c := by simp [hc]
        have hone : c.utf8Size = 1 := by
          refine utf8Size_eq_one_of_mem hmem ?_
          rw [toNat_toUInt8 hd]
          exact utf8Size_eq_one_iff.1 hd
        rw [String.utf8EncodeChar_eq_singleton hone] at hc
        cases before with
        | nil =>
          obtain ⟨hbyte, rfl⟩ := List.cons.inj hc
          refine ⟨[], cs, ?_, rfl, hafter.symm⟩
          rw [eq_of_toUInt8_eq hone hd hbyte, List.nil_append]
        | cons b before =>
          have hlen := congrArg List.length hc
          simp at hlen

end Text
end SourceSplit
