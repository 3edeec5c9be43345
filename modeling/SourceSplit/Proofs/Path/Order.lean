import Mathlib.Data.List.Lex
import SourceSplit.Proofs.Path.Parent

/-!
# SourceSplit.Proofs.Path.Order

Paths in order. They are compared part by part: the root comes before a `.`, this before a `..`, and
names come last, in the order of their bytes (`Path.Before`). That is not the order of the texts:
`a/b` comes before `a.b`, since the name `a` comes before the name `a.b`.

* `bytes_before`: texts have the order of their bytes.
* `before_of_names`: what lies below an earlier name comes before what lies below a later one.
-/

namespace SourceSplit

namespace Text

/-- Of two characters the smaller one has the smaller bytes, whatever comes behind them. -/
theorem utf8EncodeChar_before {c d : Char} (h : c < d) (cs ds : List UInt8) :
    List.Lex (· < ·) (String.utf8EncodeChar c ++ cs) (String.utf8EncodeChar d ++ ds) := by
  have hval : c.val.toNat < d.val.toNat := h
  have hmax : d.val.toNat < 0x110000 := by
    rcases d.valid with hlow | hhigh
    · exact Nat.lt_trans hlow (by decide)
    · exact hhigh.2
  simp only [String.utf8EncodeChar]
  generalize c.val.toNat = m at hval
  generalize d.val.toNat = n at hval hmax
  -- One case for each two numbers of bytes; the bytes are the digits of the numbers to base 64.
  split_ifs <;>
    simp only [List.cons_append, List.nil_append, List.cons_lex_cons_iff, UInt8.lt_iff_toNat_lt,
      ← UInt8.toNat_inj, UInt8.toNat_ofNat']
  all_goals simp (disch := omega) only [Nat.mod_eq_of_lt]
  all_goals omega

theorem bytes_before {cs ds : List Char} (h : List.Lex (· < ·) cs ds) :
    List.Lex (· < ·) (bytes cs) (bytes ds) := by
  induction h with
  | @nil d ds =>
    obtain ⟨b, bs, hcons⟩ := List.exists_cons_of_ne_nil (String.utf8EncodeChar_ne_nil (c := d))
    rw [bytes_cons, hcons]
    exact .nil
  | @rel c cs d ds hlt => exact utf8EncodeChar_before hlt (bytes cs) (bytes ds)
  | @cons c cs ds _ ih => exact ih.append_left _ (String.utf8EncodeChar c)

end Text

namespace Path

open Text

def Part.rank : Part → Nat
  | .root => 0
  | .here => 1
  | .up => 2
  | .name _ => 3

inductive Part.Before : Part → Part → Prop where
  | kind {p q : Part} : p.rank < q.rank → Before p q
  | name {a b : String} :
      List.Lex (· < ·) (bytes a.toList) (bytes b.toList) → Before (.name a) (.name b)

def Before (p q : Path) : Prop :=
  List.Lex Part.Before p.parts q.parts

theorem Part.not_before_self (part : Part) : ¬ Part.Before part part := by
  intro h
  cases h with
  | kind hlt => exact Nat.lt_irrefl _ hlt
  | name hlt => exact List.lex_irrefl UInt8.lt_irrefl _ hlt

theorem not_before_self (path : Path) : ¬ Before path path :=
  List.lex_irrefl Part.not_before_self path.parts

theorem Before.ne {p q : Path} (h : Before p q) : p ≠ q := by
  rintro rfl
  exact not_before_self p h

theorem Part.before_of_lt {a b : String} (h : a < b) : Part.Before (.name a) (.name b) :=
  .name (bytes_before h)

/-- What lies below an earlier name comes before what lies below a later one. -/
theorem before_of_names {p q : Path} {front more more' : List Part} {a b : String} (h : a < b)
    (hp : p.parts = front ++ .name a :: more) (hq : q.parts = front ++ .name b :: more') :
    Before p q := by
  rw [Before, hp, hq]
  exact (List.Lex.rel (Part.before_of_lt h)).append_left _ front

/-- A directory comes before a file of the same name with an extension. -/
example : Before ⟨"a/b"⟩ ⟨"a.b"⟩ := by
  have hparts : parts ⟨"a/b"⟩ = [] ++ .name "a" :: [.name "b"] := by decide +kernel
  have hparts' : parts ⟨"a.b"⟩ = [] ++ .name "a.b" :: [] := by decide +kernel
  exact before_of_names (by decide) hparts hparts'

end Path
end SourceSplit
