import SourceSplit.Brace

/-!
# SourceSplit.Proofs.Brace.Token

The tokens of a source text, said without the walk: block comments, string literals, braces, and
single other bytes. A text is cut from left to right. A comment ends with the first closer that
begins behind its opener, a string with the first quote that no backslash takes along; the last
comment or string may be open and then runs to the end of the text.

* `First.unique`: a text has at most one first token.
* `exists_cut`, `Cut.unique`: every text is cut into tokens, in one way only.
-/

namespace SourceSplit
namespace Brace

namespace Byte

abbrev slash : UInt8 := 0x2F
abbrev star : UInt8 := 0x2A
abbrev quote : UInt8 := 0x22
abbrev backslash : UInt8 := 0x5C
abbrev opening : UInt8 := 0x7B
abbrev closing : UInt8 := 0x7D

@[simp] theorem quote_ne_backslash : quote ≠ backslash := by decide
@[simp] theorem backslash_ne_quote : backslash ≠ quote := by decide
@[simp] theorem quote_ne_slash : quote ≠ slash := by decide
@[simp] theorem slash_ne_quote : slash ≠ quote := by decide

end Byte

open Byte in
def opener : List UInt8 := [slash, star]

open Byte in
def closer : List UInt8 := [star, slash]

inductive Kind where
  | comment
  | string
  | opening
  | closing
  | other
  deriving DecidableEq, Repr

/-- What a byte is where it is a token by itself. -/
def Kind.ofByte (b : UInt8) : Kind :=
  if b = Byte.opening then .opening else if b = Byte.closing then .closing else .other

structure Token where
  kind : Kind
  bytes : List UInt8
  deriving DecidableEq, Repr

/-- A closer begins behind `body`, and none begins before. -/
def ClosedBehind (body rest : List UInt8) : Prop :=
  ∀ before after, body ++ (closer ++ rest) = before ++ (closer ++ after) →
    body.length ≤ before.length

def NeverClosed (body : List UInt8) : Prop :=
  ∀ before after, body ≠ before ++ (closer ++ after)

/-- The inside of a string literal, in which every backslash takes the byte behind it along. -/
inductive Inside : List UInt8 → Prop where
  | nil : Inside []
  | plain {b : UInt8} {body : List UInt8} :
      b ≠ Byte.quote → b ≠ Byte.backslash → Inside body → Inside (b :: body)
  | escaped {b : UInt8} {body : List UInt8} :
      Inside body → Inside (Byte.backslash :: b :: body)

/-- `First text token rest`: the text starts with the token, and `rest` is behind it. -/
inductive First : List UInt8 → Token → List UInt8 → Prop where
  | comment {body rest : List UInt8} : ClosedBehind body rest →
      First (opener ++ (body ++ (closer ++ rest))) ⟨.comment, opener ++ (body ++ closer)⟩ rest
  | openComment {body : List UInt8} : NeverClosed body →
      First (opener ++ body) ⟨.comment, opener ++ body⟩ []
  | string {body rest : List UInt8} : Inside body →
      First (Byte.quote :: (body ++ Byte.quote :: rest))
        ⟨.string, Byte.quote :: (body ++ [Byte.quote])⟩ rest
  | openString {body last : List UInt8} : Inside body → last = [] ∨ last = [Byte.backslash] →
      First (Byte.quote :: (body ++ last)) ⟨.string, Byte.quote :: (body ++ last)⟩ []
  | single {b : UInt8} {rest : List UInt8} : b ≠ Byte.quote → ¬ opener <+: b :: rest →
      First (b :: rest) ⟨Kind.ofByte b, [b]⟩ rest

inductive Cut : List UInt8 → List Token → Prop where
  | done : Cut [] []
  | token {text rest : List UInt8} {token : Token} {tokens : List Token} :
      First text token rest → Cut rest tokens → Cut text (token :: tokens)

theorem First.eq_append {text rest : List UInt8} {token : Token} (h : First text token rest) :
    text = token.bytes ++ rest := by
  cases h <;> simp

theorem First.bytes_ne_nil {text rest : List UInt8} {token : Token} (h : First text token rest) :
    token.bytes ≠ [] := by
  cases h <;> simp [opener]

theorem First.length_lt {text rest : List UInt8} {token : Token} (h : First text token rest) :
    rest.length < text.length := by
  have hpos := List.length_pos_iff.2 h.bytes_ne_nil
  have hlen := congrArg List.length h.eq_append
  simp only [List.length_append] at hlen
  omega

/-! ## Where a comment ends -/

theorem closedBehind_or_neverClosed (text : List UInt8) :
    (∃ body rest, text = body ++ (closer ++ rest) ∧ ClosedBehind body rest) ∨
      NeverClosed text := by
  induction text with
  | nil =>
    right
    intro before after h
    simp [closer] at h
  | cons b text ih =>
    by_cases hnow : ∃ after, b :: text = closer ++ after
    · obtain ⟨after, h⟩ := hnow
      exact .inl ⟨[], after, h, fun _ _ _ => Nat.zero_le _⟩
    · rcases ih with ⟨body, rest, rfl, hbody⟩ | hnever
      · left
        refine ⟨b :: body, rest, rfl, ?_⟩
        intro before after h
        cases before with
        | nil => exact absurd ⟨after, h⟩ hnow
        | cons c before =>
          simp only [List.cons_append, List.cons.injEq] at h
          have := hbody before after h.2
          simp only [List.length_cons]
          omega
      · right
        intro before after h
        cases before with
        | nil => exact hnow ⟨after, h⟩
        | cons c before =>
          simp only [List.cons_append, List.cons.injEq] at h
          exact hnever before after h.2

theorem ClosedBehind.unique {body body' rest rest' : List UInt8} (h : ClosedBehind body rest)
    (h' : ClosedBehind body' rest') (e : body ++ (closer ++ rest) = body' ++ (closer ++ rest')) :
    body = body' ∧ rest = rest' := by
  have hlen : body.length = body'.length := Nat.le_antisymm (h _ _ e) (h' _ _ e.symm)
  obtain ⟨hbody, hrest⟩ := List.append_inj e hlen
  exact ⟨hbody, List.append_cancel_left hrest⟩

/-! ## Where a string ends -/

theorem inside_or_open (text : List UInt8) :
    (∃ body rest, Inside body ∧ text = body ++ Byte.quote :: rest) ∨
      ∃ body last, Inside body ∧ (last = [] ∨ last = [Byte.backslash]) ∧ text = body ++ last := by
  match text with
  | [] => exact .inr ⟨[], [], .nil, .inl rfl, rfl⟩
  | b :: text =>
    by_cases hq : b = Byte.quote
    · exact .inl ⟨[], text, .nil, by simp [hq]⟩
    · by_cases hb : b = Byte.backslash
      · match text with
        | [] => exact .inr ⟨[], [Byte.backslash], .nil, .inr rfl, by simp [hb]⟩
        | c :: text =>
          rcases inside_or_open text with ⟨body, rest, hi, rfl⟩ | ⟨body, last, hi, hl, rfl⟩
          · exact .inl ⟨Byte.backslash :: c :: body, rest, .escaped hi, by simp [hb]⟩
          · exact .inr ⟨Byte.backslash :: c :: body, last, .escaped hi, hl, by simp [hb]⟩
      · rcases inside_or_open text with ⟨body, rest, hi, rfl⟩ | ⟨body, last, hi, hl, rfl⟩
        · exact .inl ⟨b :: body, rest, .plain hq hb hi, rfl⟩
        · exact .inr ⟨b :: body, last, .plain hq hb hi, hl, rfl⟩

theorem Inside.unique {body body' rest rest' : List UInt8} (h : Inside body) (h' : Inside body')
    (e : body ++ Byte.quote :: rest = body' ++ Byte.quote :: rest') :
    body = body' ∧ rest = rest' := by
  induction h generalizing body' with
  | nil =>
    cases h' with
    | nil => simpa using e
    | plain hq _ _ => simp [Ne.symm hq] at e
    | escaped _ => simp at e
  | plain hq hb _ ih =>
    cases h' with
    | nil => simp [hq] at e
    | plain _ _ h' =>
      simp only [List.cons_append, List.cons.injEq] at e
      obtain ⟨hbody, hrest⟩ := ih h' e.2
      exact ⟨by rw [e.1, hbody], hrest⟩
    | escaped _ => simp [hb] at e
  | escaped _ ih =>
    cases h' with
    | nil => simp at e
    | plain _ hb _ => simp [Ne.symm hb] at e
    | escaped h' =>
      simp only [List.cons_append, List.cons.injEq, true_and] at e
      obtain ⟨hbody, hrest⟩ := ih h' e.2
      exact ⟨by rw [e.1, hbody], hrest⟩

theorem Inside.not_open {body body' last rest : List UInt8} (h : Inside body) (h' : Inside body')
    (hl : last = [] ∨ last = [Byte.backslash]) : body ++ Byte.quote :: rest ≠ body' ++ last := by
  intro e
  induction h generalizing body' with
  | nil =>
    cases h' with
    | nil => rcases hl with rfl | rfl <;> simp at e
    | plain hq _ _ => simp [Ne.symm hq] at e
    | escaped _ => simp at e
  | plain hq hb _ ih =>
    cases h' with
    | nil => rcases hl with rfl | rfl <;> simp [hb] at e
    | plain _ _ h' =>
      simp only [List.cons_append, List.cons.injEq] at e
      exact ih h' e.2
    | escaped _ => simp [hb] at e
  | escaped _ ih =>
    cases h' with
    | nil => rcases hl with rfl | rfl <;> simp at e
    | plain _ hb _ => simp [Ne.symm hb] at e
    | escaped h' =>
      simp only [List.cons_append, List.cons.injEq, true_and] at e
      exact ih h' e.2

/-! ## A text is cut in one way -/

theorem exists_first (b : UInt8) (text : List UInt8) :
    ∃ token rest, First (b :: text) token rest := by
  by_cases hq : b = Byte.quote
  · rw [hq]
    rcases inside_or_open text with ⟨body, rest, hi, rfl⟩ | ⟨body, last, hi, hl, rfl⟩
    · exact ⟨_, _, .string hi⟩
    · exact ⟨_, _, .openString hi hl⟩
  · by_cases hc : opener <+: b :: text
    · obtain ⟨behind, hbehind⟩ := hc
      rw [← hbehind]
      rcases closedBehind_or_neverClosed behind with ⟨body, rest, rfl, hb⟩ | hn
      · exact ⟨_, _, .comment hb⟩
      · exact ⟨_, _, .openComment hn⟩
    · exact ⟨_, _, .single hq hc⟩

theorem First.unique {text rest rest' : List UInt8} {token token' : Token}
    (h : First text token rest) (h' : First text token' rest') : token = token' ∧ rest = rest' := by
  generalize ht : text = text' at h'
  cases h with
  | comment hb =>
    cases h' with
    | comment hb' =>
      obtain ⟨rfl, rfl⟩ := hb.unique hb' (List.append_cancel_left ht)
      exact ⟨rfl, rfl⟩
    | openComment hn => exact absurd (List.append_cancel_left ht).symm (hn _ _)
    | string => simp [opener] at ht
    | openString => simp [opener] at ht
    | single _ hc => exact absurd ⟨_, ht⟩ hc
  | openComment hn =>
    cases h' with
    | comment => exact absurd (List.append_cancel_left ht) (hn _ _)
    | openComment => exact ⟨by rw [ht], rfl⟩
    | string => simp [opener] at ht
    | openString => simp [opener] at ht
    | single _ hc => exact absurd ⟨_, ht⟩ hc
  | string hi =>
    cases h' with
    | comment => simp [opener] at ht
    | openComment => simp [opener] at ht
    | string hi' =>
      obtain ⟨rfl, rfl⟩ := hi.unique hi' (List.cons.inj ht).2
      exact ⟨rfl, rfl⟩
    | openString hi' hl => exact absurd (List.cons.inj ht).2 (hi.not_open hi' hl)
    | single hq _ => exact absurd (List.cons.inj ht).1.symm hq
  | openString hi hl =>
    cases h' with
    | comment => simp [opener] at ht
    | openComment => simp [opener] at ht
    | string hi' => exact absurd (List.cons.inj ht).2.symm (hi'.not_open hi hl)
    | openString => exact ⟨by rw [ht], rfl⟩
    | single hq _ => exact absurd (List.cons.inj ht).1.symm hq
  | single hq hc =>
    cases h' with
    | comment => exact absurd ⟨_, ht.symm⟩ hc
    | openComment => exact absurd ⟨_, ht.symm⟩ hc
    | string => exact absurd (List.cons.inj ht).1 hq
    | openString => exact absurd (List.cons.inj ht).1 hq
    | single =>
      obtain ⟨rfl, rfl⟩ := List.cons.inj ht
      exact ⟨rfl, rfl⟩

theorem exists_cut (text : List UInt8) : ∃ tokens, Cut text tokens := by
  match text with
  | [] => exact ⟨[], .done⟩
  | b :: text =>
    obtain ⟨token, rest, hfirst⟩ := exists_first b text
    have hshorter : rest.length < (b :: text).length := hfirst.length_lt
    obtain ⟨tokens, hcut⟩ := exists_cut rest
    exact ⟨token :: tokens, .token hfirst hcut⟩
termination_by text.length
decreasing_by exact hshorter

theorem Cut.unique {text : List UInt8} {tokens tokens' : List Token} (h : Cut text tokens)
    (h' : Cut text tokens') : tokens = tokens' := by
  induction h generalizing tokens' with
  | done =>
    cases h' with
    | done => rfl
    | token hfirst _ => exact absurd hfirst.length_lt (by simp)
  | token hfirst _ ih =>
    cases h' with
    | done => exact absurd hfirst.length_lt (by simp)
    | token hfirst' hcut' =>
      obtain ⟨rfl, rfl⟩ := hfirst.unique hfirst'
      rw [ih hcut']

end Brace
end SourceSplit
