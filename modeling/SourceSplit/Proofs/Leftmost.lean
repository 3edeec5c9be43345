/-!
# SourceSplit.Proofs.Leftmost

What a search from left to right finds. `Occurs` says what there is to find, `start` and `stop`
where it begins and ends. The search takes what begins first and goes on behind its end.

* `Leftmost.unique`: if only one thing begins at each place, there is only one outcome.
* `Leftmost.pairwise`: what is found stands in order and apart.
* `Leftmost.covers`: what is not found begins inside something that is.
-/

namespace SourceSplit

/-- The outcome of a search that begins at `pos`. -/
inductive Leftmost {α : Type} (Occurs : α → Prop) (start stop : α → Nat) : Nat → List α → Prop where
  | none {pos : Nat} : (∀ a, Occurs a → start a < pos) → Leftmost Occurs start stop pos []
  | next {pos : Nat} {a : α} {found : List α} : Occurs a → pos ≤ start a →
      (∀ b, Occurs b → pos ≤ start b → start a ≤ start b) →
      Leftmost Occurs start stop (stop a + 1) found →
      Leftmost Occurs start stop pos (a :: found)

namespace Leftmost

variable {α : Type} {Occurs : α → Prop} {start stop : α → Nat} {pos : Nat} {found : List α}

/-- A stretch in which nothing begins can be passed. -/
theorem skip {pos' : Nat} (h : Leftmost Occurs start stop pos' found) (hle : pos ≤ pos')
    (hnone : ∀ a, Occurs a → pos ≤ start a → pos' ≤ start a) :
    Leftmost Occurs start stop pos found := by
  cases h with
  | none hall =>
    refine .none fun a ha => Nat.lt_of_not_le fun hpos => ?_
    exact Nat.not_le.2 (hall a ha) (hnone a ha hpos)
  | next ha hpos hleast hrest =>
    exact .next ha (Nat.le_trans hle hpos) (fun b hb hb' => hleast b hb (hnone b hb hb')) hrest

theorem unique {found' : List α}
    (hone : ∀ a b, Occurs a → Occurs b → start a = start b → a = b)
    (h : Leftmost Occurs start stop pos found) (h' : Leftmost Occurs start stop pos found') :
    found = found' := by
  induction h generalizing found' with
  | none hall =>
    cases h' with
    | none _ => rfl
    | next ha hpos _ _ => exact absurd hpos (Nat.not_le.2 (hall _ ha))
  | next ha hpos hleast _ ih =>
    cases h' with
    | none hall => exact absurd hpos (Nat.not_le.2 (hall _ ha))
    | next hb hpos' hleast' hrest' =>
      have hstart := Nat.le_antisymm (hleast _ hb hpos') (hleast' _ ha hpos)
      obtain rfl := hone _ _ ha hb hstart
      rw [ih hrest']

theorem occurs (h : Leftmost Occurs start stop pos found) : ∀ a ∈ found, Occurs a := by
  induction h with
  | none _ => exact List.forall_mem_nil _
  | next ha _ _ _ ih => exact List.forall_mem_cons.2 ⟨ha, ih⟩

section

variable (hspan : ∀ a, Occurs a → start a < stop a)

include hspan

theorem le_start (h : Leftmost Occurs start stop pos found) : ∀ a ∈ found, pos ≤ start a := by
  induction h with
  | none _ => exact List.forall_mem_nil _
  | next ha hpos _ _ ih =>
    refine List.forall_mem_cons.2 ⟨hpos, fun b hb => ?_⟩
    have hbehind := ih b hb
    have hlong := hspan _ ha
    omega

theorem pairwise (h : Leftmost Occurs start stop pos found) :
    found.Pairwise fun earlier later => stop earlier < start later := by
  induction h with
  | none _ => exact .nil
  | next _ _ _ hrest ih => exact .cons (fun b hb => hrest.le_start hspan b hb) ih

/-- No place lies in two things that are found. -/
theorem eq_of_shared (h : Leftmost Occurs start stop pos found) {a b : α} {place : Nat}
    (ha : a ∈ found) (hb : b ∈ found) (ha' : start a ≤ place ∧ place ≤ stop a)
    (hb' : start b ≤ place ∧ place ≤ stop b) : a = b := by
  induction h with
  | none _ => cases ha
  | next _ _ _ hrest ih =>
    rcases List.mem_cons.1 ha with rfl | hata <;> rcases List.mem_cons.1 hb with rfl | hatb
    · rfl
    · have hbehind := hrest.le_start hspan b hatb
      omega
    · have hbehind := hrest.le_start hspan a hata
      omega
    · exact ih hata hatb

end

theorem covers (hone : ∀ a b, Occurs a → Occurs b → start a = start b → a = b)
    (h : Leftmost Occurs start stop pos found) {b : α} (hb : Occurs b) (hpos : pos ≤ start b) :
    b ∈ found ∨ ∃ a ∈ found, start a < start b ∧ start b ≤ stop a := by
  induction h with
  | none hall => exact absurd hpos (Nat.not_le.2 (hall b hb))
  | @next pos a found ha _ hleast _ ih =>
    have hle := hleast b hb hpos
    by_cases heq : start a = start b
    · rw [hone a b ha hb heq]
      exact .inl List.mem_cons_self
    · by_cases hbehind : stop a + 1 ≤ start b
      · rcases ih hbehind with hmem | ⟨c, hc, hinside⟩
        · exact .inl (List.mem_cons_of_mem a hmem)
        · exact .inr ⟨c, List.mem_cons_of_mem a hc, hinside⟩
      · exact .inr ⟨a, List.mem_cons_self, by omega, by omega⟩

end Leftmost
end SourceSplit
