import SourceSplit.Work

/-!
# SourceSplit.Proofs.Ending

What work comes to apart from its events: the result and the tree it leaves behind. Every
operation has one equation for its ending, and the ending of two pieces of work in a row hangs on
the endings of the two alone.
-/

namespace SourceSplit
namespace Work

open Split (Failure)

def ending {α : Type} (work : Work α) (tree : Files.Tree) : Except Failure α × Files.Tree :=
  ((work.run tree).result, (work.run tree).tree)

@[simp] theorem ending_pure {α : Type} (a : α) (tree : Files.Tree) :
    (pure a : Work α).ending tree = (.ok a, tree) := rfl

@[simp] theorem ending_fail {α : Type} (failure : Failure) (tree : Files.Tree) :
    (fail failure : Work α).ending tree = (.error failure, tree) := rfl

@[simp] theorem ending_report (events : List Log.Event) (tree : Files.Tree) :
    (report events).ending tree = (.ok (), tree) := rfl

@[simp] theorem ending_look {α : Type} (f : Files.Tree → Except Failure α) (tree : Files.Tree) :
    (look f).ending tree = (f tree, tree) := rfl

theorem ending_bind {α β : Type} (work : Work α) (next : α → Work β) (tree : Files.Tree) :
    (work >>= next).ending tree =
      match work.ending tree with
      | (.error failure, after) => (.error failure, after)
      | (.ok a, after) => (next a).ending after := by
  cases h : (work.run tree).result with
  | error failure =>
    simp only [ending, run_bind_of_error h, h]
  | ok a =>
    simp only [ending, run_bind_of_ok h, h]

theorem ending_bind_of_ok {α β : Type} {work : Work α} {next : α → Work β}
    {tree after : Files.Tree} {a : α} (h : work.ending tree = (.ok a, after)) :
    (work >>= next).ending tree = (next a).ending after := by
  rw [ending_bind, h]

theorem ending_bind_of_error {α β : Type} {work : Work α} {next : α → Work β}
    {tree after : Files.Tree} {failure : Failure} (h : work.ending tree = (.error failure, after)) :
    (work >>= next).ending tree = (.error failure, after) := by
  rw [ending_bind, h]

/-- Work that leaves the tree alone, and goes on with work that does. -/
theorem bind_still {α β : Type} {work : Work α} {next : α → Work β} {tree : Files.Tree}
    (hw : (work.ending tree).2 = tree)
    (hn : ∀ a, (work.ending tree).1 = .ok a → ((next a).ending tree).2 = tree) :
    ((work >>= next).ending tree).2 = tree := by
  rw [ending_bind]
  generalize work.ending tree = ended at hw hn ⊢
  obtain ⟨result, after⟩ := ended
  cases hw
  cases result with
  | error failure => rfl
  | ok a => exact hn a rfl

end Work
end SourceSplit
