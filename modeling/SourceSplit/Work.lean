import SourceSplit.Files.Change
import SourceSplit.Log.Event

/-!
# SourceSplit.Work

Work on a file tree: it ends in a value or a failure, leaves a tree behind either way, and reports
events on the way. What work does cannot depend on what was reported before it. `Work` is a
lawful monad; a failure ends the work but keeps the tree and the events up to it.
-/

namespace SourceSplit

open Split (Failure)
open Log (Event)

structure Ran (α : Type) where
  result : Except Failure α
  tree : Files.Tree
  events : List Event

def Work (α : Type) :=
  Files.Tree → Ran α

namespace Work

def run {α : Type} (work : Work α) (tree : Files.Tree) : Ran α :=
  work tree

protected def pure {α : Type} (a : α) : Work α :=
  fun tree => ⟨.ok a, tree, []⟩

protected def bind {α β : Type} (work : Work α) (next : α → Work β) : Work β :=
  fun tree =>
    match work tree with
    | ⟨.error failure, after, events⟩ => ⟨.error failure, after, events⟩
    | ⟨.ok a, after, events⟩ =>
      let ran := next a after
      ⟨ran.result, ran.tree, events ++ ran.events⟩

instance : Monad Work where
  pure := Work.pure
  bind := Work.bind

theorem map_id {α : Type} (work : Work α) : id <$> work = work := by
  funext tree
  simp only [Functor.map, Work.bind, Work.pure, Function.comp]
  split <;> simp_all

theorem bind_pure_left {α β : Type} (a : α) (next : α → Work β) : pure a >>= next = next a := by
  funext tree
  simp [pure, bind, Work.pure, Work.bind]

theorem bind_bind {α β γ : Type} (work : Work α) (f : α → Work β) (g : β → Work γ) :
    work >>= f >>= g = work >>= fun a => f a >>= g := by
  funext tree
  simp only [bind, Work.bind]
  rcases work tree with ⟨result, after, events⟩
  cases result with
  | error failure => rfl
  | ok a =>
    simp only
    rcases f a after with ⟨result, after, events⟩
    cases result <;> simp

instance : LawfulMonad Work :=
  LawfulMonad.mk' Work map_id bind_pure_left bind_bind

def fail {α : Type} (failure : Failure) : Work α :=
  fun tree => ⟨.error failure, tree, []⟩

def report (events : List Event) : Work Unit :=
  fun tree => ⟨.ok (), tree, events⟩

/-- A value or a failure read off the tree. -/
def look {α : Type} (f : Files.Tree → Except Failure α) : Work α :=
  fun tree => ⟨f tree, tree, []⟩

/-- The result as a value, so that the work goes on after a failure. -/
def attempt {α : Type} (work : Work α) : Work (Except Failure α) :=
  fun tree =>
    let ran := work tree
    ⟨.ok ran.result, ran.tree, ran.events⟩

@[simp] theorem run_pure {α : Type} (a : α) (tree : Files.Tree) :
    (pure a : Work α).run tree = ⟨.ok a, tree, []⟩ := rfl

@[simp] theorem run_fail {α : Type} (failure : Failure) (tree : Files.Tree) :
    (fail failure : Work α).run tree = ⟨.error failure, tree, []⟩ := rfl

@[simp] theorem run_report (events : List Event) (tree : Files.Tree) :
    (report events).run tree = ⟨.ok (), tree, events⟩ := rfl

@[simp] theorem run_look {α : Type} (f : Files.Tree → Except Failure α) (tree : Files.Tree) :
    (look f).run tree = ⟨f tree, tree, []⟩ := rfl

theorem run_bind_of_ok {α β : Type} {work : Work α} {next : α → Work β} {tree : Files.Tree} {a : α}
    (h : (work.run tree).result = .ok a) :
    (work >>= next).run tree =
      ⟨((next a).run (work.run tree).tree).result, ((next a).run (work.run tree).tree).tree,
        (work.run tree).events ++ ((next a).run (work.run tree).tree).events⟩ := by
  simp only [run] at h
  simp only [bind, run, Work.bind]
  split
  · simp_all
  · simp_all

theorem run_bind_of_error {α β : Type} {work : Work α} {next : α → Work β} {tree : Files.Tree}
    {failure : Failure} (h : (work.run tree).result = .error failure) :
    (work >>= next).run tree =
      ⟨.error failure, (work.run tree).tree, (work.run tree).events⟩ := by
  simp only [run] at h
  simp only [bind, run, Work.bind]
  split
  · simp_all
  · simp_all

end Work
end SourceSplit
