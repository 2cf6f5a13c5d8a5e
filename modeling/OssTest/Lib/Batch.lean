import Mathlib.Data.List.ReduceOption
import Mathlib.Data.Multiset.OrderedMonoid
import Mathlib.Logic.Relation

/-!
# A batch of jobs

Workers take the entries of a list in order, one at a time.  An entry without a job is
passed over.  A job is held until it is opened, and then finished; or it is lost before,
and takes its worker with it.

* `Batch.Step` — what can happen, in any order.
* `conserve_of_reaches` — no job is lost from sight and none is done twice.
* `capacity_of_reaches` — there are never more jobs at work than workers left.
-/

/-- A batch at work. -/
structure Batch (ι : Type*) where
  /-- The entries nobody has taken yet. -/
  todo : List (Option ι)
  held : Multiset ι
  opened : Multiset ι
  done : Multiset ι
  lost : Multiset ι

namespace Batch

variable {ι : Type*}

/-- Nothing was taken yet. -/
def start (todo : List (Option ι)) : Batch ι := ⟨todo, 0, 0, 0, 0⟩

/-- All jobs, wherever they are. -/
def jobs (b : Batch ι) : Multiset ι :=
  b.todo.reduceOption + b.held + b.opened + b.done + b.lost

/-- The workers that have a job or were lost with one. -/
def busy (b : Batch ι) : ℕ :=
  Multiset.card b.held + Multiset.card b.opened + Multiset.card b.lost

/-- **What can happen** to a batch with so many workers. -/
inductive Step (workers : ℕ) (b : Batch ι) : Batch ι → Prop
  | skip {rest : List (Option ι)} (h : b.todo = none :: rest) :
      Step workers b { b with todo := rest }
  | take {x : ι} {rest : List (Option ι)} (h : b.todo = some x :: rest)
      (hfree : b.busy < workers) :
      Step workers b { b with todo := rest, held := b.held + {x} }
  | start {x : ι} {held : Multiset ι} (h : b.held = held + {x}) :
      Step workers b { b with held := held, opened := b.opened + {x} }
  | lose {x : ι} {held : Multiset ι} (h : b.held = held + {x}) :
      Step workers b { b with held := held, lost := b.lost + {x} }
  | finish {x : ι} {opened : Multiset ι} (h : b.opened = opened + {x}) :
      Step workers b { b with opened := opened, done := b.done + {x} }

section Step

variable {workers : ℕ} {b b' : Batch ι}

theorem Step.jobs (h : Step workers b b') : b'.jobs = b.jobs := by
  cases h with
  | skip h =>
    rw [jobs, jobs, h, List.reduceOption_cons_of_none]
  | @take x rest h _ =>
    have hcons : ((some x :: rest).reduceOption : Multiset ι) = {x} + rest.reduceOption := by
      rw [List.reduceOption_cons_of_some, ← Multiset.cons_coe, Multiset.singleton_add]
    rw [jobs, jobs, h, hcons]
    dsimp only
    ac_rfl
  | start h | lose h | finish h =>
    rw [jobs, jobs, h]
    dsimp only
    ac_rfl

theorem Step.capacity (h : Step workers b b') (hb : b.busy ≤ workers) : b'.busy ≤ workers := by
  cases h with
  | skip _ => exact hb
  | take _ hfree =>
    simp only [busy, Multiset.card_add, Multiset.card_singleton] at hfree ⊢
    omega
  | start h | lose h | finish h =>
    simp only [busy, h, Multiset.card_add, Multiset.card_singleton] at hb ⊢
    omega

/-- **No job is lost from sight and none is done twice.** -/
theorem conserve_of_reaches (h : Relation.ReflTransGen (Step workers) b b') : b'.jobs = b.jobs := by
  induction h with
  | refl => rfl
  | tail _ hstep ih => rw [hstep.jobs, ih]

/-- **There are never more jobs at work than workers left.** -/
theorem capacity_of_reaches (h : Relation.ReflTransGen (Step workers) b b')
    (hb : b.busy ≤ workers) : b'.busy ≤ workers := by
  induction h with
  | refl => exact hb
  | tail _ hstep ih => exact hstep.capacity ih

end Step

end Batch
