import Mathlib.Algebra.BigOperators.Group.List.Basic
import Mathlib.Algebra.Order.BigOperators.Group.List
import Mathlib.Algebra.Order.BigOperators.Group.Multiset
import Mathlib.Algebra.Order.Ring.Nat
import Mathlib.Data.Multiset.OrderedMonoid
import Mathlib.Tactic.Abel

/-!
# A pool whose members change one at a time

The members of a pool hold something of their own, and what they hold together is
the sum.  A step replaces one member; `Pool.conserve` says that a balance between
what went into the pool, what came out of it and what is in it is kept as soon as
the step keeps it for the member that moved.
-/

namespace Pool

variable {ω μ : Type*} [AddCommMonoid μ]

/-- What the members hold together. -/
def total (f : ω → μ) (ws : List ω) : μ := (ws.map f).sum

@[simp] theorem total_nil (f : ω → μ) : total f [] = 0 := rfl

@[simp] theorem total_append (f : ω → μ) (us vs : List ω) :
    total f (us ++ vs) = total f us + total f vs := by
  simp [total]

@[simp] theorem total_singleton (f : ω → μ) (w : ω) : total f [w] = f w := by
  simp [total]

/-- Replacing a member changes the sum by what the two hold. -/
theorem total_set (f : ω → μ) {ws : List ω} {i : ℕ} {w : ω} (hi : ws[i]? = some w) (w' : ω) :
    total f (ws.set i w') + f w = total f ws + f w' := by
  induction ws generalizing i with
  | nil => cases hi
  | cons u us ih =>
    cases i with
    | zero =>
      cases hi
      simp [total, add_comm, add_left_comm]
    | succ i =>
      have := ih (by simpa using hi)
      simp only [total, List.set_cons_succ, List.map_cons, List.sum_cons] at this ⊢
      rw [add_assoc, this, add_assoc]

/-- **Conservation.**  What came out and what is held together make up what went
in; this stays so when it stays so for the member that moves. -/
theorem conserve [IsCancelAdd μ] {f : ω → μ} {ws : List ω} {i : ℕ} {w w' : ω}
    {out out' into into' : μ} (hi : ws[i]? = some w)
    (hmove : out' + f w' + into = out + f w + into') (h : out + total f ws = into) :
    out' + total f (ws.set i w') = into' := by
  have hset := total_set f hi w'
  have hsum : (out' + total f (ws.set i w')) + (f w + into) = into' + (f w + into) := by
    calc (out' + total f (ws.set i w')) + (f w + into)
        = out' + (total f (ws.set i w') + f w) + into := by abel
      _ = (out' + f w' + into) + total f ws := by rw [hset]; abel
      _ = (out + total f ws) + f w + into' := by rw [hmove]; abel
      _ = into' + (f w + into) := by rw [h]; abel
  exact add_right_cancel hsum

theorem total_eq_zero {f : ω → μ} {ws : List ω} (h : ∀ w ∈ ws, f w = 0) : total f ws = 0 := by
  induction ws with
  | nil => rfl
  | cons w ws ih =>
    have hws := ih fun u hu => h u (List.mem_cons_of_mem _ hu)
    rw [total] at hws ⊢
    rw [List.map_cons, List.sum_cons, h w List.mem_cons_self, hws, add_zero]

theorem total_congr {f g : ω → μ} {ws : List ω} (h : ∀ w ∈ ws, f w = g w) :
    total f ws = total g ws :=
  congrArg List.sum (List.map_congr_left h)

theorem map_total {β γ : Type*} (h : β → γ) (f : ω → Multiset β) (ws : List ω) :
    (total f ws).map h = total (fun w => (f w).map h) ws := by
  induction ws with
  | nil => rfl
  | cons w ws ih =>
    have hcons : total f (w :: ws) = f w + total f ws := rfl
    rw [hcons, Multiset.map_add, ih]
    rfl

theorem mem_total {β : Type*} {f : ω → Multiset β} {ws : List ω} {b : β} :
    b ∈ total f ws ↔ ∃ w ∈ ws, b ∈ f w := by
  induction ws with
  | nil => simp
  | cons w ws ih =>
    have hcons : total f (w :: ws) = f w + total f ws := rfl
    rw [hcons, Multiset.mem_add, ih]
    simp

theorem card_total {β : Type*} (f : ω → Multiset β) (ws : List ω) :
    Multiset.card (total f ws) = total (fun w => Multiset.card (f w)) ws := by
  induction ws with
  | nil => rfl
  | cons w ws ih =>
    have hcons : total f (w :: ws) = f w + total f ws := rfl
    rw [hcons, Multiset.card_add, ih]
    rfl

theorem filter_total {β : Type*} (p : β → Prop) [DecidablePred p] (f : ω → Multiset β)
    (ws : List ω) : (total f ws).filter p = total (fun w => (f w).filter p) ws := by
  induction ws with
  | nil => rfl
  | cons w ws ih =>
    have hcons : total f (w :: ws) = f w + total f ws := rfl
    rw [hcons, Multiset.filter_add, ih]
    rfl

/-- A map that makes nothing larger leaves a multiset as it is exactly when it leaves
every element as it is. -/
theorem map_eq_self_iff {α : Type*} {f : α → α} (size : α → ℕ) (hle : ∀ x, size (f x) ≤ size x)
    (hfix : ∀ x, size (f x) = size x → f x = x) {m : Multiset α} :
    m.map f = m ↔ ∀ x ∈ m, f x = x := by
  constructor
  · intro heq x hx
    by_contra hne
    have hlt : (m.map fun y => size (f y)).sum < (m.map size).sum :=
      Multiset.sum_lt_sum (fun y _ => hle y)
        ⟨x, hx, lt_of_le_of_ne (hle x) fun hsize => hne (hfix x hsize)⟩
    have hsum : (m.map fun y => size (f y)).sum = (m.map size).sum := by
      conv_rhs => rw [← heq, Multiset.map_map]
      rfl
    omega
  · intro h
    rw [Multiset.map_congr rfl h, Multiset.map_id']

/-- Where everybody has one at most and somebody has none, there are fewer than members. -/
theorem total_lt_length {f : ω → ℕ} {ws : List ω} (h : ∀ w ∈ ws, f w ≤ 1) {w : ω} (hw : w ∈ ws)
    (hzero : f w = 0) : total f ws < ws.length := by
  have hlt : (ws.map f).sum < (ws.map fun _ => 1).sum :=
    List.sum_lt_sum f (fun _ => 1) h ⟨w, hw, by simp [hzero]⟩
  simpa [total] using hlt

/-- What holds of every member holds after one was replaced, if it holds of the new one. -/
theorem forall_set {P : ω → Prop} {ws : List ω} {i : ℕ} {w' : ω} (h : ∀ w ∈ ws, P w)
    (hw' : P w') : ∀ w ∈ ws.set i w', P w := by
  intro w hw
  rcases List.mem_or_eq_of_mem_set hw with hw | rfl
  · exact h w hw
  · exact hw'

end Pool
