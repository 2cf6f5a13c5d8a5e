import OssTest.Lib.Steps
import Mathlib.Order.OrderIsoNat

/-!
# Schedules that never end

A schedule hands out actions for ever.  An action that is not enabled passes without
effect, as a thread does that waits for a lock, so a schedule takes the system through a
state for every point in time.

* `exists_run_stateAt` — the states of a schedule are the ends of runs, so that what is
  known about runs holds of them.
* `eventually_zero` — a rank that falls again and again comes to be 0.
* `finitely_often` — what makes a rank drop that nothing raises happens finitely often.
-/

namespace Steps

variable {σ α : Type*} {step : σ → α → Option σ} {s : σ} {sched : ℕ → α}

/-- The state after `t` scheduled actions. -/
def stateAt (step : σ → α → Option σ) (s : σ) (sched : ℕ → α) : ℕ → σ
  | 0 => s
  | t + 1 => (step (stateAt step s sched t) (sched t)).getD (stateAt step s sched t)

/-- One scheduled action: it takes effect, or passes. -/
theorem stateAt_succ (step : σ → α → Option σ) (s : σ) (sched : ℕ → α) (t : ℕ) :
    step (stateAt step s sched t) (sched t) = some (stateAt step s sched (t + 1)) ∨
      (step (stateAt step s sched t) (sched t) = none ∧
        stateAt step s sched (t + 1) = stateAt step s sched t) := by
  rw [stateAt]
  cases h : step (stateAt step s sched t) (sched t) with
  | none => exact Or.inr ⟨rfl, rfl⟩
  | some s' => exact Or.inl rfl

theorem stateAt_succ_of_step {t : ℕ} {s' : σ}
    (h : step (stateAt step s sched t) (sched t) = some s') :
    stateAt step s sched (t + 1) = s' := by
  rw [stateAt, h, Option.getD_some]

/-- **The states of a schedule are the ends of runs.** -/
theorem exists_run_stateAt (step : σ → α → Option σ) (s : σ) (sched : ℕ → α) (t : ℕ) :
    ∃ as, runFrom step s as = some (stateAt step s sched t) ∧ ∀ a ∈ as, ∃ u, sched u = a := by
  induction t with
  | zero => exact ⟨[], rfl, by simp⟩
  | succ t ih =>
    obtain ⟨as, hrun, has⟩ := ih
    rcases stateAt_succ step s sched t with hstep | ⟨-, hstay⟩
    · refine ⟨as ++ [sched t], ?_, ?_⟩
      · exact runFrom_append_eq_some.2 ⟨_, hrun, runFrom_cons_eq_some.2 ⟨_, hstep, rfl⟩⟩
      · intro a ha
        rcases List.mem_append.1 ha with ha | ha
        · exact has a ha
        · exact ⟨t, (List.mem_singleton.1 ha).symm⟩
    · exact ⟨as, hstay ▸ hrun, has⟩

/-- **The invariant rule.** -/
theorem stateAt_invariant {Inv : σ → Prop}
    (hstep : ∀ s a s', Inv s → step s a = some s' → Inv s') {T : ℕ}
    (hT : Inv (stateAt step s sched T)) {t : ℕ} (ht : T ≤ t) : Inv (stateAt step s sched t) := by
  induction t, ht using Nat.le_induction with
  | base => exact hT
  | succ t _ ih =>
    rcases stateAt_succ step s sched t with h | ⟨-, hstay⟩
    · exact hstep _ _ _ ih h
    · rw [hstay]
      exact ih

/-! ## Ranks -/

/-- A number that never grows again settles. -/
theorem eventually_constant {f : ℕ → ℕ} {T : ℕ} (h : ∀ t, T ≤ t → f (t + 1) ≤ f t) :
    ∃ N, T ≤ N ∧ ∀ t, N ≤ t → f t = f N := by
  have hmono : Antitone fun t => f (T + t) :=
    antitone_nat_of_succ_le fun t => h (T + t) (Nat.le_add_right T t)
  obtain ⟨N, hN⟩ := WellFoundedLT.antitone_chain_condition hmono
  refine ⟨T + N, Nat.le_add_right T N, ?_⟩
  intro t ht
  obtain ⟨k, rfl⟩ := Nat.exists_eq_add_of_le ht
  rw [Nat.add_assoc]
  exact (hN (N + k) (Nat.le_add_right N k)).symm

/-- **A number that falls again and again until it is 0** comes to be 0 and stays there. -/
theorem eventually_zero {f : ℕ → ℕ} {T : ℕ} (hle : ∀ t, T ≤ t → f (t + 1) ≤ f t)
    (hlt : ∀ U, ∃ t, U ≤ t ∧ (f t ≠ 0 → f (t + 1) < f t)) : ∃ N, T ≤ N ∧ ∀ t, N ≤ t → f t = 0 := by
  obtain ⟨N, hN, hconst⟩ := eventually_constant hle
  refine ⟨N, hN, ?_⟩
  obtain ⟨t, ht, hdrop⟩ := hlt N
  have hsame : f (t + 1) = f t := (hconst (t + 1) (ht.trans (Nat.le_succ t))).trans
    (hconst t ht).symm
  have hzero : f t = 0 := by
    by_contra hpos
    exact absurd hsame (hdrop hpos).ne
  intro u hu
  rw [hconst u hu, ← hconst t ht, hzero]

/-- **What a rank pays for happens finitely often.** -/
theorem finitely_often {Inv : σ → Prop} (rank : σ → ℕ) {P : σ → σ → Prop}
    (hstep : ∀ s a s', Inv s → step s a = some s' →
      Inv s' ∧ rank s' ≤ rank s ∧ (P s s' → rank s' < rank s))
    (hstay : ∀ s, ¬ P s s) {T : ℕ} (hT : Inv (stateAt step s sched T)) :
    ∃ N, ∀ t, N ≤ t → ¬ P (stateAt step s sched t) (stateAt step s sched (t + 1)) := by
  have hinv : ∀ {t}, T ≤ t → Inv (stateAt step s sched t) := fun ht =>
    stateAt_invariant (fun s a s' hs h => (hstep s a s' hs h).1) hT ht
  obtain ⟨N, hN, hconst⟩ := eventually_constant (f := fun t => rank (stateAt step s sched t))
    (T := T) (by
      intro t ht
      rcases stateAt_succ step s sched t with h | ⟨-, hsame⟩
      · exact (hstep _ _ _ (hinv ht) h).2.1
      · exact le_of_eq (congrArg rank hsame))
  refine ⟨N, ?_⟩
  intro t ht hP
  rcases stateAt_succ step s sched t with h | ⟨-, hsame⟩
  · have hlt := (hstep _ _ _ (hinv (hN.trans ht)) h).2.2 hP
    exact absurd ((hconst (t + 1) (ht.trans (Nat.le_succ t))).trans (hconst t ht).symm) hlt.ne
  · rw [hsame] at hP
    exact hstay _ hP

end Steps
