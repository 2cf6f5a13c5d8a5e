import OssTest.Lib.Steps

/-!
# What a run puts out

A step may put something out, say a call it makes or a value it reads.  `outputs` lists
what the steps of a run put out, in order.  A part of the state that only outputs change
can then be computed from them alone.

* `outputs_append`, `mem_outputs` — the outputs of a run cut in two.
* `runFrom_foldl` — a part of the state as a fold over the outputs.
-/

namespace Steps

variable {σ α β γ : Type*} {step : σ → α → Option σ} {out : σ → α → Option γ}

/-- What the steps of a run put out. -/
def outputs (step : σ → α → Option σ) (out : σ → α → Option γ) : σ → List α → List γ
  | _, [] => []
  | s, a :: as => (out s a).toList ++ (step s a).elim [] fun s' => outputs step out s' as

@[simp] theorem outputs_nil (s : σ) : outputs step out s [] = [] := rfl

/-- The first step, and the run that is left. -/
theorem outputs_cons {s t : σ} {a : α} (h : step s a = some t) (as : List α) :
    outputs step out s (a :: as) = (out s a).toList ++ outputs step out t as := by
  rw [outputs, h, Option.elim_some]

theorem outputs_append {s t : σ} {as : List α} (h : runFrom step s as = some t) (bs : List α) :
    outputs step out s (as ++ bs) = outputs step out s as ++ outputs step out t bs := by
  induction as generalizing s with
  | nil =>
    cases h
    rfl
  | cons a as ih =>
    obtain ⟨u, hu, hrest⟩ := runFrom_cons_eq_some.1 h
    rw [List.cons_append, outputs_cons hu, outputs_cons hu, ih hrest, List.append_assoc]

/-- One more step. -/
theorem outputs_concat {s t t' : σ} {as : List α} {a : α} (h : runFrom step s as = some t)
    (hstep : step t a = some t') :
    outputs step out s (as ++ [a]) = outputs step out s as ++ (out t a).toList := by
  rw [outputs_append h, outputs_cons hstep, outputs_nil, List.append_nil]

/-- What is put out, some step puts out. -/
theorem mem_outputs {s s' : σ} {as : List α} (h : runFrom step s as = some s') {y : γ}
    (hy : y ∈ outputs step out s as) :
    ∃ pre a post t, as = pre ++ a :: post ∧ runFrom step s pre = some t ∧ out t a = some y := by
  induction as generalizing s with
  | nil => cases hy
  | cons a as ih =>
    obtain ⟨u, hu, hrest⟩ := runFrom_cons_eq_some.1 h
    rw [outputs_cons hu, List.mem_append, Option.mem_toList] at hy
    rcases hy with hy | hy
    · exact ⟨[], a, as, s, rfl, rfl, hy⟩
    · obtain ⟨pre, b, post, t, rfl, ht, hout⟩ := ih hrest hy
      exact ⟨a :: pre, b, post, t, rfl, runFrom_cons_eq_some.2 ⟨u, hu, ht⟩, hout⟩

/-- **A part of the state that only outputs change** is a fold over them. -/
theorem runFrom_foldl {proj : σ → β} {f : β → γ → β}
    (hstep : ∀ s a s', step s a = some s' → proj s' = (out s a).elim (proj s) (f (proj s)))
    {s s' : σ} {as : List α} (h : runFrom step s as = some s') :
    proj s' = (outputs step out s as).foldl f (proj s) := by
  induction as generalizing s with
  | nil =>
    cases h
    rfl
  | cons a as ih =>
    obtain ⟨t, ht, hrest⟩ := runFrom_cons_eq_some.1 h
    rw [ih hrest, hstep s a t ht, outputs_cons ht, List.foldl_append]
    cases out s a <;> rfl

end Steps
