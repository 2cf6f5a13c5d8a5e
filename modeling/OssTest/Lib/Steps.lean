import Mathlib.Data.List.Basic
import Mathlib.Data.List.Induction
import Mathlib.Data.Option.Basic
import Mathlib.Logic.Relation

/-!
# Runs of a partial step function

A system is given by a step function `step : σ → α → Option σ`: in state `s`
the action `a` leads to `s'` when `step s a = some s'`, and is not enabled when
`step s a = none`.  Nothing here knows what the states or the actions are.

* `runFrom` executes a list of actions; `runFrom_append` cuts a run in two.
* `runFrom_invariant` — what every step preserves holds at the end of every run.
* `Along` — every step of a run meets a condition on the state it starts from
  and the action it takes; `Along.invariant` is the invariant rule for such runs.
* `Reaches` — some run leads from one state to the other.
* `runFrom_simulation` — if every step of one system is answered by a run of
  another, so is every run.
* `Simulates` — every step of a system is answered by one step of a relation, or by
  none, and `Simulates.run` says what this makes of a run.
-/

namespace Steps

variable {σ α : Type*} {step : σ → α → Option σ}

/-- Execute a list of actions, stopping with `none` at the first one that is not enabled. -/
def runFrom (step : σ → α → Option σ) : σ → List α → Option σ
  | s, [] => some s
  | s, a :: as => (step s a).bind fun s' => runFrom step s' as

@[simp] theorem runFrom_nil (s : σ) : runFrom step s [] = some s := rfl

theorem runFrom_cons (s : σ) (a : α) (as : List α) :
    runFrom step s (a :: as) = (step s a).bind fun s' => runFrom step s' as := rfl

/-- The first step of a run, and the run that is left. -/
theorem runFrom_cons_eq_some {s s' : σ} {a : α} {as : List α} :
    runFrom step s (a :: as) = some s' ↔ ∃ t, step s a = some t ∧ runFrom step t as = some s' := by
  rw [runFrom_cons, Option.bind_eq_some_iff]

theorem runFrom_append (s : σ) (as bs : List α) :
    runFrom step s (as ++ bs) = (runFrom step s as).bind fun t => runFrom step t bs := by
  induction as generalizing s with
  | nil => rfl
  | cons a as ih =>
    rw [List.cons_append, runFrom_cons, runFrom_cons, Option.bind_assoc]
    exact congrArg _ (funext fun t => ih t)

/-- **A run cut in two.** -/
theorem runFrom_append_eq_some {s s' : σ} {as bs : List α} :
    runFrom step s (as ++ bs) = some s' ↔
      ∃ t, runFrom step s as = some t ∧ runFrom step t bs = some s' := by
  rw [runFrom_append, Option.bind_eq_some_iff]

/-- One more step at the end of a run. -/
theorem runFrom_concat {s t u : σ} {as : List α} {a : α} (h : runFrom step s as = some t)
    (ha : step t a = some u) : runFrom step s (as ++ [a]) = some u :=
  runFrom_append_eq_some.2 ⟨t, h, runFrom_cons_eq_some.2 ⟨u, ha, rfl⟩⟩

/-! ## Invariants -/

/-- **The invariant rule.** -/
theorem runFrom_invariant {Inv : σ → Prop}
    (hstep : ∀ s a s', Inv s → step s a = some s' → Inv s') {s s' : σ} {as : List α}
    (h : runFrom step s as = some s') (hs : Inv s) : Inv s' := by
  induction as generalizing s with
  | nil => cases h; exact hs
  | cons a as ih =>
    obtain ⟨t, ht, hrest⟩ := runFrom_cons_eq_some.1 h
    exact ih hrest (hstep s a t hs ht)

/-- **The invariant rule with the history of the run.** -/
theorem runFrom_history {s : σ} {P : List α → σ → Prop} (hnil : P [] s)
    (hstep : ∀ as t a t', runFrom step s as = some t → P as t → step t a = some t' →
      P (as ++ [a]) t') {s' : σ} {as : List α} (h : runFrom step s as = some s') : P as s' := by
  induction as using List.reverseRecOn generalizing s' with
  | nil => cases h; exact hnil
  | append_singleton as a ih =>
    obtain ⟨t, ht, hlast⟩ := runFrom_append_eq_some.1 h
    obtain ⟨t', ht', hend⟩ := runFrom_cons_eq_some.1 hlast
    cases hend
    exact hstep as t a s' ht (ih ht) ht'

/-- Every step of the run meets `ok`, a condition on the state the step starts
from and on the action taken there. -/
def Along (step : σ → α → Option σ) (ok : σ → α → Prop) : σ → List α → Prop
  | _, [] => True
  | s, a :: as => ok s a ∧ ∀ s', step s a = some s' → Along step ok s' as

@[simp] theorem along_nil {ok : σ → α → Prop} (s : σ) : Along step ok s [] := trivial

instance Along.decidable {ok : σ → α → Prop} [∀ s a, Decidable (ok s a)] :
    ∀ (s : σ) (as : List α), Decidable (Along step ok s as)
  | _, [] => isTrue trivial
  | s, a :: as =>
      match h : step s a with
      | none => decidable_of_iff (ok s a)
          ⟨fun hok => ⟨hok, fun _ hs' => nomatch h.symm.trans hs'⟩, And.left⟩
      | some t =>
          have : Decidable (Along step ok t as) := Along.decidable t as
          decidable_of_iff (ok s a ∧ Along step ok t as)
            ⟨fun hal => ⟨hal.1, fun _ hs' => Option.some.inj (h.symm.trans hs') ▸ hal.2⟩,
              fun hal => ⟨hal.1, hal.2 t h⟩⟩

theorem along_append {ok : σ → α → Prop} {s t : σ} {as bs : List α}
    (hrun : runFrom step s as = some t) :
    Along step ok s (as ++ bs) ↔ Along step ok s as ∧ Along step ok t bs := by
  induction as generalizing s with
  | nil => cases hrun; simp
  | cons a as ih =>
    obtain ⟨u, hu, hrest⟩ := runFrom_cons_eq_some.1 hrun
    constructor
    · rintro ⟨hok, hnext⟩
      have hpair := (ih hrest).1 (hnext u hu)
      refine ⟨⟨hok, ?_⟩, hpair.2⟩
      intro u' hu'
      cases hu.symm.trans hu'
      exact hpair.1
    · rintro ⟨⟨hok, hnext⟩, hbs⟩
      refine ⟨hok, ?_⟩
      intro u' hu'
      cases hu.symm.trans hu'
      exact (ih hrest).2 ⟨hnext u hu, hbs⟩

/-- Actions that meet the condition in every state meet it along every run. -/
theorem along_of_forall {ok : σ → α → Prop} {s : σ} {as : List α}
    (h : ∀ a ∈ as, ∀ s, ok s a) : Along step ok s as := by
  induction as generalizing s with
  | nil => trivial
  | cons a as ih =>
    exact ⟨h a List.mem_cons_self s, fun _ _ => ih fun b hb => h b (List.mem_cons_of_mem _ hb)⟩

theorem Along.and {ok ok' : σ → α → Prop} {s : σ} {as : List α} (h : Along step ok s as)
    (h' : Along step ok' s as) : Along step (fun s a => ok s a ∧ ok' s a) s as := by
  induction as generalizing s with
  | nil => trivial
  | cons a as ih => exact ⟨⟨h.1, h'.1⟩, fun s' hs' => ih (h.2 s' hs') (h'.2 s' hs')⟩

/-- **The invariant rule for runs whose steps all meet a condition.** -/
theorem Along.invariant {ok : σ → α → Prop} {Inv : σ → Prop}
    (hstep : ∀ s a s', Inv s → ok s a → step s a = some s' → Inv s') {s s' : σ} {as : List α}
    (hok : Along step ok s as) (h : runFrom step s as = some s') (hs : Inv s) : Inv s' := by
  induction as generalizing s with
  | nil => cases h; exact hs
  | cons a as ih =>
    obtain ⟨t, ht, hrest⟩ := runFrom_cons_eq_some.1 h
    exact ih (hok.2 t ht) hrest (hstep s a t hs hok.1 ht)

/-- A condition fails along a run exactly where some step breaks it. -/
theorem not_along_iff {ok : σ → α → Prop} {s s' : σ} {as : List α}
    (h : runFrom step s as = some s') :
    ¬ Along step ok s as ↔
      ∃ pre a post t, as = pre ++ a :: post ∧ runFrom step s pre = some t ∧ ¬ ok t a := by
  induction as generalizing s with
  | nil => simp
  | cons a as ih =>
    obtain ⟨t, ht, hrest⟩ := runFrom_cons_eq_some.1 h
    constructor
    · intro hno
      by_cases hok : ok s a
      · have hrest' : ¬ Along step ok t as := fun hal =>
          hno ⟨hok, fun t' ht' => by cases ht.symm.trans ht'; exact hal⟩
        obtain ⟨pre, b, post, u, rfl, hu, hb⟩ := (ih hrest).1 hrest'
        exact ⟨a :: pre, b, post, u, rfl, by rw [runFrom_cons_eq_some]; exact ⟨t, ht, hu⟩, hb⟩
      · exact ⟨[], a, as, s, rfl, rfl, hok⟩
    · rintro ⟨pre, b, post, u, hsplit, hu, hb⟩ hal
      have hal' : Along step ok s (pre ++ b :: post) := hsplit ▸ hal
      exact hb ((along_append hu).1 hal').2.1

/-! ## Reachability -/

/-- Some run leads from `s` to `t`. -/
def Reaches (step : σ → α → Option σ) (s t : σ) : Prop := ∃ as, runFrom step s as = some t

theorem Reaches.refl (s : σ) : Reaches step s s := ⟨[], rfl⟩

theorem Reaches.trans {s t u : σ} (h₁ : Reaches step s t) (h₂ : Reaches step t u) :
    Reaches step s u := by
  obtain ⟨as, has⟩ := h₁
  obtain ⟨bs, hbs⟩ := h₂
  exact ⟨as ++ bs, runFrom_append_eq_some.2 ⟨t, has, hbs⟩⟩

theorem Reaches.single {s t : σ} (a : α) (h : step s a = some t) : Reaches step s t :=
  ⟨[a], by rw [runFrom_cons_eq_some]; exact ⟨t, h, rfl⟩⟩

/-- A step in front of a run. -/
theorem Reaches.head {s t u : σ} (a : α) (h : step s a = some t) (hrest : Reaches step t u) :
    Reaches step s u :=
  (Reaches.single a h).trans hrest

/-! ## Simulation -/

/-- **Simulation.**  If every step of the first system that meets a condition is,
seen through `abs`, a run of the second whose steps meet another, then so is every run. -/
theorem runFrom_simulation {τ β : Type*} {step' : τ → β → Option τ} {abs : σ → τ}
    {ok : σ → α → Prop} {ok' : τ → β → Prop}
    (hsim : ∀ s a s', ok s a → step s a = some s' →
      ∃ bs, runFrom step' (abs s) bs = some (abs s') ∧ Along step' ok' (abs s) bs)
    {s s' : σ} {as : List α} (hok : Along step ok s as) (h : runFrom step s as = some s') :
    ∃ bs, runFrom step' (abs s) bs = some (abs s') ∧ Along step' ok' (abs s) bs := by
  induction as generalizing s with
  | nil => cases h; exact ⟨[], rfl, along_nil _⟩
  | cons a as ih =>
    obtain ⟨t, ht, hrest⟩ := runFrom_cons_eq_some.1 h
    obtain ⟨bs, hbs, hokbs⟩ := hsim s a t hok.1 ht
    obtain ⟨cs, hcs, hokcs⟩ := ih (hok.2 t ht) hrest
    exact ⟨bs ++ cs, runFrom_append_eq_some.2 ⟨_, hbs, hcs⟩, (along_append hbs).2 ⟨hokbs, hokcs⟩⟩

/-- **Forward simulation with stutters.**  Whatever a state shows, a step from it leads to a
state that shows the same or what one step of `Step` makes of it. -/
def Simulates {τ : Type*} (step : σ → α → Option σ) (Step : τ → τ → Prop) (Shown : σ → τ → Prop) :
    Prop :=
  ∀ s a s' b, Shown s b → step s a = some s' → ∃ b', Shown s' b' ∧ (b' = b ∨ Step b b')

/-- A run is, step by step, a run of what it shows. -/
theorem Simulates.run {τ : Type*} {Step : τ → τ → Prop} {Shown : σ → τ → Prop}
    (hsim : Simulates step Step Shown) {s s' : σ} {as : List α} {b : τ} (hs : Shown s b)
    (h : runFrom step s as = some s') :
    ∃ b', Shown s' b' ∧ Relation.ReflTransGen Step b b' := by
  have hstep : ∀ t a t', (∃ c, Shown t c ∧ Relation.ReflTransGen Step b c) → step t a = some t' →
      ∃ c, Shown t' c ∧ Relation.ReflTransGen Step b c := by
    rintro t a t' ⟨c, hc, hreach⟩ hmove
    obtain ⟨c', hc', hsame | hnext⟩ := hsim t a t' c hc hmove
    · exact ⟨c', hc', hsame ▸ hreach⟩
    · exact ⟨c', hc', hreach.tail hnext⟩
  exact runFrom_invariant hstep h ⟨b, hs, .refl⟩

end Steps
