import OssTest.Lib.Steps

/-!
# Fields that steps overwrite

A step writes a field of the state or leaves it alone, and which of the two, and what it
writes, depends on the action only.  Then a run leaves in the field what its last write
put there.

* `runFrom_written` — the last write wins; `runFrom_last_write` cuts the run there.
* `runFrom_isSome_iff` — where the state has no say in whether an action is enabled, a
  run goes through exactly when each of its actions is enabled.
-/

namespace Steps

variable {σ α β γ : Type*} {step : σ → α → Option σ}

/-- What becomes of a field: nothing is written and it stays, or `b` is written and it
holds a value of `b`. -/
def Written (value : β → γ → Prop) : Option β → γ → γ → Prop
  | none, old, new => new = old
  | some b, _, new => value b new

/-- Two writes, the later one first. -/
theorem Written.trans {value : β → γ → Prop} {b c : Option β} {x y z : γ}
    (hb : Written value b x y) (hc : Written value c y z) : Written value (c.or b) x z := by
  cases c with
  | none =>
    obtain rfl : z = y := hc
    exact hb
  | some c => exact hc

/-- Where a write determines the value, nothing else does. -/
theorem Written.unique {value : β → γ → Prop}
    (hvalue : ∀ b y y', value b y → value b y' → y = y') {b : Option β} {x y y' : γ}
    (h : Written value b x y) (h' : Written value b x y') : y = y' := by
  cases b with
  | none => exact Eq.trans h (Eq.symm h')
  | some b => exact hvalue b y y' h h'

/-- **The last write wins.** -/
theorem runFrom_written {write : α → Option β} {value : β → γ → Prop} {field : σ → γ}
    (hstep : ∀ s a s', step s a = some s' → Written value (write a) (field s) (field s'))
    {s s' : σ} {as : List α} (h : runFrom step s as = some s') :
    Written value (as.filterMap write).getLast? (field s) (field s') := by
  induction as using List.reverseRecOn generalizing s' with
  | nil =>
    cases h
    rfl
  | append_singleton as a ih =>
    obtain ⟨t, ht, hlast⟩ := runFrom_append_eq_some.1 h
    obtain ⟨t', ht', hend⟩ := runFrom_cons_eq_some.1 hlast
    cases hend
    have hwritten := (ih ht).trans (hstep t a s' ht')
    rw [List.filterMap_append, List.getLast?_append]
    cases hwrite : write a with
    | none => simpa [hwrite] using hwritten
    | some b => simpa [hwrite] using hwritten

/-- A field that no action of the run writes. -/
theorem runFrom_unwritten {write : α → Option β} {value : β → γ → Prop} {field : σ → γ}
    (hstep : ∀ s a s', step s a = some s' → Written value (write a) (field s) (field s'))
    {s s' : σ} {as : List α} (h : runFrom step s as = some s') (hno : ∀ a ∈ as, write a = none) :
    field s' = field s := by
  have hwritten := runFrom_written hstep h
  rwa [List.filterMap_eq_nil_iff.2 hno] at hwritten

/-- **A run cut at its last write.** -/
theorem runFrom_last_write {write : α → Option β} {s s' : σ} {as : List α}
    (h : runFrom step s as = some s') (hwrite : ∃ a ∈ as, write a ≠ none) :
    ∃ pre a post b t t', as = pre ++ a :: post ∧ write a = some b ∧
      (∀ c ∈ post, write c = none) ∧ runFrom step s pre = some t ∧ step t a = some t' ∧
      runFrom step t' post = some s' := by
  induction as using List.reverseRecOn generalizing s' with
  | nil => simp at hwrite
  | append_singleton as c ih =>
    obtain ⟨u, hu, hlast⟩ := runFrom_append_eq_some.1 h
    obtain ⟨u', hu', hend⟩ := runFrom_cons_eq_some.1 hlast
    cases hend
    cases hc : write c with
    | some b => exact ⟨as, c, [], b, u, s', rfl, hc, by simp, hu, hu', rfl⟩
    | none =>
      -- the last action writes nothing: look among the others
      have hothers : ∃ a ∈ as, write a ≠ none := by simpa [or_and_right, exists_or, hc] using hwrite
      obtain ⟨pre, a, post, b, t, t', rfl, hb, hpost, hpre, ht, hrest⟩ := ih hu hothers
      refine ⟨pre, a, post ++ [c], b, t, t', by simp, hb, ?_, hpre, ht, ?_⟩
      · intro d hd
        rcases List.mem_append.1 hd with hd | hd
        · exact hpost d hd
        · rw [List.mem_singleton.1 hd, hc]
      · exact runFrom_append_eq_some.2 ⟨u, hrest, runFrom_cons_eq_some.2 ⟨s', hu', rfl⟩⟩

/-- **When a run goes through.** -/
theorem runFrom_isSome_iff {ok : α → Prop} (hstep : ∀ s a, (∃ s', step s a = some s') ↔ ok a)
    {s : σ} {as : List α} : (∃ s', runFrom step s as = some s') ↔ ∀ a ∈ as, ok a := by
  induction as generalizing s with
  | nil => simp
  | cons a as ih =>
    rw [List.forall_mem_cons, ← hstep s a]
    constructor
    · rintro ⟨s', h⟩
      obtain ⟨t, ht, hrest⟩ := runFrom_cons_eq_some.1 h
      exact ⟨⟨t, ht⟩, ih.1 ⟨s', hrest⟩⟩
    · rintro ⟨⟨t, ht⟩, hall⟩
      obtain ⟨s', hrest⟩ := ih.2 hall
      exact ⟨s', runFrom_cons_eq_some.2 ⟨t, ht, hrest⟩⟩

end Steps
