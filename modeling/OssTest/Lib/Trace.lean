import Mathlib.Data.List.Basic

/-!
# Traces that justify their events

A trace is what a system has done so far, event by event.  `Justified R` says of
every event that `R` relates it to what came before it; a system keeps it by
appending events that are justified at that moment (`justified_concat`).
-/

namespace Trace

variable {β : Type*}

/-- Every event is related to what came before it. -/
def Justified (R : List β → β → Prop) (trace : List β) : Prop :=
  ∀ pre e post, trace = pre ++ e :: post → R pre e

theorem justified_nil (R : List β → β → Prop) : Justified R [] := by
  intro pre e post h
  exact absurd h.symm (List.append_ne_nil_of_right_ne_nil pre (List.cons_ne_nil e post))

/-- **One more event.** -/
theorem justified_concat {R : List β → β → Prop} {trace : List β} {e : β} :
    Justified R (trace ++ [e]) ↔ Justified R trace ∧ R trace e := by
  constructor
  · intro h
    refine ⟨fun pre d post hsplit => h pre d (post ++ [e]) (by simp [hsplit]), h trace e [] rfl⟩
  · rintro ⟨h, he⟩ pre d post hsplit
    rcases List.eq_nil_or_concat post with rfl | ⟨post, e', rfl⟩
    · obtain ⟨rfl, hd⟩ := List.append_inj' hsplit rfl
      cases hd
      exact he
    · rw [List.concat_eq_append, ← List.cons_append, ← List.append_assoc] at hsplit
      obtain ⟨hpre, -⟩ := List.append_inj' hsplit rfl
      exact h pre d post hpre

end Trace
