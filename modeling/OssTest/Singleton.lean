import OssTest.Lib.Trace
import Mathlib.Data.List.Induction

/-!
# `Singleton<T>`

`GetInstance` keeps the object in two places: the static member `m_pInstance`, which
`DestroyInstance` sets back to null, and a static local of the function, which is
initialised once in the life of the program and never again.  A `GetInstance` behind a
`DestroyInstance` hands out the second one, which still points to the object that was
deleted.

* `Lifetime` — what the class promises about a history of calls.
* `lifetime_iff` — it is kept exactly as long as nobody gets the object after it was
  destroyed.

An object is the number of its construction, so two objects are never confused.
-/

namespace Singleton

open Trace

open scoped List

/-- The calls.  `throws` says what the constructor of `T` does if the call runs it. -/
inductive Call where
  | getInstance (throws : Bool)
  | destroyInstance
  deriving DecidableEq, Repr

/-- What happens in a call. -/
inductive Event where
  | constructed (p : ℕ)
  | returned (p : ℕ)
  | destroyCalled
  | deleted (p : ℕ)
  deriving DecidableEq, Repr

/-- The two variables of the class, and what happened so far. -/
structure State where
  /-- The static member. -/
  mPInstance : Option ℕ
  /-- The static local of `GetInstance`; `none` before it is initialised. -/
  pInst : Option ℕ
  /-- How many objects were constructed. -/
  constructions : ℕ
  trace : List Event

/-- The program before the first call. -/
def State.start : State := ⟨none, none, 0, []⟩

/-- Append to the trace. -/
def State.emit (s : State) (es : List Event) : State := { s with trace := s.trace ++ es }

/-- `GetInstance()`.  A constructor that throws leaves the static local
uninitialised, and the call returns nothing. -/
def State.getInstance (s : State) (throws : Bool) : State :=
  match s.mPInstance with
  | some p => s.emit [.returned p]
  | none =>
      match s.pInst with
      | some p => { s with mPInstance := some p }.emit [.returned p]
      | none =>
          if throws then s
          else
            { s with
              mPInstance := some s.constructions
              pInst := some s.constructions
              constructions := s.constructions + 1 }.emit
              [.constructed s.constructions, .returned s.constructions]

/-- `DestroyInstance()`. -/
def State.destroyInstance (s : State) : State :=
  match s.mPInstance with
  | none => s.emit [.destroyCalled]
  | some p => { s with mPInstance := none }.emit [.destroyCalled, .deleted p]

/-- One call. -/
def State.call (s : State) : Call → State
  | .getInstance throws => s.getInstance throws
  | .destroyInstance => s.destroyInstance

/-- A sequence of calls, from the start of the program. -/
def run (calls : List Call) : State := calls.foldl State.call .start

theorem run_concat (calls : List Call) (c : Call) : run (calls ++ [c]) = (run calls).call c := by
  rw [run, List.foldl_append]
  rfl

/-! ## The promise -/

/-- The object is there: constructed and not deleted. -/
def Alive (trace : List Event) (p : ℕ) : Prop := .constructed p ∈ trace ∧ .deleted p ∉ trace

/-- **What the class promises.** -/
structure Lifetime (trace : List Event) : Prop where
  /-- An object that is handed out is there. -/
  returned : ∀ pre p post, trace = pre ++ .returned p :: post → Alive pre p
  /-- There is never more than one. -/
  single : ∀ pre post p q, trace = pre ++ post → Alive pre p → Alive pre q → p = q
  /-- It stays the same until `DestroyInstance` is called. -/
  same : ∀ pre p mid q post, trace = pre ++ .returned p :: (mid ++ .returned q :: post) →
    .destroyCalled ∉ mid → p = q
  /-- No object is deleted twice. -/
  once : ∀ pre p mid post, trace ≠ pre ++ .deleted p :: (mid ++ .deleted p :: post)

/-- An event that hands out or deletes an object needs it to be there. -/
def Event.Lawful (pre : List Event) : Event → Prop
  | .returned p | .deleted p => Alive pre p
  | _ => True

/-- The event is about no other than the first object. -/
def Event.First : Event → Prop
  | .constructed p | .returned p | .deleted p => p = 0
  | .destroyCalled => True

/-- **Where only one object is ever constructed, the promise is about what is handed
out and deleted.** -/
theorem lifetime_of_lawful {trace : List Event} (hfirst : ∀ e ∈ trace, e.First)
    (hlaw : Justified Event.Lawful trace) : Lifetime trace where
  returned := fun pre p post h => hlaw pre (.returned p) post h
  single := by
    intro pre post p q h hp hq
    have hmem : ∀ e ∈ pre, e.First := fun e he => hfirst e (h ▸ List.mem_append_left _ he)
    exact (hmem _ hp.1).trans (hmem _ hq.1).symm
  same := by
    intro pre p mid q post h _
    have hp : Event.First (.returned p) := hfirst _ (by simp [h])
    have hq : Event.First (.returned q) := hfirst _ (by simp [h])
    exact hp.trans hq.symm
  once := by
    intro pre p mid post h
    rw [← List.cons_append, ← List.append_assoc] at h
    exact (hlaw _ _ _ h).2 (by simp)

/-! ## The calls that break it -/

/-- The object was got, destroyed and got again. -/
def GotAgain (calls : List Call) : Prop :=
  ∃ throws, [.getInstance false, .destroyInstance, .getInstance throws] <+ calls

/-- The last element of a sublist is the last one of the list, or stands before it. -/
theorem sublist_concat {l calls : List Call} {x c : Call} :
    l ++ [x] <+ calls ++ [c] ↔ l ++ [x] <+ calls ∨ (x = c ∧ l <+ calls) := by
  rw [← List.reverse_sublist, List.reverse_concat, List.reverse_concat, List.cons_sublist_cons',
    ← List.reverse_concat, List.reverse_sublist, List.reverse_sublist]

theorem gotAgain_concat {calls : List Call} {c : Call} :
    GotAgain (calls ++ [c]) ↔
      GotAgain calls ∨ (∃ throws, c = .getInstance throws) ∧
        [.getInstance false, .destroyInstance] <+ calls := by
  have hstep : ∀ throws,
      [.getInstance false, .destroyInstance, .getInstance throws] <+ calls ++ [c] ↔
      [.getInstance false, .destroyInstance, .getInstance throws] <+ calls ∨
        (.getInstance throws = c ∧ [.getInstance false, .destroyInstance] <+ calls) :=
    fun throws => sublist_concat (l := [.getInstance false, .destroyInstance])
  simp only [GotAgain, hstep, exists_or, exists_and_right, eq_comm]

/-- Where the class stands after these calls. -/
inductive Phase (calls : List Call) (s : State) : Prop where
  /-- No object was constructed. -/
  | unused (hno : .getInstance false ∉ calls) (hm : s.mPInstance = none) (hp : s.pInst = none)
      (hc : s.constructions = 0) (hdel : .deleted 0 ∉ s.trace)
  /-- The object is there. -/
  | inUse (hgot : .getInstance false ∈ calls)
      (hno : ¬ [.getInstance false, .destroyInstance] <+ calls)
      (hm : s.mPInstance = some 0) (hp : s.pInst = some 0) (halive : Alive s.trace 0)
  /-- The object was deleted. -/
  | deleted (hgone : [.getInstance false, .destroyInstance] <+ calls) (hno : ¬ GotAgain calls)
      (hm : s.mPInstance = none) (hp : s.pInst = some 0) (hdel : .deleted 0 ∈ s.trace)
  /-- The object was handed out after it was deleted. -/
  | dangling (hagain : GotAgain calls) (hm : ∀ p, s.mPInstance = some p → p = 0)
      (hp : s.pInst = some 0)
      (hbad : ∃ pre post, s.trace = pre ++ .returned 0 :: post ∧ ¬ Alive pre 0)

/-- What is known after these calls. -/
structure Known (calls : List Call) (s : State) : Prop where
  first : ∀ e ∈ s.trace, e.First
  phase : Phase calls s
  lawful : ¬ GotAgain calls → Justified Event.Lawful s.trace

theorem GotAgain.gone {calls : List Call} (h : GotAgain calls) :
    [.getInstance false, .destroyInstance] <+ calls := by
  obtain ⟨throws, hsub⟩ := h
  have hpre : [Call.getInstance false, .destroyInstance] <+
      [.getInstance false, .destroyInstance, .getInstance throws] :=
    List.sublist_append_left [Call.getInstance false, .destroyInstance] _
  exact hpre.trans hsub

theorem gone_concat {calls : List Call} {c : Call} :
    [.getInstance false, .destroyInstance] <+ calls ++ [c] ↔
      [.getInstance false, .destroyInstance] <+ calls ∨
        (.destroyInstance = c ∧ .getInstance false ∈ calls) := by
  rw [← List.singleton_sublist (l := calls)]
  exact sublist_concat (l := [.getInstance false])

theorem known_start : Known [] .start where
  first := nofun
  phase := .unused List.not_mem_nil rfl rfl rfl List.not_mem_nil
  lawful := fun _ => justified_nil _

theorem Alive.append {trace : List Event} {p : ℕ} (h : Alive trace p) {e : Event}
    (he : e ≠ .deleted p) : Alive (trace ++ [e]) p := by
  refine ⟨List.mem_append_left _ h.1, ?_⟩
  rw [List.mem_append, List.mem_singleton, not_or]
  exact ⟨h.2, Ne.symm he⟩

theorem first_concat {trace : List Event} {e : Event} (h : ∀ e ∈ trace, e.First)
    (he : e.First) : ∀ e' ∈ trace ++ [e], e'.First :=
  List.forall_mem_append.2 ⟨h, List.forall_mem_singleton.2 he⟩

/-- An object handed out too late stays handed out too late. -/
theorem dangling_append {trace es : List Event}
    (h : ∃ pre post, trace = pre ++ .returned 0 :: post ∧ ¬ Alive pre 0) :
    ∃ pre post, trace ++ es = pre ++ .returned 0 :: post ∧ ¬ Alive pre 0 := by
  obtain ⟨pre, post, rfl, hno⟩ := h
  exact ⟨pre, post ++ es, by simp, hno⟩

section Step

variable {calls : List Call} {s : State}

/-- **`GetInstance` constructs the object, hands out the one that is there, or hands
out the one that was deleted.** -/
theorem Known.getInstance (h : Known calls s) (throws : Bool) :
    Known (calls ++ [.getInstance throws]) (s.getInstance throws) := by
  obtain ⟨hfirst, hphase, hlaw⟩ := h
  have hgone : [.getInstance false, .destroyInstance] <+ calls ++ [.getInstance throws] ↔
      [.getInstance false, .destroyInstance] <+ calls := by simp [gone_concat]
  have hagain : GotAgain (calls ++ [.getInstance throws]) ↔
      GotAgain calls ∨ [.getInstance false, .destroyInstance] <+ calls := by simp [gotAgain_concat]
  have hreturn := first_concat hfirst (show Event.First (.returned 0) from rfl)
  cases hphase with
  | unused hno hm hp hc hdel =>
    have hnogone : ¬ [.getInstance false, .destroyInstance] <+ calls := fun hsub =>
      hno (hsub.subset List.mem_cons_self)
    have hnoagain : ¬ GotAgain calls := fun h => hnogone h.gone
    cases throws with
    | true =>
      simp only [State.getInstance, hm, hp, if_true]
      exact ⟨hfirst, .unused (by simpa using hno) hm hp hc hdel, fun _ => hlaw hnoagain⟩
    | false =>
      have halive : Alive (s.trace ++ [.constructed 0]) 0 := by simp [Alive, hdel]
      have hsplit : s.trace ++ [.constructed 0, .returned 0] =
          s.trace ++ [.constructed 0] ++ [.returned 0] := by simp
      simp only [State.getInstance, hm, hp, hc, Bool.false_eq_true, if_false]
      refine ⟨?_, ?_, fun _ => ?_⟩
      · rw [State.emit, hsplit]
        exact first_concat (first_concat hfirst rfl) rfl
      · refine .inUse (by simp) (hgone.not.2 hnogone) rfl rfl ?_
        rw [State.emit, hsplit]
        exact halive.append nofun
      · rw [State.emit, hsplit]
        exact justified_concat.2 ⟨justified_concat.2 ⟨hlaw hnoagain, trivial⟩, halive⟩
  | inUse hgot hno hm hp halive =>
    have hnoagain : ¬ GotAgain calls := fun h => hno h.gone
    simp only [State.getInstance, hm]
    refine ⟨hreturn, ?_, fun _ => justified_concat.2 ⟨hlaw hnoagain, halive⟩⟩
    exact .inUse (List.mem_append_left _ hgot) (hgone.not.2 hno) hm hp (halive.append nofun)
  | deleted hdone hno hm hp hdel =>
    simp only [State.getInstance, hm, hp]
    refine ⟨hreturn, ?_, fun hnoagain => absurd (hagain.2 (Or.inr hdone)) hnoagain⟩
    refine .dangling (hagain.2 (Or.inr hdone)) (fun p hp => (Option.some.inj hp).symm) rfl ?_
    exact ⟨s.trace, [], rfl, fun halive => halive.2 hdel⟩
  | dangling hbefore hm hp hbad =>
    have hret : s.getInstance throws = { s with mPInstance := some 0 }.emit [.returned 0] := by
      cases hnow : s.mPInstance with
      | none => simp only [State.getInstance, hnow, hp]
      | some p =>
        obtain rfl := hm p hnow
        simp only [State.getInstance, hnow]
        rw [← hnow]
    rw [hret]
    refine ⟨hreturn, ?_, fun hnoagain => absurd (hagain.2 (Or.inl hbefore)) hnoagain⟩
    exact .dangling (hagain.2 (Or.inl hbefore)) (fun p hp => (Option.some.inj hp).symm) hp
      (dangling_append hbad)

/-- **`DestroyInstance` deletes what `m_pInstance` points to.** -/
theorem Known.destroyInstance (h : Known calls s) :
    Known (calls ++ [.destroyInstance]) s.destroyInstance := by
  obtain ⟨hfirst, hphase, hlaw⟩ := h
  have hgone : [.getInstance false, .destroyInstance] <+ calls ++ [.destroyInstance] ↔
      [.getInstance false, .destroyInstance] <+ calls ∨ .getInstance false ∈ calls := by
    simp [gone_concat]
  have hagain : GotAgain (calls ++ [.destroyInstance]) ↔ GotAgain calls := by
    simp [gotAgain_concat]
  have hcalled := first_concat hfirst (show Event.First .destroyCalled from trivial)
  have hnoted : ¬ GotAgain calls → Justified Event.Lawful (s.trace ++ [.destroyCalled]) :=
    fun hno => justified_concat.2 ⟨hlaw hno, trivial⟩
  have hsplit : ∀ p, s.trace ++ [.destroyCalled, .deleted p] =
      s.trace ++ [.destroyCalled] ++ [.deleted p] := fun p => by simp
  cases hphase with
  | unused hno hm hp hc hdel =>
    simp only [State.destroyInstance, hm]
    refine ⟨hcalled, ?_, fun hnoagain => hnoted (hagain.not.1 hnoagain)⟩
    exact .unused (by simpa using hno) hm hp hc (by simpa [State.emit] using hdel)
  | inUse hgot hno hm hp halive =>
    have hnoagain : ¬ GotAgain calls := fun h => hno h.gone
    simp only [State.destroyInstance, hm]
    refine ⟨?_, ?_, fun _ => ?_⟩
    · rw [State.emit, hsplit]
      exact first_concat hcalled rfl
    · refine .deleted (hgone.2 (Or.inr hgot)) (hagain.not.2 hnoagain) rfl hp ?_
      simp [State.emit]
    · rw [State.emit, hsplit]
      exact justified_concat.2 ⟨hnoted hnoagain, halive.append nofun⟩
  | deleted hdone hno hm hp hdel =>
    simp only [State.destroyInstance, hm]
    refine ⟨hcalled, ?_, fun _ => hnoted hno⟩
    exact .deleted (hgone.2 (Or.inl hdone)) (hagain.not.2 hno) hm hp
      (List.mem_append_left _ hdel)
  | dangling hbefore hm hp hbad =>
    cases hnow : s.mPInstance with
    | none =>
      simp only [State.destroyInstance, hnow]
      refine ⟨hcalled, ?_, fun hno => absurd (hagain.2 hbefore) hno⟩
      exact .dangling (hagain.2 hbefore) hm hp (dangling_append hbad)
    | some p =>
      obtain rfl := hm p hnow
      simp only [State.destroyInstance, hnow]
      refine ⟨?_, ?_, fun hno => absurd (hagain.2 hbefore) hno⟩
      · rw [State.emit, hsplit]
        exact first_concat hcalled rfl
      · exact .dangling (hagain.2 hbefore) nofun hp (dangling_append hbad)

end Step

theorem known_run (calls : List Call) : Known calls (run calls) := by
  induction calls using List.reverseRecOn with
  | nil => exact known_start
  | append_singleton calls c ih =>
    rw [run_concat]
    cases c with
    | getInstance throws => exact ih.getInstance throws
    | destroyInstance => exact ih.destroyInstance

/-- **The promise is kept exactly as long as nobody gets the object after it was
destroyed.**  For every sequence of calls: every object handed out is there, there is
never more than one, it stays the same until it is destroyed, and none is deleted
twice, if and only if no `GetInstance` stands behind a `DestroyInstance` that stands
behind a `GetInstance` which constructed the object. -/
theorem lifetime_iff (calls : List Call) : Lifetime (run calls).trace ↔ ¬ GotAgain calls := by
  obtain ⟨hfirst, hphase, hlaw⟩ := known_run calls
  constructor
  · intro hlife hagain
    cases hphase with
    | unused hno => exact hno (hagain.gone.subset List.mem_cons_self)
    | inUse hgot hno => exact hno hagain.gone
    | deleted hgone hno => exact hno hagain
    | dangling _ hm hp hbad =>
      obtain ⟨pre, post, htrace, hdead⟩ := hbad
      exact hdead (hlife.returned pre 0 post htrace)
  · exact fun hno => lifetime_of_lawful hfirst (hlaw hno)

/-- Get, destroy, get: the second `GetInstance` hands out the deleted object. -/
theorem got_again_is_deleted :
    ¬ Lifetime (run [.getInstance false, .destroyInstance, .getInstance false]).trace := by
  intro h
  have halive := h.returned [.constructed 0, .returned 0, .destroyCalled, .deleted 0] 0 [] rfl
  exact halive.2 (by decide)

end Singleton
