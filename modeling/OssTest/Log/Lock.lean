import OssTest.Log.Basic
import OssTest.Lib.Steps

/-!
# The log mutex

`result_mutex` is locked and unlocked by hand.  It guards the body of
`makeLogFile` and two sections of `doSynthesize`: the one that counts the thread
and the one that fetches a line.  Here any number of threads enter and leave
these sections in any order, with any arguments and any answers of the operating
system.

Every path out of a section unlocks, but one: `makeLogFile` returns without
unlocking when `fopen` fails (line 896).  `released_iff` says that this is
the only way to leak the mutex.
-/

namespace EngineLog

open Cpp Steps

/-- A section guarded by `result_mutex`. -/
inductive Section where
  | makeLogFile (mode : Int) (msg : Option Text)
  /-- A section of `doSynthesize`: all its paths unlock. -/
  | doSynthesize

/-- The mutex, the log, and for every thread the section it is in. -/
structure LockState (τ : Type*) where
  resultMutex : Option τ
  log : LogFile
  inside : τ → Option Section

/-- A thread passes `lock()`, or leaves its section. -/
inductive LockAct (τ : Type*) where
  | lock (t : τ) (sec : Section)
  | leave (t : τ) (os : Observed)

/-- One step.  `lock()` waits for the mutex; leaving a section runs its body. -/
def lockStep {τ : Type*} [DecidableEq τ] (mTimeInfo : Text) (s : LockState τ) :
    LockAct τ → Option (LockState τ)
  | .lock t sec =>
      if (s.inside t).isNone && s.resultMutex.isNone then
        some { s with
          resultMutex := some t
          inside := Function.update s.inside t (some sec) }
      else none
  | .leave t os =>
      match s.inside t with
      | none => none
      | some .doSynthesize =>
          some { s with
            resultMutex := none
            inside := Function.update s.inside t none }
      | some (.makeLogFile mode msg) =>
          let (log, unlocked) := makeLogFile mTimeInfo mode msg os s.log
          some
            { resultMutex := if unlocked then none else s.resultMutex
              log := log
              inside := Function.update s.inside t none }

variable {τ : Type*}

/-- Nobody is in a section, and the mutex is free. -/
def LockState.start (disk : Text → Text) : LockState τ := ⟨none, .start disk, fun _ => none⟩

/-- The mutex is held by a thread between `lock()` and `unlock()`, if at all: it
is free when nobody is in a section, and nobody waits for a call that returned. -/
def Released (s : LockState τ) : Prop := ∀ t, s.resultMutex = some t → s.inside t ≠ none

/-- The action lets an `fopen` fail inside `makeLogFile`. -/
def FopenFails (s : LockState τ) : LockAct τ → Prop
  | .lock _ _ => False
  | .leave t os => ∃ mode msg, s.inside t = some (.makeLogFile mode msg) ∧
      opens s.log.fpLog.isSome mode os = true ∧ os.fopenOk = false

/-- A call reaches `unlock()` unless its `fopen` fails. -/
theorem makeLogFile_unlocked {mTimeInfo : Text} {mode : Int} {msg : Option Text} {os : Observed}
    {s : LogFile} (hcnt : s.sizecheckcnt = 0) :
    (makeLogFile mTimeInfo mode msg os s).2 =
      !(opens s.fpLog.isSome mode os && !os.fopenOk) := by
  rw [makeLogFile_eq hcnt]
  cases opens s.fpLog.isSome mode os <;> cases os.fopenOk <;> rfl

/-- Whoever is in a section holds the mutex, in every run. -/
structure Exclusive (s : LockState τ) : Prop where
  sizecheckcnt : s.log.sizecheckcnt = 0
  holds : ∀ t, s.inside t ≠ none → s.resultMutex = some t

theorem exclusive_start (disk : Text → Text) : Exclusive (.start disk : LockState τ) :=
  ⟨rfl, fun _ h => absurd rfl h⟩

theorem released_start (disk : Text → Text) : Released (.start disk : LockState τ) :=
  fun _ h => by cases h

section Step

variable [DecidableEq τ] {mTimeInfo : Text} {s s' : LockState τ} {a : LockAct τ}

theorem update_none_eq_none {t u : τ} {inside : τ → Option Section}
    (h : u = t ∨ inside u = none) : Function.update inside t none u = none := by
  rcases h with rfl | h
  · exact Function.update_self ..
  · by_cases hut : u = t
    · subst hut
      exact Function.update_self ..
    · rw [Function.update_of_ne hut, h]

/-- Once the holder has left, nobody is in a section. -/
theorem Exclusive.left {t : τ} (h : Exclusive s) (ht : s.inside t ≠ none) (u : τ) :
    Function.update s.inside t none u = none := by
  apply update_none_eq_none
  by_cases hu : s.inside u = none
  · exact Or.inr hu
  · have := (h.holds u hu).symm.trans (h.holds t ht)
    exact Or.inl (Option.some.inj this)

/-- **What a step can do.** -/
theorem lockStep_cases (h : lockStep mTimeInfo s a = some s') :
    (∃ t sec, a = .lock t sec ∧ s.resultMutex = none ∧
      s' = { s with resultMutex := some t, inside := Function.update s.inside t (some sec) }) ∨
    (∃ t os, a = .leave t os ∧ s.inside t = some .doSynthesize ∧
      s' = { s with resultMutex := none, inside := Function.update s.inside t none }) ∨
    (∃ t os mode msg, a = .leave t os ∧ s.inside t = some (.makeLogFile mode msg) ∧
      s' =
        { resultMutex :=
            if (makeLogFile mTimeInfo mode msg os s.log).2 then none else s.resultMutex
          log := (makeLogFile mTimeInfo mode msg os s.log).1
          inside := Function.update s.inside t none }) := by
  cases a with
  | lock t sec =>
    simp only [lockStep] at h
    split at h
    · rename_i hfree
      simp only [Bool.and_eq_true, Option.isNone_iff_eq_none] at hfree
      exact Or.inl ⟨t, sec, rfl, hfree.2, (Option.some.inj h).symm⟩
    · cases h
  | leave t os =>
    simp only [lockStep] at h
    split at h
    · cases h
    · rename_i hin
      exact Or.inr (Or.inl ⟨t, os, rfl, hin, (Option.some.inj h).symm⟩)
    · rename_i mode msg hin
      exact Or.inr (Or.inr ⟨t, os, mode, msg, rfl, hin, (Option.some.inj h).symm⟩)

theorem lockStep_exclusive (hs : Exclusive s) (h : lockStep mTimeInfo s a = some s') :
    Exclusive s' := by
  obtain ⟨t, sec, -, hfree, rfl⟩ | ⟨t, os, -, hin, rfl⟩ | ⟨t, os, mode, msg, -, hin, rfl⟩ :=
    lockStep_cases h
  · refine ⟨hs.sizecheckcnt, ?_⟩
    intro u hu
    by_cases hut : u = t
    · rw [hut]
    · simp only [Function.update_of_ne hut] at hu
      exact absurd (hs.holds u hu) (by rw [hfree]; exact (Option.some_ne_none u).symm)
  · exact ⟨hs.sizecheckcnt, fun u hu => absurd (hs.left (by rw [hin]; simp) u) hu⟩
  · exact ⟨makeLogFile_sizecheckcnt hs.sizecheckcnt,
      fun u hu => absurd (hs.left (by rw [hin]; simp) u) hu⟩

/-- **A step releases the mutex with the section it leaves, unless its `fopen`
fails.** -/
theorem lockStep_released_iff (hs : Exclusive s) (h : lockStep mTimeInfo s a = some s') :
    Released s' ↔ ¬ FopenFails s a := by
  obtain ⟨t, sec, rfl, -, rfl⟩ | ⟨t, os, rfl, hin, rfl⟩ | ⟨t, os, mode, msg, rfl, hin, rfl⟩ :=
    lockStep_cases h
  · refine iff_of_true ?_ (fun hf => hf)
    intro u hu
    cases hu
    simp
  · refine iff_of_true (fun u hu => by cases hu) ?_
    rintro ⟨mode, msg, hin', -⟩
    rw [hin] at hin'
    cases hin'
  · have hholds := hs.holds t (by rw [hin]; simp)
    have hfails : FopenFails s (.leave t os) ↔
        opens s.log.fpLog.isSome mode os = true ∧ os.fopenOk = false := by
      constructor
      · rintro ⟨mode', msg', hin', hopens⟩
        rw [hin] at hin'
        cases hin'
        exact hopens
      · exact fun hopens => ⟨mode, msg, hin, hopens⟩
    rw [hfails, makeLogFile_unlocked hs.sizecheckcnt]
    by_cases hf : opens s.log.fpLog.isSome mode os = true ∧ os.fopenOk = false
    · refine iff_of_false ?_ (not_not.2 hf)
      intro hrel'
      refine hrel' t ?_ (Function.update_self ..)
      simp [hf.1, hf.2, hholds]
    · refine iff_of_true ?_ hf
      intro u hu
      have hfree : (!(opens s.log.fpLog.isSome mode os && !os.fopenOk)) = true := by
        cases hop : opens s.log.fpLog.isSome mode os <;> cases hok : os.fopenOk <;> simp_all
      simp only [hfree, if_true] at hu
      cases hu

end Step

/-- In a run without a failing `fopen` nobody keeps the mutex. -/
theorem released_of_along [DecidableEq τ] {mTimeInfo : Text} {disk : Text → Text}
    {acts : List (LockAct τ)} {s : LockState τ}
    (hrun : runFrom (lockStep mTimeInfo) (.start disk) acts = some s)
    (hok : Along (lockStep mTimeInfo) (fun u a => ¬ FopenFails u a) (.start disk) acts) :
    Released s := by
  have hstep : ∀ (t : LockState τ) a t', Exclusive t ∧ Released t → ¬ FopenFails t a →
      lockStep mTimeInfo t a = some t' → Exclusive t' ∧ Released t' := fun t a t' ht hf h =>
    ⟨lockStep_exclusive ht.1 h, (lockStep_released_iff ht.1 h).2 hf⟩
  exact (hok.invariant hstep hrun ⟨exclusive_start disk, released_start disk⟩).2

/-- **The mutex is never leaked, unless an `fopen` fails.**  In a run of any
threads, entering and leaving their sections in any order, the mutex is in every
state held by a thread that is between `lock()` and `unlock()` or by nobody,
exactly when no `fopen` inside `makeLogFile` fails along the run. -/
theorem released_iff [DecidableEq τ] (mTimeInfo : Text) (disk : Text → Text)
    (acts : List (LockAct τ)) (s : LockState τ)
    (hrun : runFrom (lockStep mTimeInfo) (.start disk) acts = some s) :
    (∀ pre u, pre <+: acts → runFrom (lockStep mTimeInfo) (.start disk) pre = some u →
        Released u) ↔
      Along (lockStep mTimeInfo) (fun u a => ¬ FopenFails u a) (.start disk) acts := by
  constructor
  · intro hall
    by_contra hno
    obtain ⟨pre, a, post, u, rfl, hu, hf⟩ := (not_along_iff hrun).1 hno
    obtain ⟨t, ht, htail⟩ := runFrom_append_eq_some.1 hrun
    cases hu.symm.trans ht
    obtain ⟨v, hv, -⟩ := runFrom_cons_eq_some.1 htail
    have hexcl : Exclusive u := runFrom_invariant
      (fun _ _ _ hs hstep => lockStep_exclusive hs hstep) hu (exclusive_start disk)
    refine hf ((lockStep_released_iff hexcl hv).1 (hall (pre ++ [a]) v ?_ ?_))
    · exact ⟨post, by simp⟩
    · exact runFrom_append_eq_some.2 ⟨u, hu, runFrom_cons_eq_some.2 ⟨v, hv, rfl⟩⟩
  · intro hok pre u hpre hu
    obtain ⟨post, rfl⟩ := hpre
    exact released_of_along hu ((along_append hu).1 hok).1

/-- A thread opens the log, another one fetches a line. -/
def openThenFetch : List (LockAct ℕ) :=
  [.lock 0 (.makeLogFile 0 none), .leave 0 ⟨-1, true⟩, .lock 1 .doSynthesize]

/-- Nobody keeps the mutex meanwhile. -/
theorem released_two_threads :
    ∃ s, runFrom (lockStep []) (.start fun _ => []) openThenFetch = some s ∧
      ∀ pre u, pre <+: openThenFetch → runFrom (lockStep []) (.start fun _ => []) pre = some u →
        Released u := by
  refine ⟨_, rfl, (released_iff [] (fun _ => []) openThenFetch _ rfl).2 ⟨fun hf => hf, ?_⟩⟩
  rintro t ⟨⟩
  refine ⟨?_, ?_⟩
  · rintro ⟨mode, msg, -, -, hf⟩
    cases hf
  · rintro t ⟨⟩
    exact ⟨fun hf => hf, fun t _ => trivial⟩

/-- The first `fopen` fails: the call has returned, nobody is in a section, and
the mutex is still held, so that no other thread passes `lock()`. -/
theorem first_fopen_leaks :
    ∃ u : LockState ℕ,
      runFrom (lockStep []) (.start fun _ => [])
        [.lock 0 (.makeLogFile 0 none), .leave 0 ⟨-1, false⟩] = some u ∧
      (∀ t, u.inside t = none) ∧ ¬ Released u ∧
      ∀ t sec, lockStep [] u (.lock t sec) = none := by
  refine ⟨⟨some 0, (makeLogFile [] 0 none ⟨-1, false⟩ (.start fun _ => [])).1,
    Function.update (Function.update (fun _ => none) 0 (some (.makeLogFile 0 none))) 0 none⟩,
    rfl, ?_, fun hrel => hrel 0 rfl rfl, ?_⟩
  · intro t
    by_cases ht : t = 0 <;> simp [ht]
  · intro t sec
    simp [lockStep]

end EngineLog
