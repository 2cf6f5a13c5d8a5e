import OssTest.Log.Lock
import OssTest.Run.Moves

/-!
# The program keeps to the protocol of the log mutex

The sections of the program between `result_mutex.lock()` and `unlock()` are single
steps here, and passing `lock()` and leaving the section are two steps of the mutex.
`step_simulates` answers every step of the program by steps of the mutex, and
`resultMutex_free_of_run` carries over what is known about it.
-/

namespace Run

open Cpp UtilBox Exceptions EngineLog Engine Steps

/-- What the mutex sees of the program: between two steps nobody is in a section. -/
def Sys.lockState (s : Sys) : LockState Tid := ⟨s.g.resultMutex, s.g.log, fun _ => none⟩

/-- **What a step of thread `t` does to the mutex and the log.** -/
inductive Guarded (env : Env) (t : Tid) (o : Outcome) (g g' : Shared) : Prop where
  /-- It is outside the sections. -/
  | outside (hmutex : g'.resultMutex = g.resultMutex) (hlog : g'.log = g.log)
  /-- It is a section of `doSynthesize`. -/
  | doSynthesize (hfree : g.resultMutex = none) (hmutex : g'.resultMutex = none)
      (hlog : g'.log = g.log)
  | makeLogFile (hfree : g.resultMutex = none) {mode : Int} {msg : Option Text}
      (hg : g' = g.logged env t mode msg o.os)

theorem WorkerMove.guarded {env : Env} {i n : ℕ} {o : Outcome} {g g' : Shared}
    {pc pc' : WorkerPc} (h : WorkerMove env i n o g pc g' pc') :
    Guarded env (.worker i) o g g' := by
  cases h with
  | start hfree => exact .doSynthesize hfree hfree rfl
  | fetchEof hfree => exact .doSynthesize hfree hfree rfl
  | fetch hfree => exact .doSynthesize hfree hfree rfl
  | log hfree => exact .makeLogFile hfree rfl
  | logErr hfree => exact .makeLogFile hfree rfl
  | _ => exact .outside rfl rfl

theorem CpuMove.guarded {env : Env} {o : Outcome} {g g' : Shared} {pc pc' : CpuPc}
    (h : CpuMove env o g pc g' pc') : Guarded env .cpu o g g' := by
  cases h with
  | log hfree => exact .makeLogFile hfree rfl
  | _ => exact .outside rfl rfl

theorem MainMove.guarded {env : Env} {o : Outcome} {s s' : Sys} {pc : MainPc}
    (h : MainMove env o s pc s') : Guarded env .main o s.g s'.g := by
  cases h with
  | logStart hfree => exact .makeLogFile hfree rfl
  | logExceptions hfree => exact .makeLogFile hfree rfl
  | logResult hfree => exact .makeLogFile hfree rfl
  | logElapsed hfree => exact .makeLogFile hfree rfl
  | logThreads hfree => exact .makeLogFile hfree rfl
  | logEnd hfree => exact .makeLogFile hfree rfl
  | _ => exact .outside rfl rfl

theorem Move.guarded {env : Env} {s s' : Sys} {a : Act} (h : Move env s a s') :
    Guarded env a.tid a.o s.g s'.g := by
  cases h with
  | main htid h => exact htid ▸ h.guarded
  | cpu htid h => exact htid ▸ h.guarded
  | worker htid hi h => exact htid ▸ h.guarded

/-- **A step of the program is a run of the mutex**: nothing, or one thread that passes
`lock()` and leaves its section. -/
theorem step_simulates {env : Env} {s s' : Sys} {a : Act} (hok : a.o.os.fopenOk = true)
    (h : step env s a = some s') :
    ∃ acts, runFrom (lockStep env.mTimeInfo) s.lockState acts = some s'.lockState ∧
      Along (lockStep env.mTimeInfo) (fun u b => ¬ FopenFails u b) s.lockState acts := by
  have hfails : ∀ (u : LockState Tid) t, ¬ FopenFails u (.leave t a.o.os) := by
    rintro u t ⟨mode, msg, -, -, hno⟩
    rw [hok] at hno
    cases hno
  have halong : ∀ t sec, Along (lockStep env.mTimeInfo) (fun u b => ¬ FopenFails u b) s.lockState
      [.lock t sec, .leave t a.o.os] := fun t sec =>
    ⟨fun hf => hf, fun u _ => ⟨hfails u t, fun _ _ => trivial⟩⟩
  cases (step_move h).guarded with
  | outside hmutex hlog => exact ⟨[], by simp [Sys.lockState, hmutex, hlog], along_nil _⟩
  | doSynthesize hfree hmutex hlog =>
    refine ⟨[.lock a.tid .doSynthesize, .leave a.tid a.o.os], ?_, halong _ _⟩
    simp [runFrom, lockStep, Sys.lockState, hfree, hmutex, hlog]
  | @makeLogFile hfree mode msg hg =>
    refine ⟨[.lock a.tid (.makeLogFile mode msg), .leave a.tid a.o.os], ?_, halong _ _⟩
    simp [runFrom, lockStep, Sys.lockState, hfree, hg, Shared.logged]

/-- **The mutex is free between the steps of the program** in every run in which no
`fopen` fails: no thread waits for a call that has returned. -/
theorem resultMutex_free_of_run {env : Env} {disk : Text → Text} {acts : List Act} {s : Sys}
    (hrun : run env (.start disk) acts = some s) (hfopen : ∀ a ∈ acts, a.o.os.fopenOk = true) :
    s.g.resultMutex = none := by
  have halong : Along (step env) (fun _ a => a.o.os.fopenOk = true) (.start disk) acts :=
    along_of_forall fun a ha _ => hfopen a ha
  obtain ⟨bs, hbs, hok⟩ := runFrom_simulation (fun _ _ _ hok h => step_simulates hok h) halong hrun
  by_contra hheld
  obtain ⟨t, ht⟩ := Option.ne_none_iff_exists'.1 hheld
  exact released_of_along hbs hok t ht rfl

end Run
