import OssTest.Run.Basic

/-!
# What a step can do

One case analysis of the step function, so that no invariant has to take it apart
again: `WorkerMove`, `CpuMove` and `MainMove` list what a thread can do in one
step, with the guards it passed and the state it leaves, and `step_move` says that
every step is one of these moves.
-/

namespace Run

open Cpp UtilBox Exceptions EngineLog Engine

/-! ## The shared variables -/

/-- A call of `makeLogFile` waits for the mutex. -/
theorem makeLogFile_eq_some {g g' : Shared} {env : Env} {t : Tid} {mode : Int}
    {msg : Option Text} {os : Observed} :
    g.makeLogFile env t mode msg os = some g' ↔
      g.resultMutex = none ∧ g.logged env t mode msg os = g' := by
  unfold Shared.makeLogFile
  split <;> simp [*]

/-- A step that is one call of `makeLogFile`. -/
theorem logged_of_map {β : Type} {g : Shared} {env : Env} {t : Tid} {mode : Int}
    {msg : Option Text} {os : Observed} {f : Shared → β} {b : β}
    (h : (g.makeLogFile env t mode msg os).map f = some b) :
    g.resultMutex = none ∧ f (g.logged env t mode msg os) = b := by
  obtain ⟨g₁, hlog, h⟩ := Option.map_eq_some_iff.1 h
  obtain ⟨hfree, rfl⟩ := makeLogFile_eq_some.1 hlog
  exact ⟨hfree, h⟩

section Trace

variable (g : Shared) (env : Env) (t : Tid) (mode : Int) (msg : Option Text) (os : Observed)

@[simp] theorem emit_trace (e : Event) : (g.emit e).trace = g.trace ++ [e] := rfl

@[simp] theorem terminate_trace : g.terminate.trace = g.trace := rfl

@[simp] theorem advance_trace (mTextin : IfStream) : (g.advance mTextin).trace = g.trace := rfl

@[simp] theorem logged_trace : (g.logged env t mode msg os).trace = g.trace := rfl

end Trace

/-! ## The workers -/

/-- **What worker `i`, which has the number `n`, can do in one step.** -/
inductive WorkerMove (env : Env) (i n : ℕ) (o : Outcome) (g : Shared) :
    WorkerPc → Shared → WorkerPc → Prop where
  | start (hfree : g.resultMutex = none) :
      WorkerMove env i n o g .start { g with mThreadCnt := g.mThreadCnt + 1 } .opened
  | opened (hopen : g.mTextin.isOpen = true) : WorkerMove env i n o g .opened g .loop
  | notOpen (hopen : g.mTextin.isOpen = false) : WorkerMove env i n o g .opened g (.returned true)
  | loop (heof : g.mTextin.eofbit = false) : WorkerMove env i n o g .loop g .fetch
  | loopEof (heof : g.mTextin.eofbit = true) : WorkerMove env i n o g .loop g (.returned true)
  | fetchEof (hfree : g.resultMutex = none) (heof : g.mTextin.eofbit = true) :
      WorkerMove env i n o g .fetch g (.returned true)
  | fetch (hfree : g.resultMutex = none) (heof : g.mTextin.eofbit = false) {l : Text}
      {mTextin : IfStream} (hget : g.mTextin.getline [] = (l, mTextin)) :
      WorkerMove env i n o g .fetch (g.advance mTextin)
        (if isExceptionalText g.mVecExceptionList l then .loop else .trim g.mCurTextIdx l)
  | trimThrows {k : Int} {l : Text} {e : StdException} (htrim : UtilBox.trim l = .error e) :
      WorkerMove env i n o g (.trim k l) g.terminate (.trim k l)
  | trimEmpty {k : Int} {l : Text} (htrim : UtilBox.trim l = .ok []) :
      WorkerMove env i n o g (.trim k l) g .loop
  | trim {k : Int} {l t : Text} (htrim : UtilBox.trim l = .ok t) (ht : t ≠ []) :
      WorkerMove env i n o g (.trim k l) g (.sprintf k (dropCr t))
  | sprintf {k : Int} {t : Text} :
      WorkerMove env i n o g (.sprintf k t) { g with msgLog := recordMsg n k t } (.log k t)
  | log {k : Int} {t : Text} (hfree : g.resultMutex = none) :
      WorkerMove env i n o g (.log k t) (g.logged env (.worker i) 1 (some g.msgLog) o.os)
        (.init k t)
  | initNull {k : Int} {t : Text} (hres : g.stSpec.func .textToBufferEX = false) :
      WorkerMove env i n o g (.init k t)
        (g.emit (.synth false ⟨i, k, none, 0, -1, n, t, o.rc, o.nFramesize⟩)).terminate (.init k t)
  | initFails {k : Int} {t : Text} (hres : g.stSpec.func .textToBufferEX = true)
      (hrc : o.rc < 0) :
      WorkerMove env i n o g (.init k t)
        (g.emit (.synth true ⟨i, k, none, 0, -1, n, t, o.rc, o.nFramesize⟩)) (.returned false)
  | init {k : Int} {t : Text} (hres : g.stSpec.func .textToBufferEX = true) (hrc : 0 ≤ o.rc) :
      WorkerMove env i n o g (.init k t)
        (g.emit (.synth true ⟨i, k, none, 0, -1, n, t, o.rc, o.nFramesize⟩))
        (.malloc k t o.nFramesize)
  | malloc {k : Int} {t : Text} {nFramesize : Int} :
      WorkerMove env i n o g (.malloc k t nFramesize)
        (g.emit (.malloc n (toSize nFramesize) o.framebuf)) (.synth k t o.framebuf 0)
  | synthNull {k : Int} {t : Text} {buf : ℕ} {flag : Int}
      (hres : g.stSpec.func .textToBufferEX = false) :
      WorkerMove env i n o g (.synth k t buf flag)
        (g.emit (.synth false ⟨i, k, some (cstr t), buf, flag, n, t, o.rc, o.nFramesize⟩)).terminate
        (.synth k t buf flag)
  | synthFails {k : Int} {t : Text} {buf : ℕ} {flag : Int}
      (hres : g.stSpec.func .textToBufferEX = true) (hrc : o.rc < 0) :
      WorkerMove env i n o g (.synth k t buf flag)
        (g.emit (.synth true ⟨i, k, some (cstr t), buf, flag, n, t, o.rc, o.nFramesize⟩))
        (.sprintfErr k buf)
  | synthMore {k : Int} {t : Text} {buf : ℕ} {flag : Int}
      (hres : g.stSpec.func .textToBufferEX = true) (hrc : o.rc = 0) :
      WorkerMove env i n o g (.synth k t buf flag)
        (g.emit (.synth true ⟨i, k, some (cstr t), buf, flag, n, t, o.rc, o.nFramesize⟩))
        (.synth k t buf (if flag = 0 then flag + 1 else flag))
  | synthLast {k : Int} {t : Text} {buf : ℕ} {flag : Int}
      (hres : g.stSpec.func .textToBufferEX = true) (hrc : 0 < o.rc) :
      WorkerMove env i n o g (.synth k t buf flag)
        (g.emit (.synth true ⟨i, k, some (cstr t), buf, flag, n, t, o.rc, o.nFramesize⟩))
        (.free buf)
  | sprintfErr {k : Int} {buf : ℕ} :
      WorkerMove env i n o g (.sprintfErr k buf) { g with msgLog := errorMsg n k } (.logErr buf)
  | logErr {buf : ℕ} (hfree : g.resultMutex = none) :
      WorkerMove env i n o g (.logErr buf) (g.logged env (.worker i) 1 (some g.msgLog) o.os)
        (.free buf)
  | free {buf : ℕ} : WorkerMove env i n o g (.free buf) (g.emit (.free n buf)) .loop

theorem workerStep_move {env : Env} {i : ℕ} {o : Outcome} {g g' : Shared} {w : Worker}
    {pc' : WorkerPc} (h : workerStep env i o g w = some (g', pc')) :
    WorkerMove env i w.threadNum o g w.pc g' pc' := by
  obtain ⟨n, pc⟩ := w
  cases pc with
  | start =>
    simp only [workerStep] at h
    split at h
    · rename_i hfree
      cases h
      exact .start hfree
    · cases h
  | opened =>
    cases h
    cases hopen : g.mTextin.isOpen with
    | true => exact .opened hopen
    | false => exact .notOpen hopen
  | loop =>
    cases h
    cases heof : g.mTextin.eofbit with
    | true => exact .loopEof heof
    | false => exact .loop heof
  | fetch =>
    simp only [workerStep] at h
    split at h
    · rename_i hfree
      simp only [fetchLine] at h
      cases heof : g.mTextin.eofbit with
      | true =>
        simp only [heof, if_true, Option.some.injEq, Prod.mk.injEq] at h
        obtain ⟨rfl, rfl⟩ := h
        exact .fetchEof hfree heof
      | false =>
        rcases hget : g.mTextin.getline [] with ⟨l, mTextin⟩
        simp only [heof, hget, Bool.false_eq_true, if_false, Option.some.injEq] at h
        have hmove : WorkerMove env i n o g .fetch (g.advance mTextin)
            (if isExceptionalText g.mVecExceptionList l then .loop else .trim g.mCurTextIdx l) :=
          .fetch hfree heof hget
        split_ifs at h hmove
        · obtain ⟨rfl, rfl⟩ := Prod.mk.inj h
          exact hmove
        · obtain ⟨rfl, rfl⟩ := Prod.mk.inj h
          exact hmove
    · cases h
  | trim k l =>
    simp only [workerStep] at h
    cases htrim : UtilBox.trim l with
    | error e =>
      rw [htrim, afterTrim, Option.some.injEq, Prod.mk.injEq] at h
      obtain ⟨rfl, rfl⟩ := h
      exact .trimThrows htrim
    | ok t =>
      rw [htrim, afterTrim, replaceText_cr, Option.map_some] at h
      split_ifs at h with ht
      · obtain ⟨rfl, rfl⟩ := Prod.mk.inj (Option.some.inj h)
        exact .trimEmpty (ht ▸ htrim)
      · obtain ⟨rfl, rfl⟩ := Prod.mk.inj (Option.some.inj h)
        exact .trim htrim ht
  | sprintf k t =>
    cases h
    exact .sprintf
  | log k t =>
    obtain ⟨hfree, hlog⟩ := logged_of_map h
    cases hlog
    exact .log hfree
  | init k t =>
    simp only [workerStep] at h
    split at h
    · rename_i hres
      cases h
      split
      · rename_i hrc
        exact .initFails hres hrc
      · rename_i hrc
        exact .init hres (by omega)
    · rename_i hres
      cases h
      exact .initNull (by simpa using hres)
  | malloc k t nFramesize =>
    cases h
    exact .malloc
  | synth k t buf flag =>
    simp only [workerStep] at h
    split at h
    · rename_i hres
      cases h
      by_cases hneg : o.rc < 0
      · rw [if_pos hneg]
        exact .synthFails hres hneg
      · rw [if_neg hneg]
        by_cases hzero : o.rc = 0
        · rw [if_pos hzero]
          exact .synthMore hres hzero
        · rw [if_neg hzero]
          exact .synthLast hres (by omega)
    · rename_i hres
      cases h
      exact .synthNull (by simpa using hres)
  | sprintfErr k buf =>
    cases h
    exact .sprintfErr
  | logErr buf =>
    obtain ⟨hfree, hlog⟩ := logged_of_map h
    cases hlog
    exact .logErr hfree
  | free buf =>
    cases h
    exact .free
  | returned ret => cases h

/-! ## The load monitor -/

/-- **What the load monitor can do in one step.** -/
inductive CpuMove (env : Env) (o : Outcome) (g : Shared) : CpuPc → Shared → CpuPc → Prop where
  | finished {elapsed : Int} (hfin : g.bSynthFinished = true) :
      CpuMove env o g (.loop elapsed) g .returned
  | loop {elapsed : Int} (hfin : g.bSynthFinished = false) :
      CpuMove env o g (.loop elapsed) g (.sample elapsed)
  | sample {elapsed elapsed' : Int} : CpuMove env o g (.sample elapsed) g (.loop elapsed')
  | due {elapsed memRes : Int} : CpuMove env o g (.sample elapsed) g (.sprintf memRes)
  | sprintf {memRes : Int} :
      CpuMove env o g (.sprintf memRes) { g with msgLog := memResMsg memRes } .log
  | log (hfree : g.resultMutex = none) :
      CpuMove env o g .log (g.logged env .cpu 1 (some g.msgLog) o.os) (.loop 0)

theorem cpuStep_move {env : Env} {o : Outcome} {g g' : Shared} {pc pc' : CpuPc}
    (h : cpuStep env o g pc = some (g', pc')) : CpuMove env o g pc g' pc' := by
  cases pc with
  | unborn => cases h
  | loop elapsed =>
    cases h
    cases hfin : g.bSynthFinished with
    | true => exact .finished hfin
    | false => exact .loop hfin
  | sample elapsed =>
    simp only [cpuStep] at h
    split at h
    · cases h
      exact .sample
    · cases h
      split
      · exact .due
      · exact .sample
  | sprintf memRes =>
    cases h
    exact .sprintf
  | log =>
    obtain ⟨hfree, hlog⟩ := logged_of_map h
    cases hlog
    exact .log hfree
  | returned => cases h

/-! ## `main` -/

/-- **What `main` can do in one step.** -/
inductive MainMove (env : Env) (o : Outcome) (s : Sys) : MainPc → Sys → Prop where
  | logStart (hfree : s.g.resultMutex = none) :
      MainMove env o s .logStart (s.goto .args (s.g.logged env .main 0 none o.os))
  | argsShort : MainMove env o s .args (s.goto (.returned false) s.g)
  | args : MainMove env o s .args (s.goto .exceptions s.g)
  | exceptions {list : List Text}
      (hread : readFileLine env.exceptionFile s.g.mVecExceptionList = some (true, list)) :
      MainMove env o s .exceptions (s.goto .openScript { s.g with mVecExceptionList := list })
  | noExceptions {list : List Text}
      (hread : readFileLine env.exceptionFile s.g.mVecExceptionList = some (false, list)) :
      MainMove env o s .exceptions (s.goto .logExceptions { s.g with mVecExceptionList := list })
  | logExceptions (hfree : s.g.resultMutex = none) :
      MainMove env o s .logExceptions
        (s.goto .openScript (s.g.logged env .main 1 (some exceptionsMsg) o.os))
  | noScript (hscript : env.script = none) :
      MainMove env o s .openScript (s.goto (.returned false) s.g)
  | openScript {mTextin : IfStream} (hscript : env.script = some mTextin) :
      MainMove env o s .openScript
        (s.goto (.initExt (toInt mTextin.tellgEnd)) { s.g with mTextin := mTextin })
  | initExtFails {length : Int} (hcwd : env.getcwd = false) :
      MainMove env o s (.initExt length) (s.goto (.returned false)
        (({ s.g with stSpec := (loadLib env.linker s.g.stSpec).1 } : Shared).emit
          (.loadLib (loadLib env.linker s.g.stSpec).2)))
  | initExt {length : Int} (hcwd : env.getcwd = true) :
      MainMove env o s (.initExt length) (s.goto (.loadTTS length)
        (({ s.g with stSpec := (loadLib env.linker s.g.stSpec).1 } : Shared).emit
          (.loadLib (loadLib env.linker s.g.stSpec).2)))
  | loadTTSNull {length : Int} (hres : s.g.stSpec.func .loadTTS = false) :
      MainMove env o s (.loadTTS length)
        (s.goto (.loadTTS length) (s.g.emit (.loadTTS false o.rc)).terminate)
  | loadTTS {length : Int} (hres : s.g.stSpec.func .loadTTS = true) (hlen : 0 < length) :
      MainMove env o s (.loadTTS length) (s.goto (.spawn 0) (s.g.emit (.loadTTS true o.rc)))
  | loadTTSEmpty {length : Int} (hres : s.g.stSpec.func .loadTTS = true) (hlen : length ≤ 0) :
      MainMove env o s (.loadTTS length) (s.goto .deinitExt (s.g.emit (.loadTTS true o.rc)))
  | spawn {k : ℕ} (hk : k < env.maxthreadcnt) :
      MainMove env o s (.spawn k)
        { s with main := .spawn (k + 1), workers := s.workers ++ [⟨k, .start⟩] }
  | spawned {k : ℕ} (hk : env.maxthreadcnt ≤ k) :
      MainMove env o s (.spawn k) (s.goto .spawnCpu s.g)
  | spawnCpu : MainMove env o s .spawnCpu { s with main := .join 0, cpu := .loop 0 }
  | join {k n : ℕ} {ret : Bool} (hk : s.workers[k]? = some ⟨n, .returned ret⟩) :
      MainMove env o s (.join k) (s.goto (.join (k + 1)) s.g)
  | joined {k : ℕ} (hk : s.workers[k]? = none) :
      MainMove env o s (.join k) (s.goto .setFinished s.g)
  | setFinished :
      MainMove env o s .setFinished (s.goto .joinCpu { s.g with bSynthFinished := true })
  | joinCpu (hcpu : s.cpu = .returned) : MainMove env o s .joinCpu (s.goto .printResult s.g)
  | report : MainMove env o s .printResult (s.goto .logElapsed s.g)
  | noReport : MainMove env o s .printResult (s.goto .sprintfResult s.g)
  | sprintfResult :
      MainMove env o s .sprintfResult (s.goto .logResult { s.g with msgLog := resultErrorMsg })
  | logResult (hfree : s.g.resultMutex = none) :
      MainMove env o s .logResult
        (s.goto .deinitExt (s.g.logged env .main 1 (some s.g.msgLog) o.os))
  | logElapsed (hfree : s.g.resultMutex = none) :
      MainMove env o s .logElapsed
        (s.goto .logThreads (s.g.logged env .main 1 (some (elapsedMsg o.elapsed)) o.os))
  | logThreads (hfree : s.g.resultMutex = none) :
      MainMove env o s .logThreads
        (s.goto .deinitExt (s.g.logged env .main 1 (some (threadsMsg s.g.mThreadCnt)) o.os))
  | deinitExtNull (hres : s.g.stSpec.func .unloadTTS = false) :
      MainMove env o s .deinitExt (s.goto .deinitExt (s.g.emit (.unloadTTS false)).terminate)
  | deinitExt (hres : s.g.stSpec.func .unloadTTS = true) :
      MainMove env o s .deinitExt (s.goto .unloadLib (s.g.emit (.unloadTTS true)))
  | unloadLib (hopen : s.g.stSpec.handle = true) :
      MainMove env o s .unloadLib (s.goto .logEnd (s.g.emit .dlclose))
  | unloadLibNull (hopen : s.g.stSpec.handle = false) :
      MainMove env o s .unloadLib (s.goto .logEnd s.g)
  | logEnd (hfree : s.g.resultMutex = none) :
      MainMove env o s .logEnd
        (s.goto (.returned true) (s.g.logged env .main 2 (some finishedMsg) o.os))

theorem mainStep_move {env : Env} {o : Outcome} {s s' : Sys}
    (h : mainStep env o s = some s') : MainMove env o s s.main s' := by
  cases hpc : s.main with
  | logStart =>
    rw [mainStep, hpc] at h
    obtain ⟨hfree, rfl⟩ := logged_of_map h
    exact .logStart hfree
  | args =>
    rw [mainStep, hpc] at h
    cases h
    split
    · exact .argsShort
    · exact .args
  | exceptions =>
    rw [mainStep, hpc] at h
    obtain ⟨⟨ok, list⟩, hread, rfl⟩ := Option.map_eq_some_iff.1 h
    cases ok with
    | true => exact .exceptions hread
    | false => exact .noExceptions hread
  | logExceptions =>
    rw [mainStep, hpc] at h
    obtain ⟨hfree, rfl⟩ := logged_of_map h
    exact .logExceptions hfree
  | openScript =>
    rw [mainStep, hpc] at h
    cases hscript : env.script with
    | none =>
      rw [hscript] at h
      cases h
      exact .noScript hscript
    | some mTextin =>
      rw [hscript] at h
      cases h
      exact .openScript hscript
  | initExt length =>
    rw [mainStep, hpc] at h
    cases h
    cases hcwd : env.getcwd with
    | true => exact .initExt hcwd
    | false => exact .initExtFails hcwd
  | loadTTS length =>
    simp only [mainStep, hpc] at h
    split_ifs at h with hres hlen
    · cases h
      exact .loadTTS hres hlen
    · cases h
      exact .loadTTSEmpty hres (by omega)
    · cases h
      exact .loadTTSNull (by simpa using hres)
  | spawn k =>
    simp only [mainStep, hpc] at h
    split_ifs at h with hk
    · cases h
      exact .spawn hk
    · cases h
      exact .spawned (by omega)
  | spawnCpu =>
    rw [mainStep, hpc] at h
    cases h
    exact .spawnCpu
  | join k =>
    simp only [mainStep, hpc] at h
    split at h
    · rename_i hk
      cases h
      exact .joined hk
    · rename_i w hk
      obtain ⟨n, pc⟩ := w
      split at h
      · rename_i hret
        cases h
        cases hret
        exact .join hk
      · cases h
  | setFinished =>
    rw [mainStep, hpc] at h
    cases h
    exact .setFinished
  | joinCpu =>
    simp only [mainStep, hpc] at h
    split_ifs at h with hcpu
    cases h
    exact .joinCpu hcpu
  | printResult =>
    rw [mainStep, hpc] at h
    cases h
    split
    · exact .report
    · exact .noReport
  | sprintfResult =>
    rw [mainStep, hpc] at h
    cases h
    exact .sprintfResult
  | logResult =>
    rw [mainStep, hpc] at h
    obtain ⟨hfree, rfl⟩ := logged_of_map h
    exact .logResult hfree
  | logElapsed =>
    rw [mainStep, hpc] at h
    obtain ⟨hfree, rfl⟩ := logged_of_map h
    exact .logElapsed hfree
  | logThreads =>
    rw [mainStep, hpc] at h
    obtain ⟨hfree, rfl⟩ := logged_of_map h
    exact .logThreads hfree
  | deinitExt =>
    simp only [mainStep, hpc] at h
    split_ifs at h with hres
    · cases h
      exact .deinitExt hres
    · cases h
      exact .deinitExtNull (by simpa using hres)
  | unloadLib =>
    rw [mainStep, hpc] at h
    cases h
    cases hopen : s.g.stSpec.handle with
    | true => exact .unloadLib hopen
    | false =>
      rw [Engine.unloadLib, if_neg Bool.false_ne_true, List.append_nil]
      exact .unloadLibNull hopen
  | logEnd =>
    rw [mainStep, hpc] at h
    obtain ⟨hfree, rfl⟩ := logged_of_map h
    exact .logEnd hfree
  | returned success =>
    rw [mainStep, hpc] at h
    cases h

/-! ## The program -/

/-- **What the program can do in one step.** -/
inductive Move (env : Env) (s : Sys) (a : Act) : Sys → Prop where
  | main {s' : Sys} (htid : a.tid = .main) (h : MainMove env a.o s s.main s') : Move env s a s'
  | cpu {g' : Shared} {pc' : CpuPc} (htid : a.tid = .cpu)
      (h : CpuMove env a.o s.g s.cpu g' pc') : Move env s a { s with g := g', cpu := pc' }
  | worker {i n : ℕ} {pc : WorkerPc} {g' : Shared} {pc' : WorkerPc} (htid : a.tid = .worker i)
      (hi : s.workers[i]? = some ⟨n, pc⟩) (h : WorkerMove env i n a.o s.g pc g' pc') :
      Move env s a { s with g := g', workers := s.workers.set i ⟨n, pc'⟩ }

theorem step_move {env : Env} {s s' : Sys} {a : Act} (h : step env s a = some s') :
    Move env s a s' := by
  unfold step at h
  split_ifs at h
  split at h
  · rename_i htid
    exact .main htid (mainStep_move h)
  · rename_i htid
    obtain ⟨⟨g', pc'⟩, hcpu, rfl⟩ := Option.map_eq_some_iff.1 h
    exact .cpu htid (cpuStep_move hcpu)
  · rename_i htid
    split at h
    · cases h
    · rename_i w hi
      obtain ⟨⟨g', pc'⟩, hw, rfl⟩ := Option.map_eq_some_iff.1 h
      exact .worker htid hi (workerStep_move hw)

/-- Only a process that is there takes a step. -/
theorem live_of_step {env : Env} {s s' : Sys} {a : Act} (h : step env s a = some s') :
    s.g.terminated = false := by
  rw [step] at h
  split_ifs at h with hterm
  simpa using hterm

/-- A step of `main`, -/
theorem mainStep_of_step {env : Env} {s s' : Sys} {a : Act} (htid : a.tid = .main)
    (h : step env s a = some s') : mainStep env a.o s = some s' := by
  rw [step, htid] at h
  split_ifs at h
  exact h

/-- and one of the load monitor. -/
theorem cpuStep_of_step {env : Env} {s s' : Sys} {a : Act} (htid : a.tid = .cpu)
    (h : step env s a = some s') : cpuStep env a.o s.g s.cpu = some (s'.g, s'.cpu) := by
  rw [step, htid] at h
  split_ifs at h
  obtain ⟨r, hr, rfl⟩ := Option.map_eq_some_iff.1 h
  exact hr

/-- The step behind a `trim` that returns. -/
theorem step_trim {env : Env} {s : Sys} {i n : ℕ} {k : Int} {l t : Text} {o : Outcome}
    (hlive : s.g.terminated = false) (hi : s.workers[i]? = some ⟨n, .trim k l⟩)
    (htrim : UtilBox.trim l = .ok t) :
    step env s ⟨.worker i, o⟩ = some { s with
      workers := s.workers.set i ⟨n, if t = [] then .loop else .sprintf k (dropCr t)⟩ } := by
  have hstep : workerStep env i o s.g ⟨n, .trim k l⟩ =
      some (s.g, if t = [] then .loop else .sprintf k (dropCr t)) := by
    have hafter : workerStep env i o s.g ⟨n, .trim k l⟩ =
        afterTrim s.g k l (UtilBox.trim l) := rfl
    rw [hafter, htrim, afterTrim, replaceText_cr, Option.map_some]
    split <;> rfl
  simp only [step, hlive, hi, hstep, Option.map_some]
  rfl

end Run
