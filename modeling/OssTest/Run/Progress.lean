import OssTest.Run.Loops
import OssTest.Run.Shutdown

/-!
# Who waits for whom

A thread waits for `result_mutex`, and `main` for the threads it joins.

* `can_go_on_iff` — while every `fopen` of the log succeeds nobody waits in vain: some
  thread can go on until the process ends or `main` returns, and none can afterwards.
* `frozen_of_run` — once a call of `makeLogFile` has kept the mutex, nothing is logged and
  no line is taken any more, only lines that were logged are still spoken, and `main` does
  not return `EXIT_SUCCESS`.
-/

namespace Run

open Cpp UtilBox Exceptions EngineLog Engine Steps Pool

/-! ## What a thread can wait for -/

/-- `exceptionlist.txt` can be read to its end, if it opens. -/
def Env.ListReadable (env : Env) : Prop :=
  ∀ file, env.exceptionFile = some file → file.Sound

theorem readFileLine_returns {file : Option IfStream} (h : ∀ s, file = some s → s.Sound)
    (listLine : List Text) : ∃ r, readFileLine file listLine = some r := by
  cases file with
  | none => exact ⟨_, rfl⟩
  | some s =>
    have hleft : s.left < s.rest.length + 2 := by
      unfold IfStream.left
      split <;> omega
    obtain ⟨lines, hlines⟩ := readLoop_sound (h s rfl) hleft listLine
    exact ⟨(true, lines), by rw [readFileLine, hlines, Option.map_some]⟩

/-- `main` waits for a thread it joins. -/
inductive MainWaits (s : Sys) : Prop where
  | join {k : ℕ} {w : Worker} (hmain : s.main = .join k) (hw : s.workers[k]? = some w)
      (hret : ∀ ret, w.pc ≠ .returned ret)
  | joinCpu (hmain : s.main = .joinCpu) (hcpu : s.cpu ≠ .returned)

/-- **`main` goes on while the mutex is free**, unless it waits for a thread. -/
theorem mainStep_enabled {env : Env} {s : Sys} (hlist : env.ListReadable)
    (hfree : s.g.resultMutex = none) (hret : ∀ success, s.main ≠ .returned success) (o : Outcome) :
    (∃ s', mainStep env o s = some s') ∨ MainWaits s := by
  cases hpc : s.main with
  | returned success => exact absurd hpc (hret success)
  | join k =>
    cases hw : s.workers[k]? with
    | none => exact Or.inl ⟨_, by simp only [mainStep, hpc, hw]; rfl⟩
    | some w =>
      by_cases hjoined : ∃ ret, w.pc = .returned ret
      · obtain ⟨ret, hwpc⟩ := hjoined
        exact Or.inl ⟨_, by simp only [mainStep, hpc, hw, hwpc]; rfl⟩
      · exact Or.inr (.join hpc hw fun ret hwpc => hjoined ⟨ret, hwpc⟩)
  | joinCpu =>
    by_cases hcpu : s.cpu = .returned
    · exact Or.inl ⟨_, by simp only [mainStep, hpc, hcpu, if_true]; rfl⟩
    · exact Or.inr (.joinCpu hpc hcpu)
  | exceptions =>
    obtain ⟨r, hr⟩ := readFileLine_returns hlist s.g.mVecExceptionList
    exact Or.inl ⟨_, by simp only [mainStep, hpc, hr, Option.map_some]; rfl⟩
  | logStart | logExceptions | logResult | logElapsed | logThreads | logEnd =>
    exact Or.inl ⟨_, by
      simp only [mainStep, hpc, Shared.makeLogFile, hfree, if_true, Option.map_some]; rfl⟩
  | openScript =>
    refine Or.inl ?_
    rw [mainStep, hpc]
    dsimp only
    split <;> exact ⟨_, rfl⟩
  | loadTTS length | spawn k | deinitExt =>
    refine Or.inl ?_
    simp only [mainStep, hpc]
    split <;> exact ⟨_, rfl⟩
  | _ => exact Or.inl ⟨_, by rw [mainStep, hpc]⟩

theorem cpuStep_enabled (env : Env) {s : Sys} (hfree : s.g.resultMutex = none)
    (hborn : s.cpu ≠ .unborn) (hret : s.cpu ≠ .returned) (o : Outcome) :
    ∃ r, cpuStep env o s.g s.cpu = some r := by
  cases hpc : s.cpu with
  | unborn => exact absurd hpc hborn
  | returned => exact absurd hpc hret
  | sample elapsed =>
    simp only [cpuStep]
    split <;> exact ⟨_, rfl⟩
  | log => simp [cpuStep, Shared.makeLogFile, hfree]
  | _ => exact ⟨_, rfl⟩

/-! ## Nobody waits in vain -/

/-- The process is there, and `main` has not returned. -/
def Sys.Running (s : Sys) : Prop :=
  s.g.terminated = false ∧ ∀ success, s.main ≠ .returned success

/-- Where `main` has given up it is alone. -/
theorem alone_of_failure {env : Env} {disk : Text → Text} {acts : List Act} {s : Sys}
    (hrun : run env (.start disk) acts = some s) (hmain : s.main = .returned false) :
    s.workers = [] ∧ s.cpu = .unborn := by
  obtain hs | hs | ⟨-, post, s₀, script, -, -, -, -, h₀, hpost⟩ := start_cases hrun
  · exact ⟨hs.workers, hs.cpu⟩
  · exact ⟨hs.workers, hs.cpu⟩
  · have hlate := (joining_of_run h₀ hpost).late
    rw [hmain] at hlate
    cases hlate

/-- Once `main` has returned nobody moves. -/
theorem stuck_of_returned {env : Env} {disk : Text → Text} {acts : List Act} {s : Sys}
    (hrun : run env (.start disk) acts = some s) {success : Bool}
    (hmain : s.main = .returned success) (a : Act) : step env s a = none := by
  cases success with
  | true => exact (over_of_success hrun hmain).stuck a
  | false =>
    obtain ⟨hworkers, hcpu⟩ := alone_of_failure hrun hmain
    rw [Option.eq_none_iff_forall_ne_some]
    intro s' hstep
    obtain ⟨-, h⟩ := (step_move hstep).main_of_alone hworkers hcpu
    rw [hmain] at h
    cases h

/-- A worker `main` waits for can go on. -/
theorem worker_can_go_on {env : Env} {s : Sys} (hlive : s.g.terminated = false)
    (hfree : s.g.resultMutex = none) {k : ℕ} {w : Worker} (hw : s.workers[k]? = some w)
    (hret : ∀ ret, w.pc ≠ .returned ret) (o : Outcome) :
    ∃ s', step env s ⟨.worker k, o⟩ = some s' := by
  obtain ⟨-, s', hstep, -⟩ := step_enabled (a := ⟨.worker k, o⟩) hlive hfree rfl hw hret
  exact ⟨s', hstep⟩

theorem main_can_go_on {env : Env} {s s' : Sys} {o : Outcome} (hlive : s.g.terminated = false)
    (hmain : mainStep env o s = some s') : step env s ⟨.main, o⟩ = some s' := by
  simp only [step, hlive]
  exact hmain

theorem cpu_can_go_on {env : Env} {s : Sys} {o : Outcome} (hlive : s.g.terminated = false)
    {r : Shared × CpuPc} (hcpu : cpuStep env o s.g s.cpu = some r) :
    step env s ⟨.cpu, o⟩ = some { s with g := r.1, cpu := r.2 } := by
  simp only [step, hlive, hcpu, Option.map_some]
  rfl

/-- **Nobody waits in vain.**  In every state of every run in which no `fopen` of the log
fails, over an exception list that can be read, some thread can take its next step,
whatever it is told there, until the process ends or `main` returns; and then no thread
can. -/
theorem can_go_on_iff (env : Env) (disk : Text → Text) (acts : List Act) (s : Sys)
    (hlist : env.ListReadable) (hrun : run env (.start disk) acts = some s)
    (hfopen : ∀ a ∈ acts, a.o.os.fopenOk = true) :
    (s.Running → ∃ tid, ∀ o, ∃ s', step env s ⟨tid, o⟩ = some s') ∧
      (¬ s.Running → ∀ a, step env s a = none) := by
  constructor
  · rintro ⟨hlive, hret⟩
    have hfree := resultMutex_free_of_run hrun hfopen
    by_cases hwaits : MainWaits s
    · cases hwaits with
      | @join k w hmain hw hwret =>
        exact ⟨.worker k, fun o => worker_can_go_on hlive hfree hw hwret o⟩
      | joinCpu hmain hcpu =>
        have hat := monitor_of_run hrun
        rw [hmain] at hat
        refine ⟨.cpu, fun o => ?_⟩
        obtain ⟨r, hr⟩ := cpuStep_enabled env hfree hat.1 hcpu o
        exact ⟨_, cpu_can_go_on hlive hr⟩
    · refine ⟨.main, fun o => ?_⟩
      obtain ⟨s', hs'⟩ := (mainStep_enabled hlist hfree hret o).resolve_right hwaits
      exact ⟨s', main_can_go_on hlive hs'⟩
  · intro hover a
    by_cases hlive : s.g.terminated = false
    · have hreturned : ∃ success, s.main = .returned success := by
        by_contra hno
        exact hover ⟨hlive, fun success hmain => hno ⟨success, hmain⟩⟩
      obtain ⟨success, hmain⟩ := hreturned
      exact stuck_of_returned hrun hmain a
    · rw [step, if_pos (by simpa using hlive)]

/-- Two workers, and an exception list. -/
def twoWorkersOver (list content : Text) : Env :=
  { twoWorkers content with exceptionFile := some (.ofContent list) }

/-- The first worker has spoken its line and is joined, and the second is to speak. -/
def joiningSecond : List Act :=
  List.replicate 10 ⟨.main, smooth 0⟩ ++ List.replicate 7 ⟨.worker 0, smooth 0⟩ ++
    List.replicate 7 ⟨.worker 1, smooth 0⟩ ++ speaking 0 ++ [⟨.main, smooth 0⟩]

/-- `main` waits for the second worker, and some thread can go on. -/
theorem can_go_on_joining :
    ∃ s, run (twoWorkersOver ['x'] "a\nb".toList) (.start fun _ => []) joiningSecond = some s ∧
      MainWaits s ∧
      ∃ tid, ∀ o, ∃ s', step (twoWorkersOver ['x'] "a\nb".toList) s ⟨tid, o⟩ = some s' := by
  have hcheck : (run (twoWorkersOver ['x'] "a\nb".toList) (.start fun _ => [])
      joiningSecond).any (fun s => s.main = .join 1 &&
        s.workers = [⟨0, .returned true⟩, ⟨1, .init 1 ['b']⟩] && !s.g.terminated) = true := by
    decide +kernel
  obtain ⟨s, hrun, hs⟩ := (Option.any_eq_true _ _).1 hcheck
  simp only [Bool.and_eq_true, decide_eq_true_eq, Bool.not_eq_true'] at hs
  obtain ⟨⟨hmain, hws⟩, hlive⟩ := hs
  refine ⟨s, hrun, .join (w := ⟨1, .init 1 ['b']⟩) hmain (by rw [hws]; rfl) nofun, ?_⟩
  refine (can_go_on_iff (twoWorkersOver ['x'] "a\nb".toList) _ joiningSecond s ?_ hrun
    (by decide)).1 ⟨hlive, fun success hret => ?_⟩
  · intro file hfile
    obtain rfl := Option.some.inj hfile
    exact Or.inr ⟨rfl, rfl, nofun⟩
  · rw [hmain] at hret
    cases hret

/-! ## A mutex that is kept -/

/-- The text of a worker whose record is in the log and whose session is not yet started. -/
def WorkerPc.recorded : WorkerPc → Multiset (Int × Text)
  | .init k t => {(k, t)}
  | _ => 0

/-- What can still be spoken while the mutex is kept. -/
def Sys.recorded (s : Sys) : Multiset (Int × Text) := total (fun w => w.pc.recorded) s.workers

/-- What a step leaves alone while the mutex is kept. -/
structure Frozen (s s' : Sys) : Prop where
  resultMutex : s'.g.resultMutex = s.g.resultMutex
  log : s'.g.log = s.g.log
  mCurTextIdx : s'.g.mCurTextIdx = s.g.mCurTextIdx
  mThreadCnt : s'.g.mThreadCnt = s.g.mThreadCnt
  sessions : sessions s'.g.trace + s'.recorded = sessions s.g.trace + s.recorded

theorem Frozen.refl (s : Sys) : Frozen s s := ⟨rfl, rfl, rfl, rfl, rfl⟩

theorem Frozen.trans {s t u : Sys} (h : Frozen s t) (h' : Frozen t u) : Frozen s u where
  resultMutex := h'.resultMutex.trans h.resultMutex
  log := h'.log.trans h.log
  mCurTextIdx := h'.mCurTextIdx.trans h.mCurTextIdx
  mThreadCnt := h'.mThreadCnt.trans h.mThreadCnt
  sessions := h'.sessions.trans h.sessions

section Step

variable {env : Env} {s s' : Sys} {a : Act}

/-- **A step while the mutex is kept.** -/
theorem Move.frozen (h : Move env s a s') (hflags : ∀ w ∈ s.workers, w.pc.FlagOk)
    (hheld : s.g.resultMutex ≠ none) : Frozen s s' := by
  cases h with
  | main _ h =>
    generalize s.main = pc at h
    cases h with
    | logStart hfree | logExceptions hfree | logResult hfree | logElapsed hfree | logThreads hfree
    | logEnd hfree => exact absurd hfree hheld
    | spawn hk => exact ⟨rfl, rfl, rfl, rfl, by simp [Sys.recorded, WorkerPc.recorded]⟩
    | initExtFails | initExt | loadTTSNull | loadTTS | loadTTSEmpty | deinitExtNull | deinitExt
    | unloadLib =>
      refine ⟨rfl, rfl, rfl, rfl, ?_⟩
      exact congrArg (· + s.recorded) (total_concat_quiet (by trivial))
    | _ => exact ⟨rfl, rfl, rfl, rfl, rfl⟩
  | cpu _ h =>
    generalize s.cpu = pc at h
    cases h with
    | log hfree => exact absurd hfree hheld
    | _ => exact ⟨rfl, rfl, rfl, rfl, rfl⟩
  | @worker i n pc g' pc' _ hi h =>
    have hflag : pc.FlagOk := hflags _ (List.mem_of_getElem? hi)
    have hkeep : g'.resultMutex = s.g.resultMutex ∧ g'.log = s.g.log ∧
        g'.mCurTextIdx = s.g.mCurTextIdx ∧ g'.mThreadCnt = s.g.mThreadCnt ∧
        sessions g'.trace + pc'.recorded = sessions s.g.trace + pc.recorded := by
      cases h with
      | start hfree | fetchEof hfree | fetch hfree | log hfree | logErr hfree =>
        exact absurd hfree hheld
      | synthFails | synthMore | synthLast =>
        refine ⟨rfl, rfl, rfl, rfl, ?_⟩
        rcases hflag with rfl | rfl <;> simp [WorkerPc.recorded, SynthCall.session]
      | _ => exact ⟨rfl, rfl, rfl, rfl, by simp [WorkerPc.recorded, SynthCall.session]⟩
    obtain ⟨hmutex, hlog, hidx, hcnt, hsess⟩ := hkeep
    have hsum : sessions s.g.trace + total (fun w => w.pc.recorded) s.workers =
        sessions s.g.trace + s.recorded := rfl
    exact ⟨hmutex, hlog, hidx, hcnt, conserve hi (by rw [hsess]) hsum⟩

/-- In the `do` loop `frameflag` is 0 or 1, whatever happens. -/
theorem Move.flags (h : Move env s a s') (hflags : ∀ w ∈ s.workers, w.pc.FlagOk) :
    ∀ w ∈ s'.workers, w.pc.FlagOk := by
  cases h with
  | main _ h =>
    exact fun w hw => (h.mem_workers w hw).elim (hflags w) fun hpc => by rw [hpc]; trivial
  | cpu _ _ => exact hflags
  | worker _ hi h => exact forall_set hflags (h.flagOk (hflags _ (List.mem_of_getElem? hi)))

end Step

/-- A call that closes the log gives the mutex back. -/
theorem logged_end_resultMutex (g : Shared) (env : Env) (t : Tid) (msg : Option Text)
    (os : Observed) : (g.logged env t 2 msg os).resultMutex = none := by
  have hunlocked : (EngineLog.makeLogFile env.mTimeInfo 2 msg os g.log).2 = true := by
    simp [EngineLog.makeLogFile, sizeCheck]
  simp [Shared.logged, hunlocked]

/-- `main` returns `EXIT_SUCCESS` from a call that gave the mutex back. -/
theorem free_of_success {env : Env} {disk : Text → Text} {acts : List Act} {s : Sys}
    (hrun : run env (.start disk) acts = some s) (hmain : s.main = .returned true) :
    s.g.resultMutex = none := by
  have hstep : ∀ as t a t', run env (.start disk) as = some t →
      (t.main = .returned true → t.g.resultMutex = none) → step env t a = some t' →
      (t'.main = .returned true → t'.g.resultMutex = none) := by
    intro as t a t' has ht hmove hmain'
    have hnot : t.main ≠ .returned true := by
      intro hret
      rw [stuck_of_returned has hret a] at hmove
      cases hmove
    cases step_move hmove with
    | main _ h =>
      generalize t.main = pc at h
      cases h with
      | logEnd hfree => exact logged_end_resultMutex ..
      | _ => cases hmain'
    | cpu _ _ => exact absurd hmain' hnot
    | worker _ _ _ => exact absurd hmain' hnot
  exact runFrom_history nofun hstep hrun hmain

/-- **A mutex that is kept freezes the program.**  In every run that goes on from a state
in which a call of `makeLogFile` has returned without `unlock()`, the mutex stays with that
thread, the log stays as it is, no line is taken and no worker counts itself any more;
of the lines only those whose record was already logged can still be spoken, and `main`
does not return `EXIT_SUCCESS`. -/
theorem frozen_of_run (env : Env) (disk : Text → Text) (acts acts' : List Act) (s s' : Sys)
    (t : Tid) (hrun : run env (.start disk) acts = some s) (hheld : s.g.resultMutex = some t)
    (hrest : run env s acts' = some s') :
    s'.g.resultMutex = some t ∧ s'.g.log = s.g.log ∧ s'.g.mCurTextIdx = s.g.mCurTextIdx ∧
      s'.g.mThreadCnt = s.g.mThreadCnt ∧
      sessions s'.g.trace ≤ sessions s.g.trace + s.recorded ∧ s'.main ≠ .returned true := by
  have hflags : ∀ w ∈ s.workers, w.pc.FlagOk :=
    runFrom_invariant (fun _ _ _ h hmove => (step_move hmove).flags h) hrun nofun
  have hstep : ∀ u a u', ((∀ w ∈ u.workers, w.pc.FlagOk) ∧ Frozen s u) →
      step env u a = some u' → (∀ w ∈ u'.workers, w.pc.FlagOk) ∧ Frozen s u' := by
    rintro u a u' ⟨hu, hfrozen⟩ hmove
    have hkept : u.g.resultMutex ≠ none := by
      rw [hfrozen.resultMutex, hheld]
      exact Option.some_ne_none t
    exact ⟨(step_move hmove).flags hu, hfrozen.trans ((step_move hmove).frozen hu hkept)⟩
  obtain ⟨-, hfrozen⟩ := runFrom_invariant hstep hrest ⟨hflags, .refl s⟩
  have hheld' : s'.g.resultMutex = some t := hfrozen.resultMutex.trans hheld
  refine ⟨hheld', hfrozen.log, hfrozen.mCurTextIdx, hfrozen.mThreadCnt, ?_, ?_⟩
  · exact (Multiset.le_add_right _ _).trans hfrozen.sessions.le
  · intro hmain
    have hwhole : run env (.start disk) (acts ++ acts') = some s' :=
      runFrom_append_eq_some.2 ⟨s, hrun, hrest⟩
    rw [free_of_success hwhole hmain] at hheld'
    cases hheld'

/-- `fopen` fails when the log is opened, and the rest of the program is tried. -/
theorem frozen_from_the_start :
    ∃ s s', run (oneWorker ['a']) (.start fun _ => [])
        [⟨.main, { smooth 0 with os := ⟨0, false⟩ }⟩] = some s ∧
      run (oneWorker ['a']) s [⟨.main, smooth 0⟩, ⟨.main, smooth 0⟩] = some s' ∧
      s'.main = .logExceptions ∧ s'.g.log = s.g.log ∧ s'.main ≠ .returned true := by
  refine ⟨_, _, rfl, rfl, rfl, ?_⟩
  have hfrozen := frozen_of_run (oneWorker ['a']) (fun _ => [])
    [⟨.main, { smooth 0 with os := ⟨0, false⟩ }⟩] [⟨.main, smooth 0⟩, ⟨.main, smooth 0⟩] _ _ .main
    rfl rfl rfl
  exact ⟨hfrozen.2.1, hfrozen.2.2.2.2.2⟩

end Run
