import OssTest.Run.Moves

/-!
# Before the threads start

Until `main` starts the first worker it runs alone: it reads the exception list,
opens the script and loads the engine.  `start_cases` cuts every run there, so
that what the workers do can be studied from a state of which everything that
matters is known (`Launch`).
-/

namespace Run

open Cpp UtilBox Exceptions EngineLog Engine Steps

/-- `m_VecExceptionList` once `main` has read the file. -/
def Env.vecExceptionList (env : Env) : List Text :=
  match readFileLine env.exceptionFile [] with
  | none => []
  | some r => r.2

theorem vecExceptionList_of_read {env : Env} {ok : Bool} {list : List Text}
    (h : readFileLine env.exceptionFile [] = some (ok, list)) : env.vecExceptionList = list := by
  simp [Env.vecExceptionList, h]

/-! ## What `main` leaves alone -/

/-- The workers are being started, or were. -/
def MainPc.Late : MainPc → Prop
  | .spawn _ | .spawnCpu | .join _ | .setFinished | .joinCpu | .printResult | .sprintfResult
  | .logResult | .logElapsed | .logThreads | .deinitExt | .unloadLib | .logEnd => True
  | .returned success => success = true
  | _ => False

section MainMove

variable {env : Env} {o : Outcome} {s s' : Sys} {pc : MainPc}

/-- `main` itself never calls the engine on a channel. -/
theorem MainMove.trace (h : MainMove env o s pc s') :
    s'.g.trace = s.g.trace ∨ ∃ e : Event, e.Quiet ∧ s'.g.trace = s.g.trace ++ [e] := by
  cases h with
  | initExtFails | initExt | loadTTSNull | loadTTS | loadTTSEmpty | deinitExtNull | deinitExt
  | unloadLib =>
    exact Or.inr ⟨_, by trivial, rfl⟩
  | _ => exact Or.inl rfl

/-- `main` starts workers, and does nothing else to them. -/
theorem MainMove.workers (h : MainMove env o s pc s') :
    s'.workers = s.workers ∨ ∃ k, pc = .spawn k ∧ k < env.maxthreadcnt ∧ s'.main = .spawn (k + 1) ∧
      s'.workers = s.workers ++ [⟨k, .start⟩] := by
  cases h with
  | spawn hk => exact Or.inr ⟨_, rfl, hk, rfl, rfl⟩
  | _ => exact Or.inl rfl

/-- Once it starts workers, `main` leaves the script to them. -/
theorem MainMove.late (h : MainMove env o s pc s') (hpc : pc.Late) :
    s'.main.Late ∧ s'.g.mVecExceptionList = s.g.mVecExceptionList ∧
      s'.g.mTextin = s.g.mTextin ∧ s'.g.mCurTextIdx = s.g.mCurTextIdx ∧
      s'.g.stSpec = s.g.stSpec := by
  cases h <;> first
    | exact hpc.elim
    | exact ⟨trivial, rfl, rfl, rfl, rfl⟩
    | exact ⟨rfl, rfl, rfl, rfl, rfl⟩

end MainMove

theorem CpuMove.frame {env : Env} {o : Outcome} {g g' : Shared} {pc pc' : CpuPc}
    (h : CpuMove env o g pc g' pc') :
    g'.mVecExceptionList = g.mVecExceptionList ∧ g'.mTextin = g.mTextin ∧
      g'.mCurTextIdx = g.mCurTextIdx ∧ g'.trace = g.trace ∧ g'.stSpec = g.stSpec := by
  cases h <;> exact ⟨rfl, rfl, rfl, rfl, rfl⟩

/-! ## The launch -/

/-- `main` is about to start its first worker, over this exception list and this script. -/
structure Launch (list : List Text) (script : IfStream) (s : Sys) : Prop where
  main : s.main = .spawn 0
  workers : s.workers = []
  cpu : s.cpu = .unborn
  vec : s.g.mVecExceptionList = list
  mTextin : s.g.mTextin = script
  mCurTextIdx : s.g.mCurTextIdx = 0
  quiet : ∀ e ∈ s.g.trace, e.Quiet

/-- What is known at the point where `main` stands before it has started a thread. -/
def EarlyAt (env : Env) (g : Shared) : MainPc → Prop
  | .logStart | .args | .exceptions => g.mVecExceptionList = []
  | .logExceptions | .openScript => g.mVecExceptionList = env.vecExceptionList
  | .initExt length | .loadTTS length =>
      g.mVecExceptionList = env.vecExceptionList ∧ env.script = some g.mTextin ∧
        length = toInt g.mTextin.tellgEnd
  | .returned success => success = false
  | _ => False

/-- `main` has not started a thread, and may still start one or give up. -/
structure Early (env : Env) (s : Sys) : Prop where
  workers : s.workers = []
  cpu : s.cpu = .unborn
  mCurTextIdx : s.g.mCurTextIdx = 0
  quiet : ∀ e ∈ s.g.trace, e.Quiet
  at_main : EarlyAt env s.g s.main

/-- The script was found empty: `main` goes to its end without starting a thread. -/
structure Skipped (s : Sys) : Prop where
  workers : s.workers = []
  cpu : s.cpu = .unborn
  quiet : ∀ e ∈ s.g.trace, e.Quiet
  main : s.main = .deinitExt ∨ s.main = .unloadLib ∨ s.main = .logEnd ∨ s.main = .returned true

theorem early_start (env : Env) (disk : Text → Text) : Early env (.start disk) :=
  ⟨rfl, rfl, rfl, fun _ h => absurd h List.not_mem_nil, rfl⟩

/-- Appending a quiet event keeps a trace quiet. -/
theorem quiet_emit {g : Shared} (e : Event) (h : ∀ e ∈ g.trace, e.Quiet) (he : e.Quiet) :
    ∀ e' ∈ (g.emit e).trace, e'.Quiet := by
  intro e' he'
  rcases List.mem_append.1 he' with he' | he'
  · exact h e' he'
  · rw [List.mem_singleton.1 he']
    exact he

/-- Only `main` moves while there is no other thread. -/
theorem Move.main_of_alone {env : Env} {s s' : Sys} {a : Act} (h : Move env s a s')
    (hworkers : s.workers = []) (hcpu : s.cpu = .unborn) :
    a.tid = .main ∧ MainMove env a.o s s.main s' := by
  cases h with
  | main htid h => exact ⟨htid, h⟩
  | cpu _ h => rw [hcpu] at h; cases h
  | worker _ hi h => simp [hworkers] at hi

/-- **One step of `main` before it has started a thread.** -/
theorem Early.step {env : Env} {s s' : Sys} {a : Act} (hs : Early env s)
    (h : Move env s a s') :
    Early env s' ∨ Skipped s' ∨ ∃ script, env.script = some script ∧
      0 < toInt script.tellgEnd ∧ Launch env.vecExceptionList script s' := by
  obtain ⟨hworkers, hcpu, hidx, hquiet, hat⟩ := hs
  obtain ⟨-, hmain⟩ := h.main_of_alone hworkers hcpu
  generalize hpc : s.main = pc at hmain hat
  cases hmain with
  | logStart hfree => exact Or.inl ⟨hworkers, hcpu, hidx, hquiet, hat⟩
  | argsShort => exact Or.inl ⟨hworkers, hcpu, hidx, hquiet, rfl⟩
  | args => exact Or.inl ⟨hworkers, hcpu, hidx, hquiet, hat⟩
  | exceptions hread =>
    rw [hat] at hread
    exact Or.inl ⟨hworkers, hcpu, hidx, hquiet, (vecExceptionList_of_read hread).symm⟩
  | noExceptions hread =>
    rw [hat] at hread
    exact Or.inl ⟨hworkers, hcpu, hidx, hquiet, (vecExceptionList_of_read hread).symm⟩
  | logExceptions hfree => exact Or.inl ⟨hworkers, hcpu, hidx, hquiet, hat⟩
  | noScript hscript => exact Or.inl ⟨hworkers, hcpu, hidx, hquiet, rfl⟩
  | openScript hscript => exact Or.inl ⟨hworkers, hcpu, hidx, hquiet, hat, hscript, rfl⟩
  | initExtFails hcwd =>
    exact Or.inl ⟨hworkers, hcpu, hidx, quiet_emit (.loadLib _) hquiet trivial, rfl⟩
  | initExt hcwd => exact Or.inl ⟨hworkers, hcpu, hidx, quiet_emit (.loadLib _) hquiet trivial, hat⟩
  | loadTTSNull hres =>
    exact Or.inl ⟨hworkers, hcpu, hidx, quiet_emit (.loadTTS _ _) hquiet trivial, hat⟩
  | loadTTS hres hlen =>
    obtain ⟨hlist, hscript, hlength⟩ := hat
    refine Or.inr (Or.inr ⟨s.g.mTextin, hscript, hlength ▸ hlen, ?_⟩)
    exact ⟨rfl, hworkers, hcpu, hlist, rfl, hidx, quiet_emit (.loadTTS _ _) hquiet trivial⟩
  | loadTTSEmpty hres hlen =>
    exact Or.inr (Or.inl ⟨hworkers, hcpu, quiet_emit (.loadTTS _ _) hquiet trivial, Or.inl rfl⟩)
  | _ => exact hat.elim

theorem Skipped.step {env : Env} {s s' : Sys} {a : Act} (hs : Skipped s)
    (h : Move env s a s') : Skipped s' := by
  obtain ⟨hworkers, hcpu, hquiet, hpc⟩ := hs
  obtain ⟨-, hmain⟩ := h.main_of_alone hworkers hcpu
  rcases hpc with hpc | hpc | hpc | hpc <;> rw [hpc] at hmain <;> cases hmain
  · exact ⟨hworkers, hcpu, quiet_emit (.unloadTTS _) hquiet trivial, Or.inl rfl⟩
  · exact ⟨hworkers, hcpu, quiet_emit (.unloadTTS _) hquiet trivial, Or.inr (Or.inl rfl)⟩
  · exact ⟨hworkers, hcpu, quiet_emit .dlclose hquiet trivial, Or.inr (Or.inr (Or.inl rfl))⟩
  · exact ⟨hworkers, hcpu, hquiet, Or.inr (Or.inr (Or.inl rfl))⟩
  · exact ⟨hworkers, hcpu, hquiet, Or.inr (Or.inr (Or.inr rfl))⟩

/-- The run passes a state where `main` starts its first worker. -/
def Launched (env : Env) (disk : Text → Text) (acts : List Act) (s : Sys) : Prop :=
  ∃ pre post s₀ script, acts = pre ++ post ∧ run env (.start disk) pre = some s₀ ∧
    env.script = some script ∧ 0 < toInt script.tellgEnd ∧
    Launch env.vecExceptionList script s₀ ∧ run env s₀ post = some s

/-- The launch itself, -/
theorem Launch.launched {env : Env} {disk : Text → Text} {acts : List Act} {script : IfStream}
    {s : Sys} (h : Launch env.vecExceptionList script s) (hscript : env.script = some script)
    (hlen : 0 < toInt script.tellgEnd) (hrun : run env (.start disk) acts = some s) :
    Launched env disk acts s :=
  ⟨acts, [], s, script, by simp, hrun, hscript, hlen, h, rfl⟩

/-- and one more step behind it. -/
theorem Launched.concat {env : Env} {disk : Text → Text} {acts : List Act} {s s' : Sys} {a : Act}
    (h : Launched env disk acts s) (hstep : step env s a = some s') :
    Launched env disk (acts ++ [a]) s' := by
  obtain ⟨pre, post, s₀, script, rfl, hpre, hscript, hlen, h₀, hpost⟩ := h
  exact ⟨pre, post ++ [a], s₀, script, by simp, hpre, hscript, hlen, h₀,
    runFrom_concat hpost hstep⟩

/-- **Where a run of the program stands.**  No thread was started yet, none ever
will be, or the run goes on from a state in which the first one is started. -/
theorem start_cases {env : Env} {disk : Text → Text} {acts : List Act} {s : Sys}
    (h : run env (.start disk) acts = some s) :
    Early env s ∨ Skipped s ∨ Launched env disk acts s := by
  have hstep : ∀ as t a t', run env (.start disk) as = some t →
      (Early env t ∨ Skipped t ∨ Launched env disk as t) → step env t a = some t' →
      Early env t' ∨ Skipped t' ∨ Launched env disk (as ++ [a]) t' := by
    intro as t a t' hrun ht hmove
    obtain ht | ht | ht := ht
    · obtain ht' | ht' | ⟨script, hscript, hlen, hlaunch⟩ := ht.step (step_move hmove)
      · exact Or.inl ht'
      · exact Or.inr (Or.inl ht')
      · exact Or.inr (Or.inr (hlaunch.launched hscript hlen (runFrom_concat hrun hmove)))
    · exact Or.inr (Or.inl (ht.step (step_move hmove)))
    · exact Or.inr (Or.inr (ht.concat hmove))
  have hnil : Early env (.start disk) ∨ Skipped (.start disk) ∨
      Launched env disk [] (.start disk) := Or.inl (early_start env disk)
  exact runFrom_history hnil hstep h

end Run
