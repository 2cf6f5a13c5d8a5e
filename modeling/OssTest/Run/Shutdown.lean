import OssTest.Run.Logging

/-!
# The end of a run

`main` joins its workers, tells the load monitor to stop, joins it, unloads the engine and
closes the log.  `MonitorAt` says where the monitor stands, by where `main` does, and
`over_of_success` what is left when `main` has returned `EXIT_SUCCESS`: nothing that
could still move.
-/

namespace Run

open Cpp UtilBox Exceptions EngineLog Engine Steps

/-- Where the load monitor stands, by where `main` does. -/
def MonitorAt (cpu : CpuPc) (bSynthFinished : Bool) : MainPc → Prop
  | .join _ | .setFinished => cpu ≠ .unborn ∧ cpu ≠ .returned ∧ bSynthFinished = false
  | .joinCpu => cpu ≠ .unborn ∧ bSynthFinished = true
  | .printResult | .sprintfResult | .logResult | .logElapsed | .logThreads => cpu = .returned
  | .deinitExt | .unloadLib | .logEnd | .returned true => cpu = .returned ∨ cpu = .unborn
  | _ => cpu = .unborn ∧ bSynthFinished = false

section Step

variable {env : Env} {s s' : Sys} {a : Act}

theorem MainMove.monitor {o : Outcome} (h : MainMove env o s s.main s')
    (hs : MonitorAt s.cpu s.g.bSynthFinished s.main) :
    MonitorAt s'.cpu s'.g.bSynthFinished s'.main := by
  generalize s.main = pc at h hs
  cases h with
  | spawnCpu => exact ⟨nofun, nofun, hs.2⟩
  | setFinished => exact ⟨hs.1, rfl⟩
  | joinCpu hcpu => exact hcpu
  | logResult | logThreads => exact Or.inl hs
  | loadTTSEmpty => exact Or.inr hs.1
  | _ => exact hs

/-- The monitor stops when it is told to, and not before. -/
theorem CpuMove.stops {o : Outcome} {g g' : Shared} {pc pc' : CpuPc}
    (h : CpuMove env o g pc g' pc') :
    pc ≠ .unborn ∧ pc' ≠ .unborn ∧ pc ≠ .returned ∧ g'.bSynthFinished = g.bSynthFinished ∧
      (pc' = .returned → g.bSynthFinished = true) := by
  cases h with
  | finished hfin => exact ⟨nofun, nofun, nofun, rfl, fun _ => hfin⟩
  | _ => exact ⟨nofun, nofun, nofun, rfl, nofun⟩

theorem CpuMove.monitor {o : Outcome} {g' : Shared} {pc' : CpuPc}
    (h : CpuMove env o s.g s.cpu g' pc') (hs : MonitorAt s.cpu s.g.bSynthFinished s.main) :
    MonitorAt pc' g'.bSynthFinished s.main := by
  obtain ⟨hborn, hborn', hret, hflag, hstop⟩ := h.stops
  rw [hflag]
  cases hmain : s.main with
  | join | setFinished =>
    rw [hmain] at hs
    refine ⟨hborn', fun hpc => ?_, hs.2.2⟩
    rw [hs.2.2] at hstop
    cases hstop hpc
  | joinCpu =>
    rw [hmain] at hs
    exact ⟨hborn', hs.2⟩
  | printResult | sprintfResult | logResult | logElapsed | logThreads =>
    rw [hmain] at hs
    exact absurd hs hret
  | deinitExt | unloadLib | logEnd =>
    rw [hmain] at hs
    exact (hs.elim hret hborn).elim
  | returned success =>
    rw [hmain] at hs
    cases success with
    | true => exact (hs.elim hret hborn).elim
    | false => exact absurd hs.1 hborn
  | _ =>
    rw [hmain] at hs
    exact absurd hs.1 hborn

theorem WorkerMove.bSynthFinished {i n : ℕ} {o : Outcome} {g g' : Shared} {pc pc' : WorkerPc}
    (h : WorkerMove env i n o g pc g' pc') : g'.bSynthFinished = g.bSynthFinished := by
  cases h <;> rfl

theorem Move.monitor (h : Move env s a s') (hs : MonitorAt s.cpu s.g.bSynthFinished s.main) :
    MonitorAt s'.cpu s'.g.bSynthFinished s'.main := by
  cases h with
  | main _ h => exact h.monitor hs
  | cpu _ h => exact h.monitor hs
  | worker _ _ h =>
    dsimp only
    rw [h.bSynthFinished]
    exact hs

end Step

/-- **Where the load monitor stands**, in every state of every run. -/
theorem monitor_of_run {env : Env} {disk : Text → Text} {acts : List Act} {s : Sys}
    (hrun : run env (.start disk) acts = some s) :
    MonitorAt s.cpu s.g.bSynthFinished s.main := by
  have hstep : ∀ t a t', MonitorAt t.cpu t.g.bSynthFinished t.main → step env t a = some t' →
      MonitorAt t'.cpu t'.g.bSynthFinished t'.main :=
    fun t a t' ht hmove => (step_move hmove).monitor ht
  exact runFrom_invariant hstep hrun ⟨rfl, rfl⟩

/-- Every thread that was started has returned. -/
structure Over (s : Sys) : Prop where
  main : s.main = .returned true
  workers : ∀ w ∈ s.workers, ∃ ret, w.pc = .returned ret
  cpu : s.cpu = .returned ∨ s.cpu = .unborn

/-- **`EXIT_SUCCESS` is the end**: no other thread is left. -/
theorem over_of_success {env : Env} {disk : Text → Text} {acts : List Act} {s : Sys}
    (hrun : run env (.start disk) acts = some s) (hmain : s.main = .returned true) : Over s := by
  have hcpu := monitor_of_run hrun
  rw [hmain] at hcpu
  refine ⟨hmain, ?_, hcpu⟩
  obtain hs | hs | ⟨-, post, s₀, script, -, -, -, -, h₀, hpost⟩ := start_cases hrun
  · rw [hs.workers]
    exact nofun
  · rw [hs.workers]
    exact nofun
  · have hjoin := joining_of_run h₀ hpost
    exact (hjoin.complete (by rw [hmain]; rfl) (by rw [hmain]; rfl)).2

/-- Where every thread has returned, none takes a step. -/
theorem Over.stuck {env : Env} {s : Sys} (hs : Over s) (a : Act) : step env s a = none := by
  rw [Option.eq_none_iff_forall_ne_some]
  intro s' hstep
  cases step_move hstep with
  | main _ h =>
    rw [hs.main] at h
    cases h
  | cpu _ h =>
    obtain ⟨hborn, -, hret, -⟩ := h.stops
    exact hs.cpu.elim hret hborn
  | worker _ hi h =>
    obtain ⟨ret, hret⟩ := hs.workers _ (List.mem_of_getElem? hi)
    exact h.not_returned ret hret

end Run
