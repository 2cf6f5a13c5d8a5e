import OssTest.Lib.Outputs
import OssTest.Run.Shutdown

/-!
# The log of a whole run

All threads write the one log, each with calls of its own.  `callOf` reads off a step the
call of `makeLogFile` it makes and `calls` lists the calls of a run in the order in which
they got the mutex; what is known about a sequence of calls then holds of the run.

* `log_eq_runCalls` — the log is what these calls made of it.
* `InPhase` — the first call opens the log, the last one closes it, and those in between
  find it open.
* `log_of_run` — the log files of a run together hold all that was logged.
-/

namespace Run

open Cpp UtilBox Exceptions EngineLog Engine Steps

/-! ## The calls of a run -/

/-- The call of `makeLogFile` a worker makes. -/
def workerCall (o : Outcome) (g : Shared) : WorkerPc → Option Call
  | .log _ _ | .logErr _ => some ⟨1, some g.msgLog, o.os⟩
  | _ => none

/-- The call the load monitor makes. -/
def cpuCall (o : Outcome) (g : Shared) : CpuPc → Option Call
  | .log => some ⟨1, some g.msgLog, o.os⟩
  | _ => none

/-- The call `main` makes. -/
def mainCall (o : Outcome) (g : Shared) : MainPc → Option Call
  | .logStart => some ⟨0, none, o.os⟩
  | .logExceptions => some ⟨1, some exceptionsMsg, o.os⟩
  | .logResult => some ⟨1, some g.msgLog, o.os⟩
  | .logElapsed => some ⟨1, some (elapsedMsg o.elapsed), o.os⟩
  | .logThreads => some ⟨1, some (threadsMsg g.mThreadCnt), o.os⟩
  | .logEnd => some ⟨2, some finishedMsg, o.os⟩
  | _ => none

/-- The call a step makes. -/
def callOf (s : Sys) (a : Act) : Option Call :=
  match a.tid with
  | .main => mainCall a.o s.g s.main
  | .cpu => cpuCall a.o s.g s.cpu
  | .worker i => s.workers[i]?.bind fun w => workerCall a.o s.g w.pc

/-- The calls of a run. -/
def calls (env : Env) (disk : Text → Text) (acts : List Act) : List Call :=
  outputs (step env) callOf (.start disk) acts

/-- The log in a state of the program. -/
def Sys.log (s : Sys) : LogFile := s.g.log

/-- What a call does to the log. -/
def logCall (mTimeInfo : Text) (log : LogFile) (c : Call) : LogFile :=
  (EngineLog.makeLogFile mTimeInfo c.mode c.msg c.os log).1

section Move

variable {env : Env} {s s' : Sys} {a : Act}

theorem callOf_worker {i n : ℕ} {pc : WorkerPc} (htid : a.tid = .worker i)
    (hi : s.workers[i]? = some ⟨n, pc⟩) : callOf s a = workerCall a.o s.g pc := by
  rw [callOf, htid]
  dsimp only
  rw [hi, Option.bind_some]

/-- **Only a call changes the log.** -/
theorem Move.log (h : Move env s a s') :
    s'.log = (callOf s a).elim s.log (logCall env.mTimeInfo s.log) := by
  cases h with
  | main htid h =>
    have hcall : callOf s a = mainCall a.o s.g s.main := by rw [callOf, htid]
    rw [hcall]
    generalize s.main = pc at h
    cases h <;> rfl
  | cpu htid h =>
    have hcall : callOf s a = cpuCall a.o s.g s.cpu := by rw [callOf, htid]
    rw [hcall]
    generalize s.cpu = pc at h
    cases h <;> rfl
  | worker htid hi h =>
    rw [callOf_worker htid hi]
    cases h <;> rfl

end Move

/-- **The log is what the calls made of it**, in every run. -/
theorem log_eq_runCalls {env : Env} {disk : Text → Text} {acts : List Act} {s : Sys}
    (hrun : run env (.start disk) acts = some s) :
    s.g.log = runCalls env.mTimeInfo (.start disk) (calls env disk acts) := by
  have hstep : ∀ t a t', step env t a = some t' →
      t'.log = (callOf t a).elim t.log (logCall env.mTimeInfo t.log) :=
    fun t a t' hmove => (step_move hmove).log
  exact runFrom_foldl hstep hrun

/-! ## The first call and the last one -/

/-- Where the calls stand, by where `main` does. -/
def InPhase (cs : List Call) : MainPc → Prop
  | .logStart => cs = []
  | .returned true => ∃ first cs' last, cs = first :: cs' ++ [last] ∧ first.mode = 0 ∧
      (∀ c ∈ cs', c.mode = 1) ∧ last.mode = 2 ∧ last.msg = some finishedMsg
  | _ => ∃ first cs', cs = first :: cs' ∧ first.mode = 0 ∧ ∀ c ∈ cs', c.mode = 1

theorem inPhase_of_logOpen {cs : List Call} {pc : MainPc} (hopen : pc.logOpen = true) :
    InPhase cs pc ↔ ∃ first cs', cs = first :: cs' ∧ first.mode = 0 ∧ ∀ c ∈ cs', c.mode = 1 := by
  cases pc with
  | logStart => cases hopen
  | returned success =>
    cases success with
    | true => cases hopen
    | false => rfl
  | _ => rfl

/-- One more call of mode 1, or none. -/
theorem InPhase.append {cs : List Call} {pc pc' : MainPc} (h : InPhase cs pc)
    (hopen : pc.logOpen = true) (hopen' : pc'.logOpen = true) {call : Option Call}
    (hcall : ∀ c, call = some c → c.mode = 1) : InPhase (cs ++ call.toList) pc' := by
  obtain ⟨first, cs', rfl, hfirst, hrest⟩ := (inPhase_of_logOpen hopen).1 h
  refine (inPhase_of_logOpen hopen').2 ⟨first, cs' ++ call.toList, rfl, hfirst, ?_⟩
  intro c hc
  rcases List.mem_append.1 hc with hc | hc
  · exact hrest c hc
  · exact hcall c (Option.mem_toList.1 hc)

theorem MainMove.inPhase {env : Env} {o : Outcome} {s s' : Sys} {cs : List Call}
    (h : MainMove env o s s.main s') (hcs : InPhase cs s.main) :
    InPhase (cs ++ (mainCall o s.g s.main).toList) s'.main := by
  generalize s.main = pc at h hcs
  cases h with
  | logStart hfree =>
    obtain rfl : cs = [] := hcs
    exact ⟨_, [], rfl, rfl, nofun⟩
  | logEnd hfree =>
    obtain ⟨first, cs', rfl, hfirst, hrest⟩ := hcs
    exact ⟨first, cs', _, rfl, hfirst, hrest, rfl, rfl⟩
  | logExceptions | logResult | logElapsed | logThreads =>
    exact hcs.append rfl rfl fun c hc => by cases hc; rfl
  | _ => exact hcs.append rfl rfl nofun

/-- While the load monitor logs, the log is open. -/
theorem logOpen_of_cpu {s : Sys} (hat : MonitorAt s.cpu s.g.bSynthFinished s.main)
    (hcpu : s.cpu = .log) : s.main.logOpen = true := by
  rw [hcpu] at hat
  cases hmain : s.main with
  | logStart =>
    rw [hmain] at hat
    cases hat.1
  | returned success =>
    rw [hmain] at hat
    cases success with
    | true => rcases hat with hat | hat <;> cases hat
    | false => rfl
  | _ => rfl

/-- **The phases of the log**, in every run. -/
theorem inPhase_of_run {env : Env} {disk : Text → Text} {acts : List Act} {s : Sys}
    (hrun : run env (.start disk) acts = some s) : InPhase (calls env disk acts) s.main := by
  have hstep : ∀ as t a t', run env (.start disk) as = some t →
      InPhase (calls env disk as) t.main → step env t a = some t' →
      InPhase (calls env disk (as ++ [a])) t'.main := by
    intro as t a t' has ht hmove
    rw [calls, outputs_concat has hmove, ← calls]
    cases step_move hmove with
    | main htid h =>
      rw [callOf, htid]
      exact h.inPhase ht
    | cpu htid h =>
      rw [callOf, htid]
      cases hpc : t.cpu with
      | log =>
        have hopen := logOpen_of_cpu (monitor_of_run has) hpc
        exact ht.append hopen hopen fun c hc => by cases hc; rfl
      | _ => simpa [cpuCall] using ht
    | @worker i n pc g' pc' htid hi h =>
      rw [callOf_worker htid hi]
      have hopen : t.main.logOpen = true :=
        logOpen_of_worker ⟨as, has⟩ (List.mem_of_getElem? hi) h.not_returned
      refine ht.append hopen hopen fun c hc => ?_
      cases pc with
      | log | logErr => cases hc; rfl
      | _ => cases hc
  have hnil : InPhase (calls env disk []) (Sys.start disk).main := rfl
  exact runFrom_history (P := fun as t => InPhase (calls env disk as) t.main) hnil hstep hrun

/-- While the log is open a call of mode 1 adds its message. -/
theorem openMessages_ones {cs : List Call} (h : ∀ c ∈ cs, c.mode = 1) (rest : List Call) :
    openMessages true (cs ++ rest) = (cs.map fun c => msgText c.msg) ++ openMessages true rest := by
  induction cs with
  | nil => rfl
  | cons c cs ih =>
    have hc : c.mode = 1 := h c List.mem_cons_self
    have htail := ih fun d hd => h d (List.mem_cons_of_mem c hd)
    simp [openMessages, hc, htail]

/-- **No call of a run comes while the log is closed.** -/
theorem openMessages_of_inPhase {cs : List Call} {pc : MainPc} (h : InPhase cs pc) :
    openMessages false cs = cs.map fun c => msgText c.msg := by
  have hopened : ∀ (first : Call) (cs' rest : List Call), first.mode = 0 → (∀ c ∈ cs', c.mode = 1) →
      openMessages false (first :: cs' ++ rest) =
        ((first :: cs').map fun c => msgText c.msg) ++ openMessages true rest := by
    intro first cs' rest hfirst hrest
    have htail := openMessages_ones hrest rest
    simp [openMessages, hfirst, htail]
  cases hopen : pc.logOpen with
  | true =>
    obtain ⟨first, cs', rfl, hfirst, hrest⟩ := (inPhase_of_logOpen hopen).1 h
    have hall := hopened first cs' [] hfirst hrest
    rwa [List.append_nil, openMessages, List.append_nil] at hall
  | false =>
    cases pc with
    | logStart =>
      obtain rfl : cs = [] := h
      rfl
    | returned success =>
      cases success with
      | true =>
        obtain ⟨first, cs', last, rfl, hfirst, hrest, hlast, -⟩ := h
        rw [hopened first cs' [last] hfirst hrest, List.map_append]
        simp [openMessages]
      | false => cases hopen
    | _ => cases hopen

/-! ## What the log files hold -/

theorem opened_length_of_refines {mTimeInfo : Text} {seg : SegLog Text} {log : LogFile}
    (h : Refines mTimeInfo seg log) : log.opened.length = seg.segments.length := by
  rw [h.opened, List.length_map, List.length_range]

/-- A call meets the operating system of its step. -/
theorem callOf_os {s : Sys} {a : Act} {c : Call} (hc : callOf s a = some c) : c.os = a.o.os := by
  unfold callOf at hc
  split at hc
  · unfold mainCall at hc
    split at hc <;> cases hc <;> rfl
  · unfold cpuCall at hc
    split at hc
    · cases hc
      rfl
    · cases hc
  · obtain ⟨w, -, hw⟩ := Option.bind_eq_some_iff.1 hc
    unfold workerCall at hw
    split at hw <;> cases hw <;> rfl

/-- The log of a run shows the calls of the run in segments. -/
theorem refines_of_run {env : Env} {disk : Text → Text} {acts : List Act} {s : Sys}
    (hrun : run env (.start disk) acts = some s) (hfopen : ∀ a ∈ acts, a.o.os.fopenOk = true) :
    Refines env.mTimeInfo (segRun SegLog.empty (calls env disk acts)) s.g.log := by
  rw [log_eq_runCalls hrun]
  refine runCalls_refines (refines_start env.mTimeInfo disk) _ fun c hc => ?_
  obtain ⟨pre, a, post, t, rfl, -, hout⟩ := mem_outputs hrun hc
  rw [callOf_os hout]
  exact hfopen a (by simp)

/-- Once `main` has returned `EXIT_SUCCESS` the log is closed. -/
theorem closed_of_success {env : Env} {disk : Text → Text} {acts : List Act} {s : Sys}
    (hrun : run env (.start disk) acts = some s) (hfopen : ∀ a ∈ acts, a.o.os.fopenOk = true)
    (hmain : s.main = .returned true) : s.g.log.fpLog = none := by
  have hphase := inPhase_of_run hrun
  rw [hmain] at hphase
  obtain ⟨first, cs', last, hcs, -, -, hlast, -⟩ := hphase
  have hopen := (refines_of_run hrun hfopen).isOpen
  rw [hcs, segRun, List.foldl_append, List.foldl_cons, List.foldl_nil, segCall_isOpen] at hopen
  simpa [hlast] using hopen

/-- **The log of a whole run.**  In every run in which no `fopen` of the log fails and at
most `2 ^ 31` log files are opened, the files are numbered 0, 1, 2 and so on and none is
opened twice; put together they hold what all the threads logged, message by message in the
order in which they got the mutex, and nothing else.  When `main` returns `EXIT_SUCCESS`
the log is closed, and its last line says so. -/
theorem log_of_run (env : Env) (disk : Text → Text) (acts : List Act) (s : Sys)
    (hrun : run env (.start disk) acts = some s) (hfopen : ∀ a ∈ acts, a.o.os.fopenOk = true)
    (hfew : s.g.log.opened.length ≤ 2 ^ 31) :
    Intact env.mTimeInfo (calls env disk acts) s.g.log ∧
      s.g.log.text = (calls env disk acts).flatMap (fun c => msgText c.msg) ∧
      (s.main = .returned true → s.g.log.fpLog = none ∧ finishedMsg <:+ s.g.log.text) := by
  have hrefines := refines_of_run hrun hfopen
  have hphase := inPhase_of_run hrun
  have hfiles := opened_length_of_refines hrefines
  have htext : s.g.log.text = (calls env disk acts).flatMap (fun c => msgText c.msg) := by
    rw [hrefines.text (by omega), entries_segRun]
    change (openMessages false (calls env disk acts)).flatten = _
    rw [openMessages_of_inPhase hphase, List.flatMap_def]
  refine ⟨intact_of_refines hrefines ?_, htext,
    fun hmain => ⟨closed_of_success hrun hfopen hmain, ?_⟩⟩
  · rw [openedFiles, ← hfiles]
    exact hfew
  · rw [hmain] at hphase
    obtain ⟨first, cs', last, hcs, -, -, -, hmsg⟩ := hphase
    rw [htext, hcs, List.flatMap_append, List.flatMap_singleton, hmsg]
    exact List.suffix_append ..

/-- The log of a run of two workers that take turns. -/
theorem log_of_run_ab :
    ∃ s, run (twoWorkers "a\nb".toList) (.start fun _ => []) (upToResult ++ fromResult) = some s ∧
      s.main = .returned true ∧ s.g.log.fpLog = none ∧ finishedMsg <:+ s.g.log.text := by
  have hcheck : (run (twoWorkers "a\nb".toList) (.start fun _ => [])
      (upToResult ++ fromResult)).any (fun s =>
        s.main = .returned true && s.g.log.opened.length = 1) = true := by
    decide +kernel
  obtain ⟨s, hrun, hs⟩ := (Option.any_eq_true _ _).1 hcheck
  simp only [Bool.and_eq_true, decide_eq_true_eq] at hs
  obtain ⟨hend, hfiles⟩ := hs
  have hlog := log_of_run (twoWorkers "a\nb".toList) (fun _ => []) (upToResult ++ fromResult) s
    hrun (by decide) (by rw [hfiles]; decide)
  exact ⟨s, hrun, hend, hlog.2.2 hend⟩

end Run
