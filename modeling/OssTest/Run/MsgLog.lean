import OssTest.Lib.Pool
import OssTest.Run.Join
import OssTest.Run.Records

/-!
# Who uses `msgLog`

All threads print into the one buffer `msgLog` and log what is in it in another step.

* `Undisturbed` — the step prints nothing over a message that waits there.
* `Pending` — what `msgLog` holds for the threads that are about to log it.
* `WorkerWrites`, `MainWrites` — what a step of a worker and of `main` logs.
-/

namespace Run

open Cpp UtilBox Exceptions EngineLog Engine Pool

/-! ## Who is about to print -/

/-- The worker has printed a record and not logged it yet. -/
def WorkerPc.logsRecord : WorkerPc → Bool
  | .log _ _ => true
  | _ => false

/-- The worker has printed an error and not logged it yet. -/
def WorkerPc.logsError : WorkerPc → Bool
  | .logErr _ => true
  | _ => false

/-- A record waits in `msgLog`. -/
def Sys.recordWaits (s : Sys) : Bool := s.workers.any fun w => w.pc.logsRecord

/-- Another message waits in `msgLog`. -/
def Sys.plainWaits (s : Sys) : Bool :=
  (s.workers.any fun w => w.pc.logsError) || s.cpu = .log || s.main = .logResult

/-- The thread is about to print a record into `msgLog`. -/
def Sys.printsRecord (s : Sys) : Tid → Bool
  | .worker i =>
      match s.workers[i]? with
      | some ⟨_, .sprintf _ _⟩ => true
      | _ => false
  | _ => false

/-- The thread is about to print another message into `msgLog`. -/
def Sys.printsPlain (s : Sys) : Tid → Bool
  | .worker i =>
      match s.workers[i]? with
      | some ⟨_, .sprintfErr _ _⟩ => true
      | _ => false
  | .cpu =>
      match s.cpu with
      | .sprintf _ => true
      | _ => false
  | .main => s.main = .sprintfResult

/-- The step does not print over a record that waits in `msgLog`, nor a record over
another message. -/
def Undisturbed (s : Sys) (a : Act) : Prop :=
  (s.printsRecord a.tid = true → s.recordWaits = false ∧ s.plainWaits = false) ∧
    (s.printsPlain a.tid = true → s.recordWaits = false)

instance (s : Sys) (a : Act) : Decidable (Undisturbed s a) := by
  unfold Undisturbed
  infer_instance

/-- What the threads that are about to log `msgLog` find there. -/
structure Pending (s : Sys) : Prop where
  record : ∀ w ∈ s.workers, ∀ k t, w.pc = .log k t → s.g.msgLog = recordMsg w.threadNum k t
  plain : s.plainWaits = true → Plain s.g.msgLog

/-- **What a step of worker `n` does to `msgLog` and to the log.** -/
inductive WorkerWrites (env : Env) (i n : ℕ) (o : Outcome) (g g' : Shared) :
    WorkerPc → WorkerPc → Prop where
  | record {k : Int} {t : Text} (hmsg : g'.msgLog = recordMsg n k t) (hlog : g'.log = g.log) :
      WorkerWrites env i n o g g' (.sprintf k t) (.log k t)
  | error {k : Int} {buf : ℕ} (hmsg : g'.msgLog = errorMsg n k) (hlog : g'.log = g.log) :
      WorkerWrites env i n o g g' (.sprintfErr k buf) (.logErr buf)
  | logs {k : Int} {t : Text} (hlog : g' = g.logged env (.worker i) 1 (some g.msgLog) o.os) :
      WorkerWrites env i n o g g' (.log k t) (.init k t)
  | logsError {buf : ℕ} (hlog : g' = g.logged env (.worker i) 1 (some g.msgLog) o.os) :
      WorkerWrites env i n o g g' (.logErr buf) (.free buf)
  | nothing {pc pc' : WorkerPc} (hpc : pc.logsRecord = false) (hrec : pc'.logsRecord = false)
      (herr : pc'.logsError = false) (hmsg : g'.msgLog = g.msgLog) (hlog : g'.log = g.log) :
      WorkerWrites env i n o g g' pc pc'

theorem WorkerMove.writes {env : Env} {i n : ℕ} {o : Outcome} {g g' : Shared}
    {pc pc' : WorkerPc} (h : WorkerMove env i n o g pc g' pc') :
    WorkerWrites env i n o g g' pc pc' := by
  cases h with
  | sprintf => exact .record rfl rfl
  | sprintfErr => exact .error rfl rfl
  | log hfree => exact .logs rfl
  | logErr hfree => exact .logsError rfl
  | fetch hfree heof hget => split <;> exact .nothing rfl rfl rfl rfl rfl
  | _ => exact .nothing rfl rfl rfl rfl rfl

section Pending

variable {env : Env} {s s' : Sys} {a : Act} {g' : Shared} {i n : ℕ} {pc pc' : WorkerPc}

theorem Sys.ne_log_of_not_recordWaits (h : s.recordWaits = false) {w : Worker}
    (hw : w ∈ s.workers) (k : Int) (t : Text) : w.pc ≠ .log k t := by
  intro hpc
  have hno := List.any_eq_false.1 h w hw
  rw [hpc] at hno
  exact hno rfl

/-- A worker that is not about to log an error adds no message that waits. -/
theorem Sys.plainWaits_of_set (herr : pc'.logsError = false)
    (h : ({ s with g := g', workers := s.workers.set i ⟨n, pc'⟩ } : Sys).plainWaits = true) :
    s.plainWaits = true := by
  simp only [Sys.plainWaits, Bool.or_eq_true, List.any_eq_true] at h ⊢
  rcases h with (⟨w, hw, hwe⟩ | hcpu) | hmain
  · rcases List.mem_or_eq_of_mem_set hw with hw | rfl
    · exact Or.inl (Or.inl ⟨w, hw, hwe⟩)
    · rw [herr] at hwe
      cases hwe
  · exact Or.inl (Or.inr hcpu)
  · exact Or.inr hmain

/-- A worker that goes on without logging or printing. -/
theorem Pending.keep (hp : Pending s) (hmsg : g'.msgLog = s.g.msgLog)
    (hrec : pc'.logsRecord = false) (herr : pc'.logsError = false) :
    Pending { s with g := g', workers := s.workers.set i ⟨n, pc'⟩ } := by
  constructor
  · apply forall_set (fun w hw k t hpc => hmsg.trans (hp.record w hw k t hpc))
    intro k t hpc
    rw [show pc' = .log k t from hpc] at hrec
    cases hrec
  · intro hwaits
    rw [show ({ s with g := g', workers := s.workers.set i ⟨n, pc'⟩ } : Sys).g.msgLog = _ from hmsg]
    exact hp.plain (Sys.plainWaits_of_set herr hwaits)

/-- **A worker keeps to its own message.** -/
theorem WorkerMove.pending (h : WorkerMove env i n a.o s.g pc g' pc') (htid : a.tid = .worker i)
    (hi : s.workers[i]? = some ⟨n, pc⟩) (hund : Undisturbed s a) (hp : Pending s) :
    Pending { s with g := g', workers := s.workers.set i ⟨n, pc'⟩ } := by
  cases h.writes with
  | @record k t hmsg hlog =>
    obtain ⟨hnorec, hnoplain⟩ := hund.1 (by simp [htid, Sys.printsRecord, hi])
    constructor
    · refine forall_set ?_ ?_
      · intro w hw j u hpc
        exact absurd hpc (Sys.ne_log_of_not_recordWaits hnorec hw j u)
      · intro j u hpc
        cases hpc
        exact hmsg
    · intro hwaits
      rw [Sys.plainWaits_of_set rfl hwaits] at hnoplain
      cases hnoplain
  | @error k buf hmsg hlog =>
    have hnorec := hund.2 (by simp [htid, Sys.printsPlain, hi])
    constructor
    · refine forall_set ?_ ?_
      · intro w hw j u hpc
        exact absurd hpc (Sys.ne_log_of_not_recordWaits hnorec hw j u)
      · intro j u hpc
        cases hpc
    · intro hwaits
      have hplain := plain_errorMsg n k
      rwa [← hmsg] at hplain
  | logs hlog => exact hp.keep (by rw [hlog]; rfl) rfl rfl
  | logsError hlog => exact hp.keep (by rw [hlog]; rfl) rfl rfl
  | nothing hpc hrec herr hmsg hlog => exact hp.keep hmsg hrec herr

/-- A step that adds no message that waits. -/
theorem Pending.frame (hp : Pending s) (hws : ∀ w ∈ s'.workers, w ∈ s.workers ∨ w.pc = .start)
    (hmsg : s'.g.msgLog = s.g.msgLog) (hwaits : s'.plainWaits = true → s.plainWaits = true) :
    Pending s' := by
  constructor
  · intro w hw k t hpc
    rcases hws w hw with hw | hstart
    · exact hmsg.trans (hp.record w hw k t hpc)
    · rw [hstart] at hpc
      cases hpc
  · intro h
    rw [hmsg]
    exact hp.plain (hwaits h)

/-- A step that prints another message while no record waits. -/
theorem Pending.printed (hnorec : s.recordWaits = false)
    (hws : ∀ w ∈ s'.workers, w ∈ s.workers ∨ w.pc = .start) (hplain : Plain s'.g.msgLog) :
    Pending s' := by
  refine ⟨?_, fun _ => hplain⟩
  intro w hw k t hpc
  rcases hws w hw with hw | hstart
  · exact absurd hpc (Sys.ne_log_of_not_recordWaits hnorec hw k t)
  · rw [hstart] at hpc
    cases hpc

/-- The load monitor waits with a message only before it logs it. -/
theorem Sys.plainWaits_of_cpu {pc' : CpuPc} (hpc : pc' ≠ .log)
    (h : ({ s with g := g', cpu := pc' } : Sys).plainWaits = true) : s.plainWaits = true := by
  simp only [Sys.plainWaits, Bool.or_eq_true, decide_eq_true_eq, hpc, or_false] at h ⊢
  exact h.imp_left Or.inl

theorem CpuMove.pending {pc' : CpuPc} (h : CpuMove env a.o s.g s.cpu g' pc')
    (htid : a.tid = .cpu) (hund : Undisturbed s a) (hp : Pending s) :
    Pending { s with g := g', cpu := pc' } := by
  generalize hpc : s.cpu = pc at h
  cases h with
  | sprintf =>
    have hnorec := hund.2 (by simp [htid, Sys.printsPlain, hpc])
    exact Pending.printed hnorec (fun w hw => Or.inl hw) (plain_memResMsg _)
  | _ => exact hp.frame (fun w hw => Or.inl hw) rfl (Sys.plainWaits_of_cpu nofun)

end Pending

/-! ## What `main` logs -/

/-- The log is open while `main` stands here. -/
def MainPc.logOpen : MainPc → Bool
  | .logStart => false
  | .returned success => !success
  | _ => true

/-- **What a step of `main` does to `msgLog` and to the log.** -/
inductive MainWrites (env : Env) (o : Outcome) (s s' : Sys) (pc : MainPc) : Prop where
  | prints (hpc : pc = .sprintfResult) (hmsg : s'.g.msgLog = resultErrorMsg)
      (hlog : s'.g.log = s.g.log) (hopen : s'.main.logOpen = pc.logOpen)
  | logs {mode : Int} {msg : Option Text} (hlog : s'.g = s.g.logged env .main mode msg o.os)
      (hplain : pc = .logResult ∧ msg = some s.g.msgLog ∨ Plain (msgText msg))
      (hopen : s'.main.logOpen = ((pc.logOpen || mode == 0) && mode != 2))
      (hpc' : s'.main ≠ .logResult)
  | nothing (hmsg : s'.g.msgLog = s.g.msgLog) (hlog : s'.g.log = s.g.log)
      (hopen : s'.main.logOpen = pc.logOpen) (hpc' : s'.main ≠ .logResult)

theorem MainMove.writes {env : Env} {o : Outcome} {s s' : Sys} {pc : MainPc}
    (h : MainMove env o s pc s') : MainWrites env o s s' pc := by
  cases h with
  | logStart hfree => exact .logs rfl (Or.inr plain_nil) rfl nofun
  | logExceptions hfree => exact .logs rfl (Or.inr plain_exceptionsMsg) rfl nofun
  | sprintfResult => exact .prints rfl rfl rfl rfl
  | logResult hfree => exact .logs rfl (Or.inl ⟨rfl, rfl⟩) rfl nofun
  | logElapsed hfree => exact .logs rfl (Or.inr (plain_elapsedMsg _)) rfl nofun
  | logThreads hfree => exact .logs rfl (Or.inr (plain_threadsMsg _)) rfl nofun
  | logEnd hfree => exact .logs rfl (Or.inr plain_finishedMsg) rfl nofun
  | _ => exact .nothing rfl rfl rfl nofun

theorem MainMove.cpu {env : Env} {o : Outcome} {s s' : Sys} {pc : MainPc}
    (h : MainMove env o s pc s') : s'.cpu = .log → s.cpu = .log := by
  cases h with
  | spawnCpu => exact nofun
  | _ => exact id

/-- The workers `main` finds, and those it starts. -/
theorem MainMove.mem_workers {env : Env} {o : Outcome} {s s' : Sys} {pc : MainPc}
    (h : MainMove env o s pc s') : ∀ w ∈ s'.workers, w ∈ s.workers ∨ w.pc = .start := by
  intro w hw
  obtain hws | ⟨k, -, -, -, hws⟩ := h.workers
  · exact Or.inl (hws ▸ hw)
  · rw [hws, List.mem_append, List.mem_singleton] at hw
    exact hw.imp_right fun hw => by rw [hw]

/-- `main` waits with a message only before it logs it. -/
theorem MainMove.plainWaits {env : Env} {o : Outcome} {s s' : Sys} {pc : MainPc}
    (h : MainMove env o s pc s') (hpc' : s'.main ≠ .logResult) (hwaits : s'.plainWaits = true) :
    s.plainWaits = true := by
  simp only [Sys.plainWaits, Bool.or_eq_true, List.any_eq_true, decide_eq_true_eq, hpc',
    or_false] at hwaits ⊢
  rcases hwaits with ⟨w, hw, hwe⟩ | hcpu
  · rcases h.mem_workers w hw with hw | hstart
    · exact Or.inl (Or.inl ⟨w, hw, hwe⟩)
    · rw [hstart] at hwe
      cases hwe
  · exact Or.inl (Or.inr (h.cpu hcpu))

theorem MainMove.pending {env : Env} {s s' : Sys} {a : Act}
    (h : MainMove env a.o s s.main s') (htid : a.tid = .main) (hund : Undisturbed s a)
    (hp : Pending s) : Pending s' := by
  cases h.writes with
  | prints hpc hmsg hlog hopen =>
    have hnorec := hund.2 (by simp [htid, Sys.printsPlain, hpc])
    exact Pending.printed hnorec h.mem_workers (hmsg ▸ plain_resultErrorMsg)
  | logs hlog hplain hopen hpc' =>
    exact hp.frame h.mem_workers (by rw [hlog]; rfl) (h.plainWaits hpc')
  | nothing hmsg hlog hopen hpc' => exact hp.frame h.mem_workers hmsg (h.plainWaits hpc')

end Run
