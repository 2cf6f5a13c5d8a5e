import OssTest.Log.Bounds
import OssTest.Run.Calls

/-!
# The sizes of messages and log files

The messages are printed into buffers of fixed size, and the log files they go to are
measured before each call.

* `threads_counted` — `mThreadCnt` counts the workers that have passed their first section,
  whatever the schedule.
* `Sized` — the numbers the messages are made of are `int`s.
* `messages_fit_of_run` — so a message never has more than `MAX_LOGSIZE` bytes, and fits
  into `msgLog` and `report`.
* `log_files_bounded_of_run` — and no log file of a run grows beyond what the size check
  allows.
-/

namespace Run

open Cpp UtilBox Exceptions EngineLog Engine Steps Pool

/-! ## The number of threads -/

/-- Has the worker counted itself? -/
def WorkerPc.counted : WorkerPc → Int
  | .start => 0
  | _ => 1

section Count

variable {env : Env} {s s' : Sys} {a : Act}

theorem WorkerMove.counted {i n : ℕ} {o : Outcome} {g g' : Shared} {pc pc' : WorkerPc}
    (h : WorkerMove env i n o g pc g' pc') :
    g'.mThreadCnt + pc.counted = g.mThreadCnt + pc'.counted := by
  cases h with
  | start => simp [WorkerPc.counted]
  | fetch => split <;> rfl
  | _ => rfl

theorem Move.counted (h : Move env s a s')
    (hs : s.g.mThreadCnt = total (fun w => w.pc.counted) s.workers) :
    s'.g.mThreadCnt = total (fun w => w.pc.counted) s'.workers := by
  cases h with
  | main _ h =>
    have hcnt : ∀ {pc : MainPc}, MainMove env a.o s pc s' →
        s'.g.mThreadCnt = s.g.mThreadCnt := fun h => by cases h <;> rfl
    rw [hcnt h, hs]
    obtain hws | ⟨k, -, -, -, hws⟩ := h.workers
    · rw [hws]
    · rw [hws, total_append, total_singleton]
      exact (add_zero _).symm
  | cpu _ h =>
    generalize s.cpu = pc at h
    cases h <;> exact hs
  | @worker i n pc g' pc' _ hi h =>
    have hset := total_set (fun w : Worker => w.pc.counted) hi ⟨n, pc'⟩
    have hmove := h.counted
    dsimp only at hset ⊢
    omega

end Count

/-- `main` starts no more workers than it was told to. -/
theorem workers_length_le {env : Env} {disk : Text → Text} {acts : List Act} {s : Sys}
    (hrun : run env (.start disk) acts = some s) : s.workers.length ≤ env.maxthreadcnt := by
  obtain hs | hs | ⟨-, post, s₀, script, -, -, -, -, h₀, hpost⟩ := start_cases hrun
  · rw [hs.workers]
    exact Nat.zero_le _
  · rw [hs.workers]
    exact Nat.zero_le _
  · have hjoin := joining_of_run h₀ hpost
    rw [hjoin.length]
    exact hjoin.bound

/-- How many workers have passed their first section. -/
def Sys.counted (s : Sys) : ℕ := s.workers.countP fun w => w.pc != .start

theorem total_counted (ws : List Worker) :
    total (fun w => w.pc.counted) ws = (ws.countP fun w => w.pc != .start : ℕ) := by
  induction ws with
  | nil => rfl
  | cons w ws ih =>
    have hcons : total (fun w => w.pc.counted) (w :: ws) =
        w.pc.counted + total (fun w => w.pc.counted) ws := rfl
    obtain ⟨n, pc⟩ := w
    rw [hcons, ih, List.countP_cons]
    cases pc <;> simp [WorkerPc.counted, add_comm]

theorem mThreadCnt_of_run {env : Env} {disk : Text → Text} {acts : List Act} {s : Sys}
    (hrun : run env (.start disk) acts = some s) : s.g.mThreadCnt = s.counted := by
  have hstep : ∀ (t : Sys) a t', t.g.mThreadCnt = total (fun w => w.pc.counted) t.workers →
      step env t a = some t' → t'.g.mThreadCnt = total (fun w => w.pc.counted) t'.workers :=
    fun t a t' h hmove => (step_move hmove).counted h
  rw [Sys.counted, ← total_counted]
  exact runFrom_invariant hstep hrun rfl

theorem counted_le {env : Env} {disk : Text → Text} {acts : List Act} {s : Sys}
    (hrun : run env (.start disk) acts = some s) : s.counted ≤ env.maxthreadcnt :=
  List.countP_le_length.trans (workers_length_le hrun)

/-- Whoever has returned has counted itself. -/
theorem counted_of_complete {env : Env} {s : Sys} (h : Complete env s) :
    s.counted = env.maxthreadcnt := by
  rw [← h.1]
  refine List.countP_eq_length.2 fun w hw => ?_
  obtain ⟨ret, hret⟩ := h.2 w hw
  rw [hret]
  rfl

/-- **No worker is counted twice and none is forgotten.**  In every state of every run
`mThreadCnt` is the number of workers that have passed their first section, and so at most
the number `main` was to start; once all workers have returned it is that number. -/
theorem threads_counted (env : Env) (disk : Text → Text) (acts : List Act) (s : Sys)
    (hrun : run env (.start disk) acts = some s) :
    s.g.mThreadCnt = s.counted ∧ s.g.mThreadCnt ≤ env.maxthreadcnt ∧
      (Complete env s → s.g.mThreadCnt = env.maxthreadcnt) := by
  have hcnt := mThreadCnt_of_run hrun
  have hle := counted_le hrun
  refine ⟨hcnt, by omega, fun hcomplete => ?_⟩
  rw [hcnt, counted_of_complete hcomplete]

/-- Two workers have taken a line each. -/
theorem threads_counted_two :
    ∃ s, run (twoWorkers "a\nb".toList) (.start fun _ => []) overlapping = some s ∧
      s.g.mThreadCnt = 2 := by
  have hcheck : (run (twoWorkers "a\nb".toList) (.start fun _ => []) overlapping).any (fun s =>
      s.workers = [⟨0, .returned true⟩, ⟨1, .returned true⟩]) = true := by decide +kernel
  obtain ⟨s, hrun, hws⟩ := (Option.any_eq_true _ _).1 hcheck
  have hws := of_decide_eq_true hws
  have hcomplete : Complete (twoWorkers "a\nb".toList) s := by
    rw [Complete, hws]
    exact ⟨by decide, by simp⟩
  exact ⟨s, hrun, (threads_counted _ _ _ s hrun).2.2 hcomplete⟩

/-! ## The lengths of the messages -/

/-- The value of an `int`. -/
def IsInt (n : Int) : Prop := -2 ^ 31 ≤ n ∧ n < 2 ^ 31

theorem isInt_toInt (n : Int) : IsInt (toInt n) := toInt_bounds n

theorem length_fmtD_int {n : Int} (h : IsInt n) : (fmtD n).length ≤ 11 := by
  obtain ⟨hlow, hhigh⟩ := h
  exact length_fmtD_le (by decide) (by omega)

/-- A record has at most `MAX_LOGSIZE` bytes, -/
theorem length_recordMsg_le {n : ℕ} {k : Int} (hn : n < 30) (hk : IsInt k) (t : Text) :
    (recordMsg n k t).length ≤ maxLogsize := by
  have hnum : (fmtD n).length ≤ 3 := length_fmtD_le (by decide) (by omega)
  have hidx := length_fmtD_int hk
  have htext : (cstr t).length ≤ t.length := (List.takeWhile_prefix _).length_le
  unfold recordMsg maxLogsize
  split
  · simp
    omega
  · simp
    omega

/-- and so has every other message. -/
theorem length_errorMsg_le {n : ℕ} {k : Int} (hn : n < 30) (hk : IsInt k) :
    (errorMsg n k).length ≤ maxLogsize := by
  have hnum : (fmtD n).length ≤ 3 := length_fmtD_le (by decide) (by omega)
  have hidx := length_fmtD_int hk
  unfold errorMsg maxLogsize
  simp
  omega

theorem length_memResMsg_le {memRes : Int} (h : IsInt memRes) :
    (memResMsg memRes).length ≤ maxLogsize := by
  have hmem := length_fmtD_int h
  unfold memResMsg maxLogsize
  simp
  omega

theorem length_exceptionsMsg_le : exceptionsMsg.length ≤ maxLogsize := by decide

theorem length_finishedMsg_le : finishedMsg.length ≤ maxLogsize := by decide

theorem length_threadsMsg_le {n : ℕ} (h : n ≤ 30) : (threadsMsg n).length ≤ maxLogsize := by
  have hnum : (fmtD n).length ≤ 3 := length_fmtD_le (by decide) (by omega)
  unfold threadsMsg maxLogsize
  simp
  omega

theorem length_elapsedMsg_le {elapsed : ℕ} (h : elapsed < 2 ^ 63) :
    (elapsedMsg elapsed).length ≤ maxLogsize := by
  have hsec : (fmtD (elapsed / 100 : ℕ)).length ≤ 19 := length_fmtD_le (by decide) (by omega)
  have hten : (fmtD (elapsed / 10 % 10 : ℕ)).length ≤ 2 := length_fmtD_le (by decide) (by omega)
  have hone : (fmtD (elapsed % 10 : ℕ)).length ≤ 2 := length_fmtD_le (by decide) (by omega)
  push_cast at hsec hten hone
  unfold elapsedMsg fmtF2 maxLogsize
  simp
  omega

/-! ## Every message fits -/

/-- The answers fit their types: the load is an `int`, the time a `clock_t`. -/
def Outcome.InRange (o : Outcome) : Prop :=
  (∀ memRes, o.memRes = some memRes → IsInt memRes) ∧ o.elapsed < 2 ^ 63

/-- The number of the line a worker holds. -/
def WorkerPc.curIdx : WorkerPc → Option Int
  | .trim k _ | .sprintf k _ | .log k _ | .init k _ | .malloc k _ _ | .synth k _ _ _
  | .sprintfErr k _ => some k
  | _ => none

/-- **The numbers that are printed are small, and so is what was printed.** -/
structure Sized (s : Sys) : Prop where
  threadNum : ∀ w ∈ s.workers, w.threadNum < 30
  curIdx : ∀ w ∈ s.workers, ∀ k, w.pc.curIdx = some k → IsInt k
  mCurTextIdx : IsInt s.g.mCurTextIdx
  cpu : ∀ memRes, s.cpu = .sprintf memRes → IsInt memRes
  msgLog : s.g.msgLog.length ≤ maxLogsize

theorem sized_start (disk : Text → Text) : Sized (.start disk) where
  threadNum := nofun
  curIdx := nofun
  mCurTextIdx := isInt_toInt 0
  cpu := nofun
  msgLog := Nat.zero_le _

section Sized

variable {env : Env} {s s' : Sys} {a : Act}

/-- A number is taken from `m_curTextIdx`, or the worker has it already. -/
theorem WorkerMove.curIdx {i n : ℕ} {o : Outcome} {g g' : Shared} {pc pc' : WorkerPc}
    (h : WorkerMove env i n o g pc g' pc') :
    (g'.mCurTextIdx = g.mCurTextIdx ∨ ∃ k, g'.mCurTextIdx = toInt k) ∧
      ∀ k, pc'.curIdx = some k → pc.curIdx = some k ∨ k = g.mCurTextIdx := by
  cases h with
  | fetch hfree heof hget =>
    refine ⟨Or.inr ⟨_, rfl⟩, fun k hk => Or.inr ?_⟩
    split at hk
    · cases hk
    · exact (Option.some.inj hk).symm
  | _ => exact ⟨Or.inl rfl, fun k hk => by first | exact Or.inl hk | cases hk⟩

theorem WorkerMove.sized {i n : ℕ} {pc pc' : WorkerPc} {g' : Shared}
    (h : WorkerMove env i n a.o s.g pc g' pc') (hi : s.workers[i]? = some ⟨n, pc⟩)
    (hs : Sized s) : Sized { s with g := g', workers := s.workers.set i ⟨n, pc'⟩ } := by
  have hmem : (⟨n, pc⟩ : Worker) ∈ s.workers := List.mem_of_getElem? hi
  have hn := hs.threadNum _ hmem
  have hidx := hs.curIdx _ hmem
  obtain ⟨hcount, hkeep⟩ := h.curIdx
  refine ⟨forall_set hs.threadNum hn, forall_set hs.curIdx ?_, ?_, hs.cpu, ?_⟩
  · intro k hk
    rcases hkeep k hk with hk | rfl
    · exact hidx k hk
    · exact hs.mCurTextIdx
  · rcases hcount with hcount | ⟨k, hcount⟩
    · exact hcount ▸ hs.mCurTextIdx
    · exact hcount ▸ isInt_toInt k
  · cases h.writes with
    | record hmsg hlog => exact hmsg ▸ length_recordMsg_le hn (hidx _ rfl) _
    | error hmsg hlog => exact hmsg ▸ length_errorMsg_le hn (hidx _ rfl)
    | logs hlog => exact hlog ▸ hs.msgLog
    | logsError hlog => exact hlog ▸ hs.msgLog
    | nothing hpc hrec herr hmsg hlog => exact hmsg ▸ hs.msgLog

/-- What the monitor is about to print is what it has read. -/
theorem memRes_of_cpuStep {o : Outcome} {g g' : Shared} {pc : CpuPc} {memRes : Int}
    (h : cpuStep env o g pc = some (g', .sprintf memRes)) : o.memRes = some memRes := by
  cases pc with
  | sample elapsed =>
    simp only [cpuStep] at h
    split at h
    · cases h
    · rename_i m hread
      split_ifs at h
      · cases h
        exact hread
      · cases h
  | loop elapsed =>
    simp only [cpuStep] at h
    split_ifs at h <;> cases h
  | log =>
    obtain ⟨-, hlog⟩ := logged_of_map h
    cases hlog
  | _ => cases h

theorem memRes_of_step (h : step env s a = some s') {memRes : Int}
    (hpc : s'.cpu = .sprintf memRes) : s.cpu = .sprintf memRes ∨ a.o.memRes = some memRes := by
  cases step_move h with
  | main _ hmove =>
    refine Or.inl ?_
    generalize s.main = pc at hmove
    cases hmove with
    | spawnCpu => cases hpc
    | _ => exact hpc
  | cpu htid _ =>
    have hcpu := cpuStep_of_step htid h
    rw [hpc] at hcpu
    exact Or.inr (memRes_of_cpuStep hcpu)
  | worker _ _ _ => exact Or.inl hpc

/-- **A step keeps the numbers small.** -/
theorem Sized.step (hs : Sized s) (ho : a.o.InRange) (hstep : step env s a = some s') :
    Sized s' := by
  have hcpu : ∀ memRes, s'.cpu = .sprintf memRes → IsInt memRes := fun memRes hpc =>
    (memRes_of_step hstep hpc).elim (hs.cpu memRes) (ho.1 memRes)
  cases step_move hstep with
  | main _ h =>
    have hidx : ∀ {pc : MainPc}, MainMove env a.o s pc s' →
        s'.g.mCurTextIdx = s.g.mCurTextIdx := fun h => by cases h <;> rfl
    have hmsg : s'.g.msgLog.length ≤ maxLogsize := by
      cases h.writes with
      | prints _ hmsg => rw [hmsg]; decide
      | logs hlog => exact hlog ▸ hs.msgLog
      | nothing hmsg => exact hmsg ▸ hs.msgLog
    refine ⟨?_, ?_, (hidx h).symm ▸ hs.mCurTextIdx, hcpu, hmsg⟩
    · intro w hw
      obtain hws | ⟨k, -, hk, -, hws⟩ := h.workers
      · exact hs.threadNum w (hws ▸ hw)
      · rw [hws, List.mem_append, List.mem_singleton] at hw
        rcases hw with hw | rfl
        · exact hs.threadNum w hw
        · exact hk.trans_le (maxthreadcnt_bounds env).2
    · intro w hw k hk
      rcases h.mem_workers w hw with hw | hstart
      · exact hs.curIdx w hw k hk
      · rw [hstart] at hk
        cases hk
  | cpu _ h =>
    have hidx := h.frame.2.2.1
    refine ⟨hs.threadNum, hs.curIdx, hidx.symm ▸ hs.mCurTextIdx, hcpu, ?_⟩
    generalize hpc : s.cpu = pc at h
    cases h with
    | sprintf => exact length_memResMsg_le (hs.cpu _ hpc)
    | _ => exact hs.msgLog
  | worker _ hi h => exact h.sized hi hs

/-- The message of a call is small as well. -/
theorem Sized.callOf (hs : Sized s) (ho : a.o.InRange) {n : ℕ} (hcnt : s.g.mThreadCnt = n)
    (hn : n ≤ 30) {c : Call} (hc : callOf s a = some c) : (msgText c.msg).length ≤ maxLogsize := by
  unfold Run.callOf at hc
  split at hc
  · unfold mainCall at hc
    split at hc <;> cases hc
    · exact Nat.zero_le _
    · exact length_exceptionsMsg_le
    · exact hs.msgLog
    · exact length_elapsedMsg_le ho.2
    · rw [hcnt]
      exact length_threadsMsg_le hn
    · exact length_finishedMsg_le
  · unfold cpuCall at hc
    split at hc <;> cases hc
    exact hs.msgLog
  · obtain ⟨w, -, hw⟩ := Option.bind_eq_some_iff.1 hc
    unfold workerCall at hw
    split at hw <;> cases hw <;> exact hs.msgLog

end Sized

section Runs

variable {env : Env} {disk : Text → Text} {acts : List Act} {s : Sys}

theorem sized_of_run (hrun : run env (.start disk) acts = some s)
    (hrange : ∀ a ∈ acts, a.o.InRange) : Sized s :=
  Along.invariant (fun _ _ _ ht ho hmove => ht.step ho hmove)
    (along_of_forall fun a ha _ => hrange a ha) hrun (sized_start disk)

theorem length_msg_of_run (hrun : run env (.start disk) acts = some s)
    (hrange : ∀ a ∈ acts, a.o.InRange) {c : Call} (hc : c ∈ calls env disk acts) :
    (msgText c.msg).length ≤ maxLogsize := by
  obtain ⟨pre, a, post, t, rfl, hpre, hout⟩ := mem_outputs hrun hc
  have hsized := sized_of_run hpre fun b hb => hrange b (by simp [hb])
  have hcnt := (counted_le hpre).trans (maxthreadcnt_bounds env).2
  exact hsized.callOf (hrange a (by simp)) (mThreadCnt_of_run hpre) hcnt hout

end Runs

/-- **The messages fit their buffers.**  In every run in which what is read of the load and
of the clock fits its type, `msgLog`, which has `4 * MAX_LOGSIZE` bytes, never holds a text
of more than `MAX_LOGSIZE` bytes, and neither has any message that is logged, `report`
included. -/
theorem messages_fit_of_run (env : Env) (disk : Text → Text) (acts : List Act) (s : Sys)
    (hrun : run env (.start disk) acts = some s) (hrange : ∀ a ∈ acts, a.o.InRange) :
    s.g.msgLog.length ≤ maxLogsize ∧
      ∀ c ∈ calls env disk acts, (msgText c.msg).length ≤ maxLogsize :=
  ⟨(sized_of_run hrun hrange).msgLog, fun _ hc => length_msg_of_run hrun hrange hc⟩

theorem inRange_smooth (rc : Int) : (smooth rc).InRange := ⟨nofun, Nat.two_pow_pos 63⟩

/-- `main` starts a worker, which prints its record. -/
def untilRecord : List Act :=
  List.replicate 8 ⟨.main, smooth 0⟩ ++ List.replicate 6 ⟨.worker 0, smooth 0⟩

theorem forall_untilRecord {P : Act → Prop} (hmain : P ⟨.main, smooth 0⟩)
    (hworker : P ⟨.worker 0, smooth 0⟩) : ∀ a ∈ untilRecord, P a := by
  intro a ha
  rcases List.mem_append.1 ha with ha | ha
  · exact (List.mem_replicate.1 ha).2 ▸ hmain
  · exact (List.mem_replicate.1 ha).2 ▸ hworker

theorem messages_fit_a :
    ∃ s, run (oneWorker ['a']) (.start fun _ => []) untilRecord = some s ∧ s.g.msgLog ≠ [] ∧
      s.g.msgLog.length ≤ maxLogsize := by
  have hcheck : (run (oneWorker ['a']) (.start fun _ => []) untilRecord).any (fun s =>
      s.g.msgLog ≠ []) = true := by decide +kernel
  obtain ⟨s, hrun, hmsg⟩ := (Option.any_eq_true _ _).1 hcheck
  have hrange : ∀ a ∈ untilRecord, a.o.InRange :=
    forall_untilRecord (inRange_smooth 0) (inRange_smooth 0)
  exact ⟨s, hrun, of_decide_eq_true hmsg, (messages_fit_of_run _ _ untilRecord s hrun hrange).1⟩

/-! ## The sizes of the log files -/

/-- **A step keeps the log files small.** -/
theorem Sized.bounded {env : Env} {s s' : Sys} {a : Act} {B : ℕ} (hs : Sized s)
    (ho : a.o.InRange) (hfopen : a.o.os.fopenOk = true) (hlag : Behind B s.g.log a.o.os) {n : ℕ}
    (hcnt : s.g.mThreadCnt = n) (hn : n ≤ 30) (hstep : Run.step env s a = some s')
    (hb : Bounded maxLogsize B s.g.log) : Bounded maxLogsize B s'.g.log := by
  have hlog : s'.g.log = (Run.callOf s a).elim s.g.log (logCall env.mTimeInfo s.g.log) :=
    (step_move hstep).log
  rw [hlog]
  cases hc : Run.callOf s a with
  | none => exact hb
  | some c =>
    have hos := callOf_os hc
    exact makeLogFile_bounded hb c (hos ▸ hfopen) (hs.callOf ho hcnt hn hc) (hos ▸ hlag)

/-- **No log file grows without bound.**  In every run in which no `fopen` of the log fails
and each size check sees a size at most `B` bytes behind, a log file has at most
`MAX_LOG_SIZE + B + MAX_LOGSIZE` bytes while it is open, and one message more once it is
closed. -/
theorem log_files_bounded_of_run (env : Env) (disk : Text → Text) (acts : List Act) (s : Sys)
    (B : ℕ) (hrun : run env (.start disk) acts = some s) (hrange : ∀ a ∈ acts, a.o.InRange)
    (hfopen : ∀ a ∈ acts, a.o.os.fopenOk = true)
    (hlag : Along (step env) (fun t a => Behind B t.g.log a.o.os) (.start disk) acts) :
    ∀ name ∈ s.g.log.opened,
      (s.g.log.fpLog = some name →
        (s.g.log.disk name).length ≤ maxLogSize + B + maxLogsize) ∧
      (s.g.log.disk name).length ≤ maxLogSize + B + 2 * maxLogsize := by
  have hstep : ∀ as t a t', run env (.start disk) as = some t →
      ((∀ b ∈ as, b.o.InRange ∧ b.o.os.fopenOk = true) →
        Along (step env) (fun t a => Behind B t.g.log a.o.os) (.start disk) as →
        Bounded maxLogsize B t.g.log) → step env t a = some t' →
      (∀ b ∈ as ++ [a], b.o.InRange ∧ b.o.os.fopenOk = true) →
        Along (step env) (fun t a => Behind B t.g.log a.o.os) (.start disk) (as ++ [a]) →
        Bounded maxLogsize B t'.g.log := by
    intro as t a t' has ht hmove hok hal
    obtain ⟨hal, hlast⟩ := (along_append has).1 hal
    obtain ⟨hrange', hfopen'⟩ := hok a (by simp)
    have hprev : ∀ b ∈ as, b.o.InRange ∧ b.o.os.fopenOk = true := fun b hb => hok b (by simp [hb])
    have hsized := sized_of_run has fun b hb => (hprev b hb).1
    exact hsized.bounded hrange' hfopen' hlast.1 (mThreadCnt_of_run has)
      ((counted_le has).trans (maxthreadcnt_bounds env).2) hmove (ht hprev hal)
  have hbounded := runFrom_history
    (P := fun as t => (∀ b ∈ as, b.o.InRange ∧ b.o.os.fopenOk = true) →
      Along (step env) (fun t a => Behind B t.g.log a.o.os) (.start disk) as →
      Bounded maxLogsize B t.g.log)
    (fun _ _ => bounded_start maxLogsize B disk) hstep hrun
    (fun a ha => ⟨hrange a ha, hfopen a ha⟩) hlag
  exact fun name hname => ⟨hbounded.isOpen name hname, hbounded.isClosed name hname⟩

instance (B : ℕ) (log : LogFile) (os : Observed) : Decidable (Behind B log os) := by
  unfold Behind
  infer_instance

/-- The size check finds the log empty, and is 100 bytes behind at most. -/
theorem log_files_bounded_a :
    ∃ s, run (oneWorker ['a']) (.start fun _ => []) untilRecord = some s ∧
      ∀ name ∈ s.g.log.opened,
        (s.g.log.disk name).length ≤ maxLogSize + 100 + 2 * maxLogsize := by
  obtain ⟨s, hrun⟩ := Option.isSome_iff_exists.1
    (show (run (oneWorker ['a']) (.start fun _ => []) untilRecord).isSome = true by decide +kernel)
  have hrange : ∀ a ∈ untilRecord, a.o.InRange :=
    forall_untilRecord (inRange_smooth 0) (inRange_smooth 0)
  have hbounded := log_files_bounded_of_run (oneWorker ['a']) (fun _ => []) untilRecord s 100 hrun
    hrange (forall_untilRecord rfl rfl) (by decide +kernel)
  exact ⟨s, hrun, fun name hname => (hbounded name hname).2⟩

end Run
