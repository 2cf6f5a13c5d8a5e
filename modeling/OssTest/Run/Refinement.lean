import OssTest.Lib.Batch
import OssTest.Run.Failures
import OssTest.Run.Order

/-!
# The program as a batch of jobs

What the program is for, without threads, streams and buffers: the lines of the script are
jobs, and every one is handed to a worker, opened and spoken, or lost with its worker.

* `Shows` — the batch a state of the program shows.
* `shows_step` — every step of a worker is a step of the batch, or none.
* `refines_batch` — so the program is simulated by the batch, step by step.
-/

namespace Run

open Cpp UtilBox Exceptions EngineLog Engine Steps Pool

/-- The jobs of a script: what each line is worth, under its number. -/
def jobsOf (vecExceptionList lines : List Text) : List (Option (Int × Text)) :=
  lines.zipIdx.map fun lk => (dispatch vecExceptionList lk.1).map fun t => (toInt lk.2, t)

/-- **The batch a state shows**, with `p` lines taken. -/
structure Shows (vecExceptionList lines : List Text) (p : ℕ) (g : Shared) (ws : List Worker)
    (b : Batch (Int × Text)) : Prop where
  stream : g.mTextin.At lines p
  mCurTextIdx : g.mCurTextIdx = toInt p
  todo : b.todo = (jobsOf vecExceptionList lines).drop p
  held : b.held = total (fun w => w.pc.waiting) ws
  opened : b.opened = total (fun w => w.pc.unspoken) ws
  done : b.done = voiced g.trace
  lost : b.lost = failures g.trace

/-! ## What a step does to the lines -/

/-- What a step of a worker does to the line it has, if it takes no new one. -/
inductive LineMove (g g' : Shared) (pc pc' : WorkerPc) : Prop
  | nothing (hwait : pc'.waiting = pc.waiting) (hopen : pc'.unspoken = pc.unspoken)
      (hvoiced : voiced g'.trace = voiced g.trace) (hfail : failures g'.trace = failures g.trace)
  | start (x : Int × Text) (hwait : pc.waiting = {x} ∧ pc'.waiting = 0)
      (hopen : pc.unspoken = 0 ∧ pc'.unspoken = {x})
      (hvoiced : voiced g'.trace = voiced g.trace) (hfail : failures g'.trace = failures g.trace)
  | lose (x : Int × Text) (hwait : pc.waiting = {x} ∧ pc'.waiting = 0)
      (hopen : pc'.unspoken = pc.unspoken)
      (hvoiced : voiced g'.trace = voiced g.trace)
      (hfail : failures g'.trace = failures g.trace + {x})
  | finish (x : Int × Text) (hwait : pc'.waiting = pc.waiting)
      (hopen : pc.unspoken = {x} ∧ pc'.unspoken = 0)
      (hvoiced : voiced g'.trace = voiced g.trace + {x})
      (hfail : failures g'.trace = failures g.trace)

section Moves

variable {env : Env} {i n : ℕ} {o : Outcome} {g g' : Shared} {pc pc' : WorkerPc}

/-- A call that goes on with a text, or begins it. -/
theorem lineMove_synth {k : Int} {t : Text} {buf : ℕ} {flag rc size : Int} {call : SynthCall}
    (hcall : call = ⟨i, k, some (cstr t), buf, flag, n, t, rc, size⟩) (hflag : flag = 0 ∨ flag = 1)
    (htrace : g'.trace = g.trace ++ [.synth true call]) (hwait : pc'.waiting = 0)
    (hopen : pc'.unspoken = 0) : LineMove g g' (.synth k t buf flag) pc' := by
  subst hcall
  rcases hflag with rfl | rfl
  · refine .finish (k, t) hwait ⟨rfl, hopen⟩ ?_ ?_
    · simp [htrace, SynthCall.voiced]
    · simp [htrace, SynthCall.failure]
  · refine .nothing hwait (hopen.trans rfl) ?_ ?_
    · simp [htrace, SynthCall.voiced]
    · simp [htrace, SynthCall.failure]

theorem WorkerMove.lineMove (h : WorkerMove env i n o g pc g' pc') (hflag : pc.FlagOk)
    (hpc : pc = .fetch → g.mTextin.eofbit = true) : LineMove g g' pc pc' := by
  cases h with
  | fetch hfree heof hget => rw [hpc rfl] at heof; cases heof
  | trimEmpty htrim => exact .nothing (waiting_trim_empty htrim).symm rfl rfl rfl
  | trim htrim ht => exact .nothing (waiting_trim htrim ht).symm rfl rfl rfl
  | initFails hres hrc =>
    refine .lose _ ⟨rfl, rfl⟩ rfl ?_ ?_
    · simp [SynthCall.voiced]
    · simp [SynthCall.failure, hrc]
  | init hres hrc =>
    refine .start _ ⟨rfl, rfl⟩ ⟨rfl, rfl⟩ ?_ ?_
    · simp [SynthCall.voiced]
    · simp [SynthCall.failure, not_lt.2 hrc]
  | synthFails | synthLast => exact lineMove_synth rfl hflag rfl rfl rfl
  | synthMore =>
    refine lineMove_synth rfl hflag rfl rfl ?_
    rcases hflag with rfl | rfl <;> rfl
  | initNull | malloc | synthNull | free =>
    exact .nothing rfl rfl (by simp) (by simp)
  | _ => exact .nothing rfl rfl rfl rfl

end Moves

/-! ## Who is at work -/

/-- Has the worker a job, or was it lost with one? -/
def WorkerPc.engaged (pc : WorkerPc) : ℕ :=
  Multiset.card pc.waiting + Multiset.card pc.unspoken + pc.gaveUp

/-- A worker has one job at a time. -/
theorem engaged_le_one (pc : WorkerPc) : pc.engaged ≤ 1 := by
  cases pc with
  | trim k l =>
    obtain hnone | ⟨j, t, hwait, -⟩ := waiting_cases (.trim k l)
    · simp [WorkerPc.engaged, hnone, WorkerPc.unspoken, WorkerPc.gaveUp]
    · simp [WorkerPc.engaged, hwait, WorkerPc.unspoken, WorkerPc.gaveUp]
  | synth k t buf flag =>
    simp only [WorkerPc.engaged, WorkerPc.waiting, WorkerPc.unspoken, WorkerPc.gaveUp]
    split <;> simp
  | returned ret => cases ret <;> simp [WorkerPc.engaged, WorkerPc.waiting, WorkerPc.unspoken,
      WorkerPc.gaveUp]
  | _ => simp [WorkerPc.engaged, WorkerPc.waiting, WorkerPc.unspoken, WorkerPc.gaveUp]

theorem total_engaged (ws : List Worker) :
    total (fun w => w.pc.engaged) ws = Multiset.card (total (fun w => w.pc.waiting) ws) +
      Multiset.card (total (fun w => w.pc.unspoken) ws) + total (fun w => w.pc.gaveUp) ws := by
  rw [card_total, card_total]
  simp [total, WorkerPc.engaged, List.sum_map_add]

/-! ## The totals of the workers -/

section Totals

variable {f : WorkerPc → Multiset (Int × Text)} {ws : List Worker} {i n : ℕ} {pc pc' : WorkerPc}
  {x : Int × Text}

/-- A worker that keeps what it has, -/
theorem total_keeps (hi : ws[i]? = some ⟨n, pc⟩) (h : f pc' = f pc) :
    total (fun w => f w.pc) (ws.set i ⟨n, pc'⟩) = total (fun w => f w.pc) ws := by
  have hset := total_set (fun w : Worker => f w.pc) hi ⟨n, pc'⟩
  dsimp only at hset
  rw [h] at hset
  exact add_right_cancel hset

/-- one that gives it away, -/
theorem total_gives (hi : ws[i]? = some ⟨n, pc⟩) (h : f pc = {x}) (h' : f pc' = 0) :
    total (fun w => f w.pc) ws = total (fun w => f w.pc) (ws.set i ⟨n, pc'⟩) + {x} := by
  have hset := total_set (fun w : Worker => f w.pc) hi ⟨n, pc'⟩
  dsimp only at hset
  rw [h, h', add_zero] at hset
  exact hset.symm

/-- and one that gets something. -/
theorem total_gets (hi : ws[i]? = some ⟨n, pc⟩) (h : f pc = 0) (h' : f pc' = {x}) :
    total (fun w => f w.pc) (ws.set i ⟨n, pc'⟩) = total (fun w => f w.pc) ws + {x} := by
  have hset := total_set (fun w : Worker => f w.pc) hi ⟨n, pc'⟩
  dsimp only at hset
  rwa [h, h', add_zero] at hset

end Totals

/-! ## The simulation -/

section Step

variable {vecExceptionList lines : List Text} {p : ℕ} {env : Env} {g g' : Shared}
  {ws : List Worker} {i n : ℕ} {o : Outcome} {pc pc' : WorkerPc} {b : Batch (Int × Text)}

/-- A step of a worker that has a line, or has none and takes none. -/
theorem Shows.line (hs : Shows vecExceptionList lines p g ws b) (hi : ws[i]? = some ⟨n, pc⟩)
    (h : LineMove g g' pc pc') (hin : g'.mTextin = g.mTextin)
    (hidx : g'.mCurTextIdx = g.mCurTextIdx) (workers : ℕ) :
    ∃ b', (b' = b ∨ Batch.Step workers b b') ∧
      Shows vecExceptionList lines p g' (ws.set i ⟨n, pc'⟩) b' := by
  obtain ⟨hstream, hcur, htodo, hheld, hopened, hdone, hlost⟩ := hs
  rw [← hin] at hstream
  rw [← hidx] at hcur
  cases h with
  | nothing hwait hopen hvoiced hfail =>
    refine ⟨b, Or.inl rfl, hstream, hcur, htodo, ?_, ?_, ?_, ?_⟩
    · rw [total_keeps hi hwait, hheld]
    · rw [total_keeps hi hopen, hopened]
    · rw [hvoiced, hdone]
    · rw [hfail, hlost]
  | start x hwait hopen hvoiced hfail =>
    refine ⟨_, Or.inr (.start (hheld.trans (total_gives hi hwait.1 hwait.2))), hstream, hcur,
      htodo, rfl, ?_, ?_, ?_⟩
    · rw [total_gets hi hopen.1 hopen.2, hopened]
    · rw [hvoiced, ← hdone]
    · rw [hfail, ← hlost]
  | lose x hwait hopen hvoiced hfail =>
    refine ⟨_, Or.inr (.lose (hheld.trans (total_gives hi hwait.1 hwait.2))), hstream, hcur,
      htodo, rfl, ?_, ?_, ?_⟩
    · rw [total_keeps hi hopen, ← hopened]
    · rw [hvoiced, ← hdone]
    · rw [hfail, ← hlost]
  | finish x hwait hopen hvoiced hfail =>
    refine ⟨_, Or.inr (.finish (hopened.trans (total_gives hi hopen.1 hopen.2))), hstream, hcur,
      htodo, ?_, rfl, ?_, ?_⟩
    · rw [total_keeps hi hwait, ← hheld]
    · rw [hvoiced, ← hdone]
    · rw [hfail, ← hlost]

/-- **The section that fetches a line takes the next entry.** -/
theorem Shows.fetch {l : Text} {mTextin : IfStream} (hs : Shows vecExceptionList lines p g ws b)
    (hi : ws[i]? = some ⟨n, .fetch⟩) (hvec : g.mVecExceptionList = vecExceptionList)
    (heof : g.mTextin.eofbit = false) (hget : g.mTextin.getline [] = (l, mTextin))
    (hgave : total (fun w => w.pc.gaveUp) ws = Multiset.card (failures g.trace))
    {workers : ℕ} (hlen : ws.length ≤ workers) :
    ∃ b', Batch.Step workers b b' ∧
      Shows vecExceptionList lines (p + 1) (g.advance mTextin) (ws.set i ⟨n,
        if isExceptionalText g.mVecExceptionList l then .loop else .trim g.mCurTextIdx l⟩) b' := by
  obtain ⟨hstream, hcur, htodo, hheld, hopened, hdone, hlost⟩ := hs
  have hp := hstream.lt_of_not_eof heof
  obtain ⟨mTextin', hget', hat', -⟩ := IfStream.getline_spec hstream heof hp
  obtain ⟨rfl, rfl⟩ := Prod.mk.inj (hget'.symm.trans hget)
  have hnext : b.todo = ((dispatch vecExceptionList lines[p]).map fun t => (toInt p, t)) ::
      (jobsOf vecExceptionList lines).drop (p + 1) := by
    have hp' : p < (jobsOf vecExceptionList lines).length := by simpa [jobsOf] using hp
    rw [htodo, List.drop_eq_getElem_cons hp']
    simp [jobsOf]
  have hidx : toInt (g.mCurTextIdx + 1) = toInt (p + 1 : ℕ) := by
    rw [hcur, toInt_toInt_add_one]
    push_cast
    rfl
  have hworth : (if isExceptionalText g.mVecExceptionList lines[p] then WorkerPc.loop
      else .trim g.mCurTextIdx lines[p]).waiting =
        entry (toInt p) (dispatch vecExceptionList lines[p]) := by
    rw [hvec, hcur, dispatch]
    split <;> rfl
  have hopen : (if isExceptionalText g.mVecExceptionList lines[p] then WorkerPc.loop
      else .trim g.mCurTextIdx lines[p]).unspoken = WorkerPc.unspoken .fetch := by
    split <;> rfl
  have hkeep := total_keeps (f := WorkerPc.unspoken) hi hopen
  cases hdis : dispatch vecExceptionList lines[p] with
  | none =>
    rw [hdis] at hnext hworth
    refine ⟨_, .skip hnext, hat', hidx, rfl, ?_, hopened.trans hkeep.symm, hdone, hlost⟩
    exact hheld.trans (total_keeps hi hworth).symm
  | some t =>
    rw [hdis] at hnext hworth
    -- the worker that fetches has nothing, so there is room for one more
    have hroom : b.busy < workers := by
      rw [Batch.busy, hheld, hopened, hlost, ← hgave, ← total_engaged]
      exact (total_lt_length (fun w _ => engaged_le_one w.pc) (List.mem_of_getElem? hi)
        rfl).trans_le hlen
    refine ⟨_, .take hnext hroom, hat', hidx, rfl, ?_, hopened.trans hkeep.symm, hdone, hlost⟩
    rw [total_gets hi rfl hworth, hheld]

end Step

/-- **Every step of the program is a step of the batch, or none.** -/
theorem shows_step {vecExceptionList lines : List Text} {p : ℕ} {env : Env} {s s' : Sys} {a : Act}
    {b : Batch (Int × Text)} (hs : Shows vecExceptionList lines p s.g s.workers b)
    (hl : Ledger vecExceptionList lines s.g s.workers) (hlate : s.main.Late)
    (hgave : total (fun w => w.pc.gaveUp) s.workers = Multiset.card (failures s.g.trace))
    (hlen : s.workers.length ≤ env.maxthreadcnt) (h : Move env s a s') :
    ∃ q b', (b' = b ∨ Batch.Step env.maxthreadcnt b b') ∧
      Shows vecExceptionList lines q s'.g s'.workers b' := by
  cases h with
  | main _ h =>
    obtain ⟨-, -, hin, hidx, -⟩ := h.late hlate
    have hvoiced : voiced s'.g.trace = voiced s.g.trace ∧
        failures s'.g.trace = failures s.g.trace := by
      obtain htrace | ⟨e, he, htrace⟩ := h.trace
      · rw [htrace]
        exact ⟨rfl, rfl⟩
      · rw [htrace, voiced, failures, total_concat_quiet he, total_concat_quiet he]
        exact ⟨rfl, rfl⟩
    have hws : total (fun w => w.pc.waiting) s'.workers = total (fun w => w.pc.waiting) s.workers ∧
        total (fun w => w.pc.unspoken) s'.workers =
          total (fun w => w.pc.unspoken) s.workers := by
      obtain hws | ⟨k, -, -, -, hws⟩ := h.workers
      · rw [hws]
        exact ⟨rfl, rfl⟩
      · rw [hws]
        simp [WorkerPc.waiting, WorkerPc.unspoken]
    refine ⟨p, b, Or.inl rfl, by rw [hin]; exact hs.stream, by rw [hidx]; exact hs.mCurTextIdx,
      hs.todo, ?_, ?_, ?_, ?_⟩
    · rw [hws.1, hs.held]
    · rw [hws.2, hs.opened]
    · rw [hvoiced.1, hs.done]
    · rw [hvoiced.2, hs.lost]
  | cpu _ h =>
    obtain ⟨-, hin, hidx, htrace, -⟩ := h.frame
    exact ⟨p, b, Or.inl rfl, by rw [hin]; exact hs.stream, by rw [hidx]; exact hs.mCurTextIdx,
      hs.todo, hs.held, hs.opened, by rw [htrace]; exact hs.done, by rw [htrace]; exact hs.lost⟩
  | @worker i n pc g' pc' _ hi h =>
    by_cases hfetch : pc = .fetch ∧ s.g.mTextin.eofbit = false
    · obtain ⟨rfl, heof⟩ := hfetch
      cases h with
      | fetchEof hfree hno => rw [heof] at hno; cases hno
      | fetch hfree heof hget =>
        obtain ⟨b', hstep, hb'⟩ := hs.fetch hi hl.vec heof hget hgave hlen
        exact ⟨p + 1, b', Or.inr hstep, hb'⟩
    · have hflag := hl.flags _ (List.mem_of_getElem? hi)
      have hno : pc = .fetch → s.g.mTextin.eofbit = true := fun hpc => by
        simpa [hpc] using hfetch
      obtain ⟨hin, hidx, -⟩ := h.waiting hflag hno
      exact ⟨p, hs.line hi (h.lineMove hflag hno) hin hidx env.maxthreadcnt⟩

/-- At the launch nothing was taken. -/
theorem Launch.shows {vecExceptionList : List Text} {content : Text} {s : Sys}
    (h : Launch vecExceptionList (.ofContent content) s) :
    Shows vecExceptionList (linesOf content) 0 s.g s.workers
      (.start (jobsOf vecExceptionList (linesOf content))) where
  stream := by
    rw [h.mTextin]
    exact IfStream.at_ofContent content
  mCurTextIdx := by rw [h.mCurTextIdx, Nat.cast_zero, toInt_zero]
  todo := rfl
  held := by rw [h.workers]; rfl
  opened := by rw [h.workers]; rfl
  done := (total_quiet h.quiet).symm
  lost := (total_quiet h.quiet).symm

/-- **What a state of a run shows**: nothing was taken before the first worker is started,
and from then on `Shows` says where every line is. -/
inductive Shown (env : Env) (content : Text) (s : Sys) : Batch (Int × Text) → Prop
  | idle {disk : Text → Text} {acts : List Act} (hrun : run env (.start disk) acts = some s)
      (h : Early env s ∨ Skipped s) :
      Shown env content s (.start (jobsOf env.vecExceptionList (linesOf content)))
  | underway {disk : Text → Text} {acts : List Act} {p : ℕ} {b : Batch (Int × Text)}
      (h : Launched env disk acts s)
      (hs : Shows env.vecExceptionList (linesOf content) p s.g s.workers b) : Shown env content s b

theorem shown_start (env : Env) (content : Text) (disk : Text → Text) :
    Shown env content (.start disk) (.start (jobsOf env.vecExceptionList (linesOf content))) := by
  have hrun : run env (.start disk) [] = some (.start disk) := rfl
  exact .idle hrun (Or.inl (early_start env disk))

/-- Nothing is held, opened, spoken or lost before the first worker is started. -/
theorem Shown.eq {env : Env} {content : Text} {s : Sys} {b : Batch (Int × Text)}
    (h : Shown env content s b) :
    b.held = total (fun w => w.pc.waiting) s.workers ∧
      b.opened = total (fun w => w.pc.unspoken) s.workers ∧
      b.done = voiced s.g.trace ∧ b.lost = failures s.g.trace := by
  cases h with
  | idle _ h =>
    have hnone : s.workers = [] ∧ ∀ e ∈ s.g.trace, e.Quiet :=
      h.elim (fun h => ⟨h.workers, h.quiet⟩) fun h => ⟨h.workers, h.quiet⟩
    rw [hnone.1]
    exact ⟨rfl, rfl, (total_quiet hnone.2).symm, (total_quiet hnone.2).symm⟩
  | underway _ hs => exact ⟨hs.held, hs.opened, hs.done, hs.lost⟩

/-- **Every step of a run is a step of the batch, or none.** -/
theorem simulates_batch {env : Env} {content : Text}
    (hscript : env.script = some (.ofContent content)) :
    Simulates (step env) (Batch.Step env.maxthreadcnt) (Shown env content) := by
  intro s a s' b hb hstep
  cases hb with
  | idle hrun h =>
    have hrun' := runFrom_concat hrun hstep
    obtain h | h := h
    · obtain h' | h' | ⟨script, hscript', hlen, h₀⟩ := h.step (step_move hstep)
      · exact ⟨_, .idle hrun' (Or.inl h'), Or.inl rfl⟩
      · exact ⟨_, .idle hrun' (Or.inr h'), Or.inl rfl⟩
      · obtain rfl := Option.some.inj (hscript'.symm.trans hscript)
        exact ⟨_, .underway (h₀.launched hscript' hlen hrun') h₀.shows, Or.inl rfl⟩
    · exact ⟨_, .idle hrun' (Or.inr (h.step (step_move hstep))), Or.inl rfl⟩
  | underway h hs =>
    have hnext := h.concat hstep
    obtain ⟨pre, post, s₀, script, -, hpre, hscript', -, h₀, hpost⟩ := h
    obtain rfl := Option.some.inj (hscript'.symm.trans hscript)
    obtain ⟨hlate, hl⟩ := ledger_of_run h₀ hpost
    have hgave := (total_gaveUp s.workers).trans (gaveUp_of_run h₀ hpost).symm
    have hlen := workers_length_le (runFrom_append_eq_some.2 ⟨s₀, hpre, hpost⟩)
    obtain ⟨q, b', hb', hs'⟩ := shows_step hs hl hlate hgave hlen (step_move hstep)
    exact ⟨b', .underway hnext hs', hb'⟩

/-- **The program is a batch of jobs.**  Over a readable script a state shows where every line
is: the stream stands at the first line of the batch that nobody has taken, what the workers
have is held or opened, what was given to the engine is done, and what it refused is lost.
Every step of every run leaves what the state shows as it was or takes one step of the batch
that has the lines as its jobs and `maxthreadcnt` workers; so no job is ever out of sight or
twice in it, and there are never more at work than workers left. -/
theorem refines_batch (env : Env) (content : Text)
    (hscript : env.script = some (.ofContent content)) :
    Simulates (step env) (Batch.Step env.maxthreadcnt) (Shown env content) ∧
      ∀ disk acts s, run env (.start disk) acts = some s →
        ∃ b, Shown env content s b ∧ Relation.ReflTransGen (Batch.Step env.maxthreadcnt)
            (.start (jobsOf env.vecExceptionList (linesOf content))) b ∧
          b.held = total (fun w => w.pc.waiting) s.workers ∧
          b.opened = total (fun w => w.pc.unspoken) s.workers ∧
          b.done = voiced s.g.trace ∧ b.lost = failures s.g.trace ∧
          b.jobs = (jobsOf env.vecExceptionList (linesOf content)).reduceOption ∧
          b.busy ≤ env.maxthreadcnt := by
  refine ⟨simulates_batch hscript, fun disk acts s hrun => ?_⟩
  obtain ⟨b, hb, hreach⟩ := (simulates_batch hscript).run (shown_start env content disk) hrun
  obtain ⟨hheld, hopened, hdone, hlost⟩ := hb.eq
  refine ⟨b, hb, hreach, hheld, hopened, hdone, hlost, ?_, ?_⟩
  · rw [Batch.conserve_of_reaches hreach]
    simp [Batch.jobs, Batch.start]
  · exact Batch.capacity_of_reaches hreach (Nat.zero_le _)

/-- The second line overtakes the first: one is held, the other opened. -/
theorem refines_batch_overtaking :
    ∃ (s : Sys) (b : Batch (Int × Text)),
      run (twoWorkers "a\nb".toList) (.start fun _ => []) overtaking = some s ∧
      Relation.ReflTransGen (Batch.Step 2) (.start [some (0, ['a']), some (1, ['b'])]) b ∧
      b.held = {(0, ['a'])} ∧ b.opened = {(1, ['b'])} := by
  have hcheck : (run (twoWorkers "a\nb".toList) (.start fun _ => []) overtaking).any (fun s =>
      total (fun w => w.pc.waiting) s.workers = {(0, ['a'])} &&
        total (fun w => w.pc.unspoken) s.workers = {(1, ['b'])}) = true := by decide +kernel
  obtain ⟨s, hrun, hs⟩ := (Option.any_eq_true _ _).1 hcheck
  simp only [Bool.and_eq_true, decide_eq_true_eq] at hs
  obtain ⟨b, -, hreach, hheld, hopened, -⟩ :=
    (refines_batch (twoWorkers "a\nb".toList) _ rfl).2 _ overtaking s hrun
  have hjobs : jobsOf (twoWorkers "a\nb".toList).vecExceptionList (linesOf "a\nb".toList) =
      [some (0, ['a']), some (1, ['b'])] := by decide
  rw [hjobs] at hreach
  exact ⟨s, b, hrun, hreach, hheld.trans hs.1, hopened.trans hs.2⟩

end Run
