import OssTest.Lib.Endless
import OssTest.Run.ExactlyOnce
import OssTest.Run.Mutex

/-!
# The line loops

`readFileLine` and the workers read on until `eof()`, whatever `getline` says.  A stream
that fails never gets there.

* `Move.paid` — over a sound stream every round of a worker's loop is paid for by the
  line it takes; `rounds_finite` is what follows for a schedule.
* `spins` — over a stream that fails a worker goes round for ever.
* `leaves` — over a sound stream a worker that is scheduled again and again leaves its
  loop, if the engine comes to an end with every line.
* `loops_end_iff` — when the line loops end.
-/

namespace Run

open Cpp UtilBox Exceptions EngineLog Engine Steps

/-- The state of the program after `t` scheduled steps. -/
abbrev history (env : Env) (disk : Text → Text) (sched : ℕ → Act) (t : ℕ) : Sys :=
  stateAt (step env) (.start disk) sched t

/-- One scheduled step that takes effect. -/
theorem history_succ {env : Env} {disk : Text → Text} {sched : ℕ → Act} {t : ℕ} {s' : Sys}
    (h : step env (history env disk sched t) (sched t) = some s') :
    history env disk sched (t + 1) = s' :=
  stateAt_succ_of_step h

/-- Worker `i` enters the body of its loop. -/
def Iterates (i : ℕ) (s s' : Sys) : Prop :=
  ∃ n, s.workers[i]? = some ⟨n, .loop⟩ ∧ s'.workers[i]? = some ⟨n, .fetch⟩

/-- Worker `i` waits in its `do` loop for the engine to come to an end. -/
def Speaking (i : ℕ) (s : Sys) : Prop :=
  ∃ n k t buf flag, s.workers[i]? = some ⟨n, .synth k t buf flag⟩

/-- No worker that is scheduled again and again stays in its `do` loop. -/
def EngineTerminates (env : Env) (disk : Text → Text) (sched : ℕ → Act) : Prop :=
  ∀ i T, (∀ t, T ≤ t → Speaking i (history env disk sched t)) →
    ∃ T', ∀ t, T' ≤ t → (sched t).tid ≠ .worker i

/-! ## A round is paid for by a line -/

/-- Whether the worker has a round before it that it has not entered. -/
def WorkerPc.ahead : WorkerPc → ℕ
  | .fetch | .returned _ => 0
  | _ => 1

/-- Whether worker `i` has a round before it; one that is not there yet has. -/
def aheadOf (i : ℕ) (ws : List Worker) : ℕ := ws[i]?.elim 1 fun w => w.pc.ahead

/-- What pays for the rounds of worker `i`. -/
def Sys.rounds (i : ℕ) (s : Sys) : ℕ := 2 * s.g.mTextin.left + aheadOf i s.workers

/-- The workers have a stream whose end can be reached. -/
def Reading (s : Sys) : Prop := s.main.Late ∧ s.g.mTextin.Sound

theorem WorkerPc.ahead_le (pc : WorkerPc) : pc.ahead ≤ 1 := by
  unfold ahead
  split <;> decide

section Moves

variable {env : Env} {i n : ℕ} {o : Outcome} {g g' : Shared} {pc pc' : WorkerPc}

/-- A worker leaves the stream alone, and then puts no round before it, or it takes a
line. -/
theorem WorkerMove.stream (h : WorkerMove env i n o g pc g' pc') :
    (g'.mTextin = g.mTextin ∧ pc'.ahead ≤ pc.ahead) ∨
      (pc = .fetch ∧ g.mTextin.eofbit = false ∧ g'.mTextin = (g.mTextin.getline []).2) := by
  cases h with
  | fetch hfree heof hget => exact Or.inr ⟨rfl, heof, by rw [hget]; rfl⟩
  | fetchEof | loopEof | notOpen | initFails => exact Or.inl ⟨rfl, Nat.zero_le _⟩
  | _ => exact Or.inl ⟨rfl, WorkerPc.ahead_le _⟩

/-- **A worker that takes no line enters no second round.** -/
theorem WorkerMove.paid (h : WorkerMove env i n o g pc g' pc') (hsound : g.mTextin.Sound) :
    g'.mTextin.Sound ∧ g'.mTextin.left ≤ g.mTextin.left ∧
      2 * g'.mTextin.left + pc'.ahead ≤ 2 * g.mTextin.left + pc.ahead := by
  obtain ⟨hin, hahead⟩ | ⟨rfl, heof, hin⟩ := h.stream
  · rw [hin]
    exact ⟨hsound, le_refl _, Nat.add_le_add_left hahead _⟩
  · obtain ⟨hsound', hleft⟩ := g.mTextin.getline_sound hsound heof []
    have hahead := pc'.ahead_le
    rw [hin]
    refine ⟨hsound', hleft.le, ?_⟩
    omega

end Moves

section Paid

variable {env : Env} {s s' : Sys} {a : Act} (i : ℕ)

theorem aheadOf_append (ws : List Worker) (k : ℕ) :
    aheadOf i (ws ++ [⟨k, .start⟩]) = aheadOf i ws := by
  unfold aheadOf
  rcases Nat.lt_trichotomy i ws.length with hlt | rfl | hgt
  · rw [List.getElem?_append_left hlt]
  · simp [WorkerPc.ahead]
  · rw [List.getElem?_eq_none (by simp; omega), List.getElem?_eq_none (by omega)]

theorem aheadOf_set {ws : List Worker} {j n : ℕ} {pc : WorkerPc} (hj : ws[j]? = some ⟨n, pc⟩)
    (pc' : WorkerPc) :
    aheadOf i (ws.set j ⟨n, pc'⟩) = if i = j then pc'.ahead else aheadOf i ws := by
  unfold aheadOf
  split
  · rename_i heq
    subst heq
    rw [List.getElem?_set_self (List.getElem?_eq_some_iff.1 hj).1]
    rfl
  · rename_i hne
    rw [List.getElem?_set_ne (Ne.symm hne)]

/-- **Every round is paid for.** -/
theorem Move.paid (h : Move env s a s') (hs : Reading s) :
    Reading s' ∧ s'.g.mTextin.left ≤ s.g.mTextin.left ∧ s'.rounds i ≤ s.rounds i := by
  obtain ⟨hlate, hsound⟩ := hs
  cases h with
  | main _ h =>
    obtain ⟨hlate', -, hin, -⟩ := h.late hlate
    have hahead : aheadOf i s'.workers = aheadOf i s.workers := by
      obtain hws | ⟨k, -, -, -, hws⟩ := h.workers
      · rw [hws]
      · rw [hws, aheadOf_append]
    rw [Sys.rounds, Sys.rounds, hin]
    exact ⟨⟨hlate', hin ▸ hsound⟩, le_refl _, Nat.add_le_add_left (le_of_eq hahead) _⟩
  | cpu _ h =>
    obtain ⟨-, hin, -⟩ := h.frame
    rw [Sys.rounds, Sys.rounds, hin]
    exact ⟨⟨hlate, hin ▸ hsound⟩, le_refl _, le_refl _⟩
  | @worker j n pc g' pc' _ hj h =>
    obtain ⟨hsound', hleft, hpaid⟩ := h.paid hsound
    refine ⟨⟨hlate, hsound'⟩, hleft, ?_⟩
    rw [Sys.rounds, Sys.rounds]
    dsimp only
    rw [aheadOf_set i hj pc']
    split
    · rename_i heq
      subst heq
      have hnow : aheadOf i s.workers = pc.ahead := by rw [aheadOf, hj]; rfl
      rw [hnow]
      exact hpaid
    · omega

/-- A round takes what was before the worker. -/
theorem Iterates.rounds_lt {i : ℕ} {s s' : Sys} (h : Iterates i s s')
    (hleft : s'.g.mTextin.left ≤ s.g.mTextin.left) : s'.rounds i < s.rounds i := by
  obtain ⟨n, hloop, hfetch⟩ := h
  have hnow : aheadOf i s.workers = 1 := by rw [aheadOf, hloop]; rfl
  have hnext : aheadOf i s'.workers = 0 := by rw [aheadOf, hfetch]; rfl
  rw [Sys.rounds, Sys.rounds, hnow, hnext]
  omega

theorem not_iterates_self (i : ℕ) (s : Sys) : ¬ Iterates i s s := by
  rintro ⟨n, hloop, hfetch⟩
  rw [hloop] at hfetch
  cases hfetch

end Paid

section Schedule

variable {env : Env} (disk : Text → Text) (sched : ℕ → Act) {script : IfStream}

/-- Either the workers come to read a stream whose end can be reached, or there are none. -/
theorem reading_or_idle (hscript : env.script = some script)
    (h : script.Sound ∨ toInt script.tellgEnd ≤ 0) :
    (∃ T, Reading (history env disk sched T)) ∨
      ∀ t, (history env disk sched t).workers = [] := by
  by_cases hidle : ∀ t, (history env disk sched t).workers = []
  · exact Or.inr hidle
  · obtain ⟨T, hT⟩ := not_forall.1 hidle
    obtain ⟨acts, hrun, -⟩ := exists_run_stateAt (step env) (.start disk) sched T
    obtain hs | hs | ⟨-, post, s₀, script', -, -, hscript', hlen, h₀, hpost⟩ := start_cases hrun
    · exact absurd hs.workers hT
    · exact absurd hs.workers hT
    · obtain rfl : script' = script := Option.some.inj (hscript'.symm.trans hscript)
      have hreading : Reading s₀ := by
        refine ⟨by rw [h₀.main]; trivial, ?_⟩
        rw [h₀.mTextin]
        exact h.resolve_right (not_le.2 hlen)
      refine Or.inl ⟨T, runFrom_invariant ?_ hpost hreading⟩
      exact fun _ _ _ hr hmove => ((step_move hmove).paid 0 hr).1

/-- **A worker enters its loop body finitely often**, under every schedule. -/
theorem rounds_finite (hscript : env.script = some script)
    (h : script.Sound ∨ toInt script.tellgEnd ≤ 0) (i : ℕ) :
    ∃ N, ∀ t, N ≤ t → ¬ Iterates i (history env disk sched t) (history env disk sched (t + 1)) := by
  obtain ⟨T, hT⟩ | hidle := reading_or_idle disk sched hscript h
  · refine finitely_often (Sys.rounds i) ?_ (not_iterates_self i) hT
    intro s a s' hs hmove
    obtain ⟨hs', hleft, hrounds⟩ := (step_move hmove).paid i hs
    exact ⟨hs', hrounds, fun hiter => hiter.rounds_lt hleft⟩
  · refine ⟨0, ?_⟩
    rintro t - ⟨n, hloop, -⟩
    rw [hidle t] at hloop
    cases hloop

end Schedule

/-! ## Leaving the loop -/

/-- How far a worker is from the end of the round it is in. -/
def WorkerPc.rank : WorkerPc → ℕ
  | .start => 13
  | .opened => 12
  | .fetch => 11
  | .trim _ _ => 10
  | .sprintf _ _ => 9
  | .log _ _ => 8
  | .init _ _ => 7
  | .malloc _ _ _ => 6
  | .synth _ _ _ _ => 5
  | .sprintfErr _ _ => 4
  | .logErr _ => 3
  | .free _ => 2
  | .loop => 1
  | .returned _ => 0

theorem WorkerPc.rank_eq_five {pc : WorkerPc} (h : pc.rank = 5) :
    ∃ k t buf flag, pc = .synth k t buf flag := by
  cases pc with
  | synth k t buf flag => exact ⟨k, t, buf, flag, rfl⟩
  | _ => cases h

section Progress

variable {env : Env} {i n : ℕ} {o : Outcome} {g g' : Shared} {pc pc' : WorkerPc}

/-- **A worker gets on with its round**, unless it begins the next one, has to call the
engine again, or ends the process. -/
theorem WorkerMove.progress (h : WorkerMove env i n o g pc g' pc') :
    pc'.rank < pc.rank ∨ (pc = .loop ∧ pc' = .fetch) ∨ (pc.rank = 5 ∧ pc'.rank = 5) ∨
      g'.terminated = true := by
  cases h with
  | loop _ => exact Or.inr (Or.inl ⟨rfl, rfl⟩)
  | synthMore _ _ => exact Or.inr (Or.inr (Or.inl ⟨rfl, rfl⟩))
  | trimThrows _ | initNull _ | synthNull _ => exact Or.inr (Or.inr (Or.inr rfl))
  | fetch hfree heof hget =>
    refine Or.inl ?_
    split <;> simp [WorkerPc.rank]
  | _ => exact Or.inl (by simp [WorkerPc.rank])

/-- A worker that has not returned can go on while the mutex is free. -/
theorem workerStep_enabled (env : Env) (i : ℕ) (o : Outcome) {g : Shared} {w : Worker}
    (hfree : g.resultMutex = none) (hret : ∀ ret, w.pc ≠ .returned ret) :
    ∃ r, workerStep env i o g w = some r := by
  obtain ⟨n, pc⟩ := w
  cases pc with
  | start | fetch => simp [workerStep, hfree]
  | log _ _ | logErr _ => simp [workerStep, Shared.makeLogFile, hfree]
  | init _ _ | synth _ _ _ _ =>
    simp only [workerStep]
    split <;> exact ⟨_, rfl⟩
  | trim k l =>
    simp only [workerStep]
    cases trim l with
    | error e => exact ⟨_, rfl⟩
    | ok t =>
      rw [afterTrim, replaceText_cr]
      split <;> exact ⟨_, rfl⟩
  | returned ret => exact absurd rfl (hret ret)
  | _ => exact ⟨_, rfl⟩

end Progress

/-- A scheduled worker that has not returned takes its step. -/
theorem step_enabled {env : Env} {s : Sys} {a : Act} {i : ℕ} {w : Worker}
    (hlive : s.g.terminated = false) (hfree : s.g.resultMutex = none) (htid : a.tid = .worker i)
    (hw : s.workers[i]? = some w) (hret : ∀ ret, w.pc ≠ .returned ret) :
    ∃ pc' s', step env s a = some s' ∧ s'.workers[i]? = some ⟨w.threadNum, pc'⟩ ∧
      WorkerMove env i w.threadNum a.o s.g w.pc s'.g pc' := by
  obtain ⟨⟨g', pc'⟩, hstep⟩ := workerStep_enabled env i a.o hfree hret
  have hlt : i < s.workers.length := (List.getElem?_eq_some_iff.1 hw).1
  refine ⟨pc', { s with g := g', workers := s.workers.set i ⟨w.threadNum, pc'⟩ }, ?_,
    List.getElem?_set_self hlt, workerStep_move hstep⟩
  simp only [step, hlive, htid, hw, hstep, Option.map_some]
  rfl

/-- How far worker `i` is from the end of its round. -/
def Sys.rankOf (i : ℕ) (s : Sys) : ℕ := s.workers[i]?.elim 0 fun w => w.pc.rank

theorem rankOf_eq {s : Sys} {i : ℕ} {w : Worker} (hw : s.workers[i]? = some w) :
    s.rankOf i = w.pc.rank := by
  rw [Sys.rankOf, hw]
  rfl

/-- A step of worker `i` that begins no round and does not end the process. -/
theorem WorkerMove.rankOf {env : Env} {s s' : Sys} {o : Outcome} {i : ℕ} {w : Worker}
    {pc' : WorkerPc} (hw : s.workers[i]? = some w)
    (hw' : s'.workers[i]? = some ⟨w.threadNum, pc'⟩)
    (h : WorkerMove env i w.threadNum o s.g w.pc s'.g pc') (hround : ¬ Iterates i s s')
    (hlive : s'.g.terminated = false) :
    s'.rankOf i < s.rankOf i ∨ (s.rankOf i = 5 ∧ s'.rankOf i = 5) := by
  rw [rankOf_eq hw, rankOf_eq hw']
  obtain hlt | ⟨hloop, hfetch⟩ | hfive | hterm := h.progress
  · exact Or.inl hlt
  · refine absurd ⟨w.threadNum, ?_, ?_⟩ hround
    · rw [hw, ← hloop]
    · rw [hw', hfetch]
  · exact Or.inr hfive
  · rw [hlive] at hterm
    cases hterm

/-- A worker of this rank waits for the engine. -/
theorem speaking_of_rankOf {s : Sys} {i : ℕ} (h : s.rankOf i = 5) : Speaking i s := by
  cases hw : s.workers[i]? with
  | none =>
    rw [Sys.rankOf, hw] at h
    cases h
  | some w =>
    rw [rankOf_eq hw] at h
    obtain ⟨k, t, buf, flag, hpc⟩ := WorkerPc.rank_eq_five h
    exact ⟨w.threadNum, k, t, buf, flag, by rw [hw, ← hpc]⟩

section Leaving

variable {env : Env} {disk : Text → Text} {sched : ℕ → Act} {i t : ℕ} {w : Worker}

/-- A worker stays in the list of workers. -/
theorem worker_stays {t₀ : ℕ} (hw : (history env disk sched t₀).workers[i]? = some w)
    (ht : t₀ ≤ t) : ∃ w', (history env disk sched t).workers[i]? = some w' := by
  have hstep : ∀ (s : Sys) a s', (∃ w, s.workers[i]? = some w) → step env s a = some s' →
      ∃ w, s'.workers[i]? = some w := by
    rintro s a s' ⟨w, hw⟩ hmove
    obtain hsame | ⟨pc', hw', -⟩ := (step_move hmove).worker_cases hw
    · exact ⟨w, hsame⟩
    · exact ⟨_, hw'⟩
  exact stateAt_invariant hstep ⟨w, hw⟩ ht

/-- While a worker begins no round, its rank does not grow. -/
theorem rankOf_succ_le (hw : (history env disk sched t).workers[i]? = some w)
    (hround : ¬ Iterates i (history env disk sched t) (history env disk sched (t + 1)))
    (hlive : (history env disk sched (t + 1)).g.terminated = false) :
    (history env disk sched (t + 1)).rankOf i ≤ (history env disk sched t).rankOf i := by
  rcases stateAt_succ (step env) (.start disk) sched t with hmove | ⟨-, hstay⟩
  · obtain hsame | ⟨pc', hw', h⟩ := (step_move hmove).worker_cases hw
    · exact le_of_eq (by rw [rankOf_eq hw, rankOf_eq hsame])
    · obtain hlt | ⟨hfive, hfive'⟩ := h.rankOf hw hw' hround hlive
      · exact hlt.le
      · exact le_of_eq (hfive'.trans hfive.symm)
  · exact le_of_eq (congrArg (Sys.rankOf i) hstay)

/-- A worker that takes a step and gets no further waits for the engine. -/
theorem rankOf_of_scheduled (hw : (history env disk sched t).workers[i]? = some w)
    (hround : ¬ Iterates i (history env disk sched t) (history env disk sched (t + 1)))
    (hlive : ∀ t, (history env disk sched t).g.terminated = false)
    (hfree : (history env disk sched t).g.resultMutex = none)
    (htid : (sched t).tid = .worker i) (hret : ∀ ret, w.pc ≠ .returned ret)
    (hsame : (history env disk sched (t + 1)).rankOf i = (history env disk sched t).rankOf i) :
    (history env disk sched t).rankOf i = 5 := by
  obtain ⟨pc', s', hstep, hw', h⟩ := step_enabled (hlive t) hfree htid hw hret
  obtain rfl := history_succ hstep
  obtain hlt | ⟨hfive, -⟩ := h.rankOf hw hw' hround (hlive (t + 1))
  · exact absurd hsame hlt.ne
  · exact hfive

/-- **A worker leaves its loop**, if it enters the body finitely often, is scheduled again
and again, and is not kept waiting by the engine or at the mutex. -/
theorem leaves {N t₀ : ℕ} {w₀ : Worker}
    (hrounds : ∀ t, N ≤ t →
      ¬ Iterates i (history env disk sched t) (history env disk sched (t + 1)))
    (hengine : EngineTerminates env disk sched)
    (hfree : ∀ t, (history env disk sched t).g.resultMutex = none)
    (hw₀ : (history env disk sched t₀).workers[i]? = some w₀)
    (hfair : ∀ T, ∃ t, T ≤ t ∧ (sched t).tid = .worker i) :
    ∃ t, (history env disk sched t).g.terminated = true ∨
      ∃ n ret, (history env disk sched t).workers[i]? = some ⟨n, .returned ret⟩ := by
  by_contra hno
  have hlive : ∀ t, (history env disk sched t).g.terminated = false := fun t =>
    Bool.eq_false_of_not_eq_true fun hterm => hno ⟨t, Or.inl hterm⟩
  -- from some time on the worker gets no further
  have hle : ∀ t, max N t₀ ≤ t →
      (history env disk sched (t + 1)).rankOf i ≤ (history env disk sched t).rankOf i := by
    intro t ht
    obtain ⟨w, hw⟩ := worker_stays hw₀ (le_trans (le_max_right _ _) ht)
    exact rankOf_succ_le hw (hrounds t (le_trans (le_max_left _ _) ht)) (hlive (t + 1))
  obtain ⟨M, hM, hconst⟩ :=
    eventually_constant (f := fun t => (history env disk sched t).rankOf i) hle
  -- so it is waiting for the engine
  have hspeaking : ∀ t, M ≤ t → Speaking i (history env disk sched t) := by
    intro t ht
    obtain ⟨u, hu, htid⟩ := hfair t
    have hMu : M ≤ u := le_trans ht hu
    have hbound : max N t₀ ≤ u := le_trans hM hMu
    obtain ⟨w, hw⟩ := worker_stays hw₀ (le_trans (le_max_right _ _) hbound)
    have hret : ∀ ret, w.pc ≠ .returned ret := fun ret hpc =>
      hno ⟨u, Or.inr ⟨w.threadNum, ret, by rw [hw, ← hpc]⟩⟩
    have hsame : (history env disk sched (u + 1)).rankOf i = (history env disk sched u).rankOf i :=
      (hconst (u + 1) (le_trans hMu (Nat.le_succ u))).trans (hconst u hMu).symm
    have hfive : (history env disk sched u).rankOf i = 5 :=
      rankOf_of_scheduled hw (hrounds u (le_trans (le_max_left _ _) hbound)) hlive (hfree u) htid
        hret hsame
    exact speaking_of_rankOf (((hconst t ht).trans (hconst u hMu).symm).trans hfive)
  obtain ⟨T', hT'⟩ := hengine i M hspeaking
  obtain ⟨t, ht, htid⟩ := hfair T'
  exact hT' t ht htid

end Leaving

/-! ## Going round for ever -/

/-- One worker goes round over a stream that does not end: every line it gets is taken
for an exception. -/
structure Spinning (s : Sys) (pc : WorkerPc) : Prop where
  workers : s.workers = [⟨0, pc⟩]
  vec : s.g.mVecExceptionList = [[]]
  isOpen : s.g.mTextin.isOpen = true
  doomed : s.g.mTextin.Doomed
  free : s.g.resultMutex = none
  live : s.g.terminated = false

section Spin

variable (env : Env) (o : Outcome) {s : Sys}

/-- The step of the worker. -/
theorem Spinning.step {pc pc' : WorkerPc} {g' : Shared} (h : Spinning s pc)
    (hstep : workerStep env 0 o s.g ⟨0, pc⟩ = some (g', pc')) :
    Run.step env s ⟨.worker 0, o⟩ = some { s with g := g', workers := [⟨0, pc'⟩] } := by
  simp only [Run.step, h.live, h.workers, List.getElem?_cons_zero, hstep, Option.map_some,
    List.set_cons_zero]
  rfl

theorem Spinning.start (h : Spinning s .start) :
    ∃ s', Run.step env s ⟨.worker 0, o⟩ = some s' ∧ Spinning s' .opened := by
  have hstep : workerStep env 0 o s.g ⟨0, .start⟩ =
      some ({ s.g with mThreadCnt := s.g.mThreadCnt + 1 }, .opened) := by
    simp [workerStep, h.free]
  exact ⟨_, h.step env o hstep, rfl, h.vec, h.isOpen, h.doomed, h.free, h.live⟩

theorem Spinning.opened (h : Spinning s .opened) :
    ∃ s', Run.step env s ⟨.worker 0, o⟩ = some s' ∧ Spinning s' .loop := by
  have hstep : workerStep env 0 o s.g ⟨0, .opened⟩ = some (s.g, .loop) := by
    simp [workerStep, h.isOpen]
  exact ⟨_, h.step env o hstep, rfl, h.vec, h.isOpen, h.doomed, h.free, h.live⟩

theorem Spinning.loop (h : Spinning s .loop) :
    ∃ s', Run.step env s ⟨.worker 0, o⟩ = some s' ∧ Spinning s' .fetch := by
  have hstep : workerStep env 0 o s.g ⟨0, .loop⟩ = some (s.g, .fetch) := by
    simp [workerStep, h.doomed.1]
  exact ⟨_, h.step env o hstep, rfl, h.vec, h.isOpen, h.doomed, h.free, h.live⟩

theorem Spinning.fetch (h : Spinning s .fetch) :
    ∃ s', Run.step env s ⟨.worker 0, o⟩ = some s' ∧ Spinning s' .loop := by
  have hexc : ∀ l, isExceptionalText s.g.mVecExceptionList l = true := by
    intro l
    rw [h.vec]
    exact isExceptionalText_of_nil_mem List.mem_cons_self l
  have hstep : workerStep env 0 o s.g ⟨0, .fetch⟩ =
      some (s.g.advance (s.g.mTextin.getline []).2, .loop) := by
    simp [workerStep, fetchLine, h.free, h.doomed.1, hexc]
  exact ⟨_, h.step env o hstep, rfl, h.vec, (s.g.mTextin.getline_isOpen []).trans h.isOpen,
    s.g.mTextin.getline_doomed h.doomed [], h.free, h.live⟩

end Spin

/-- One worker, a script, and an exception file that is empty. -/
def spinEnv (script : IfStream) : Env :=
  { oneWorker [] with exceptionFile := some (.ofContent []), script := some script }

/-- `main` starts the worker, which then is the only thread to run. -/
def spinSched (t : ℕ) : Act := ⟨if t < 7 then .main else .worker 0, smooth 0⟩

/-- The program under that schedule. -/
def spin (script : IfStream) (t : ℕ) : Sys := history (spinEnv script) (fun _ => []) spinSched t

theorem spin_succ {script : IfStream} {t : ℕ} {s' : Sys}
    (h : step (spinEnv script) (spin script t) (spinSched t) = some s') :
    spin script (t + 1) = s' :=
  history_succ h

/-- Once the worker has been started, every step is its own. -/
theorem spin_worker {script : IfStream} {t : ℕ} (ht : 7 ≤ t) {s' : Sys}
    (h : step (spinEnv script) (spin script t) ⟨.worker 0, smooth 0⟩ = some s') :
    spin script (t + 1) = s' := by
  have hact : spinSched t = ⟨.worker 0, smooth 0⟩ := by
    rw [spinSched, if_neg (not_lt.2 ht)]
  exact spin_succ (hact ▸ h)

section Schedule

variable {content : Text} {failAt : Option ℕ}

/-- The worker is started. -/
theorem spin_start (hdoomed : (IfStream.opened content failAt).Doomed)
    (hlen : 0 < toInt (IfStream.opened content failAt).tellgEnd) :
    Spinning (spin (.opened content failAt) 7) .start := by
  obtain ⟨g, hg, hin, hvec, hfree, hlive, hload⟩ : ∃ g : Shared,
      spin (.opened content failAt) 5 =
        ⟨.loadTTS (toInt (IfStream.opened content failAt).tellgEnd), [], .unborn, g⟩ ∧
      g.mTextin = .opened content failAt ∧ g.mVecExceptionList = [[]] ∧ g.resultMutex = none ∧
      g.terminated = false ∧ g.stSpec.func .loadTTS = true :=
    ⟨_, rfl, rfl, rfl, rfl, rfl, rfl⟩
  have hloaded : spin (.opened content failAt) 6 =
      ⟨.spawn 0, [], .unborn, g.emit (.loadTTS true 0)⟩ := by
    refine spin_succ ?_
    rw [hg]
    simp [step, mainStep, spinSched, smooth, hlive, hload, hlen, Sys.goto]
  have hstarted : spin (.opened content failAt) 7 =
      ⟨.spawn 1, [⟨0, .start⟩], .unborn, g.emit (.loadTTS true 0)⟩ := by
    refine spin_succ ?_
    have hone : 0 < (spinEnv (.opened content failAt)).maxthreadcnt := (maxthreadcnt_bounds _).1
    have hlive' : (g.emit (.loadTTS true 0)).terminated = false := hlive
    rw [hloaded]
    simp [step, mainStep, spinSched, hlive', hone]
  have hin' : (g.emit (.loadTTS true 0)).mTextin = .opened content failAt := hin
  rw [hstarted]
  exact ⟨rfl, hvec, by rw [hin']; rfl, by rw [hin']; exact hdoomed, hfree, hlive⟩

/-- The worker reaches its loop. -/
theorem spin_loop (hdoomed : (IfStream.opened content failAt).Doomed)
    (hlen : 0 < toInt (IfStream.opened content failAt).tellgEnd) :
    Spinning (spin (.opened content failAt) 9) .loop := by
  obtain ⟨s', hstep, hopened⟩ :=
    (spin_start hdoomed hlen).start (spinEnv (.opened content failAt)) (smooth 0)
  obtain rfl := spin_worker (by omega) hstep
  obtain ⟨s', hstep', hloop⟩ :=
    hopened.opened (spinEnv (.opened content failAt)) (smooth 0)
  obtain rfl := spin_worker (by omega) hstep'
  exact hloop

/-- **The worker goes round for ever.** -/
theorem spins (hdoomed : (IfStream.opened content failAt).Doomed)
    (hlen : 0 < toInt (IfStream.opened content failAt).tellgEnd) (k : ℕ) :
    Spinning (spin (.opened content failAt) (2 * k + 9)) .loop ∧
      Spinning (spin (.opened content failAt) (2 * k + 10)) .fetch := by
  have hround : ∀ t, 7 ≤ t → Spinning (spin (.opened content failAt) t) .loop →
      Spinning (spin (.opened content failAt) (t + 1)) .fetch ∧
        Spinning (spin (.opened content failAt) (t + 2)) .loop := by
    intro t ht hloop
    obtain ⟨s', hstep, hfetch⟩ :=
      hloop.loop (spinEnv (.opened content failAt)) (smooth 0)
    obtain rfl := spin_worker ht hstep
    obtain ⟨s', hstep', hloop'⟩ :=
      hfetch.fetch (spinEnv (.opened content failAt)) (smooth 0)
    obtain rfl := spin_worker (by omega) hstep'
    exact ⟨hfetch, hloop'⟩
  have hloop : Spinning (spin (.opened content failAt) (2 * k + 9)) .loop := by
    induction k with
    | zero => exact spin_loop hdoomed hlen
    | succ k ih => exact (hround _ (by omega) ih).2
  exact ⟨hloop, (hround _ (by omega) hloop).1⟩

end Schedule

/-! ## When the line loops end -/

/-- The engine is not even called under that schedule. -/
theorem engineTerminates_spin {content : Text} {failAt : Option ℕ}
    (hdoomed : (IfStream.opened content failAt).Doomed)
    (hlen : 0 < toInt (IfStream.opened content failAt).tellgEnd) :
    EngineTerminates (spinEnv (.opened content failAt)) (fun _ => []) spinSched := by
  intro i T hspeaking
  obtain ⟨n, k, t, buf, flag, hsynth⟩ := hspeaking (2 * T + 9) (by omega)
  change (spin (.opened content failAt) (2 * T + 9)).workers[i]? = _ at hsynth
  rw [(spins hdoomed hlen T).1.workers] at hsynth
  cases i with
  | zero => cases hsynth
  | succ i => cases hsynth

/-- **When the line loops end.**  Over a stream with this content, reading which may fail
at some point, `readFileLine` returns exactly when the end of the file comes before that
point.  The workers enter the body of their loop finitely often, under every schedule with
an engine that comes to an end, exactly when it does, or when `main` starts no worker
because it takes the script for empty.  And over a stream that can be read to its end every
worker that is scheduled again and again leaves its loop, unless the process ends, as long
as no `fopen` of the log fails. -/
theorem loops_end_iff (content : Text) (failAt : Option ℕ) :
    ((IfStream.opened content failAt).Readable → ∀ listLine, ∃ lines,
      readFileLine (some (.opened content failAt)) listLine = some (true, lines)) ∧
    (¬ (IfStream.opened content failAt).Readable → ∀ n listLine,
      readLoop n (.opened content failAt) listLine = none) ∧
    ((∀ env disk sched, env.script = some (.opened content failAt) →
        EngineTerminates env disk sched → ∀ i, ∃ N, ∀ t, N ≤ t →
          ¬ Iterates i (history env disk sched t) (history env disk sched (t + 1))) ↔
      (IfStream.opened content failAt).Readable ∨
        toInt (IfStream.opened content failAt).tellgEnd ≤ 0) ∧
    ((IfStream.opened content failAt).Readable → ∀ env disk sched i t₀ w,
      env.script = some (.opened content failAt) → EngineTerminates env disk sched →
      (∀ t, (sched t).o.os.fopenOk = true) →
      (history env disk sched t₀).workers[i]? = some w →
      (∀ T, ∃ t, T ≤ t ∧ (sched t).tid = .worker i) →
      ∃ t, (history env disk sched t).g.terminated = true ∨
        ∃ n ret, (history env disk sched t).workers[i]? = some ⟨n, .returned ret⟩) := by
  refine ⟨?_, ?_, ⟨?_, ?_⟩, ?_⟩
  · intro hread listLine
    obtain ⟨lines, hlines⟩ := readLoop_sound (IfStream.sound_opened hread)
      (n := content.length + 2) (Nat.lt_succ_self _) listLine
    refine ⟨lines, ?_⟩
    rw [readFileLine]
    show (readLoop (content.length + 2) _ _).map _ = _
    rw [hlines, Option.map_some]
  · exact fun hfail n listLine => readLoop_doomed (IfStream.doomed_opened hfail) n listLine
  · intro hend
    by_contra hno
    obtain ⟨hfail, hlen⟩ := not_or.1 hno
    have hdoomed := IfStream.doomed_opened hfail
    obtain ⟨N, hN⟩ := hend _ (fun _ => []) spinSched rfl
      (engineTerminates_spin hdoomed (not_le.1 hlen)) 0
    obtain ⟨hloop, hfetch⟩ := spins hdoomed (not_le.1 hlen) N
    refine hN (2 * N + 9) (by omega) ⟨0, ?_, ?_⟩
    · show (spin _ (2 * N + 9)).workers[0]? = _
      rw [hloop.workers, List.getElem?_cons_zero]
    · show (spin _ (2 * N + 10)).workers[0]? = _
      rw [hfetch.workers, List.getElem?_cons_zero]
  · intro h env disk sched hscript _ i
    exact rounds_finite disk sched hscript (h.imp_left IfStream.sound_opened) i
  · intro hread env disk sched i t₀ w hscript hengine hfopen hw hfair
    obtain ⟨N, hN⟩ := rounds_finite disk sched hscript
      (Or.inl (IfStream.sound_opened hread)) i
    refine leaves hN hengine ?_ hw hfair
    intro t
    obtain ⟨acts, hrun, hacts⟩ := exists_run_stateAt (step env) (.start disk) sched t
    refine resultMutex_free_of_run hrun ?_
    intro a ha
    obtain ⟨u, rfl⟩ := hacts a ha
    exact hfopen u

/-- A directory opens, and reading it fails at once. -/
theorem directory_is_read_for_ever :
    ¬ (IfStream.opened [] (some 0)).Readable ∧
      ∀ n, readLoop n (.opened [] (some 0)) [] = none := by
  have hfail : ¬ (IfStream.opened [] (some 0)).Readable :=
    IfStream.not_readable_iff.2 ⟨0, rfl, le_refl _⟩
  exact ⟨hfail, fun n => readLoop_doomed (IfStream.doomed_opened hfail) n []⟩

end Run
