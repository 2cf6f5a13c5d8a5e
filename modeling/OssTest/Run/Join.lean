import OssTest.Run.Launch

/-!
# Starting and joining the workers

`main` starts its workers one after the other and later joins them in the same
order.  `Joining` says at each of its points how many were started and how many
have been joined; behind the joins all of them have returned
(`Joining.complete`).
-/

namespace Run

open Cpp UtilBox Exceptions EngineLog Engine Steps

/-- Every thread the run was to start has been started and has returned. -/
def Complete (env : Env) (s : Sys) : Prop :=
  s.workers.length = env.maxthreadcnt ∧ ∀ w ∈ s.workers, ∃ ret, w.pc = .returned ret

/-- `main` starts at least one worker, and at most 30. -/
theorem maxthreadcnt_bounds (env : Env) : 1 ≤ env.maxthreadcnt ∧ env.maxthreadcnt ≤ 30 := by
  unfold Env.maxthreadcnt maxThreadNum
  split_ifs <;> omega

theorem Complete.ne_nil {env : Env} {s : Sys} (h : Complete env s) : s.workers ≠ [] := by
  intro hnil
  have hlen := h.1
  have := (maxthreadcnt_bounds env).1
  rw [hnil, List.length_nil] at hlen
  omega

/-- How many workers are started where `main` stands. -/
def MainPc.started (maxthreadcnt : ℕ) : MainPc → ℕ
  | .spawn k => k
  | _ => maxthreadcnt

/-- How many workers are joined where `main` stands. -/
def MainPc.joined (maxthreadcnt : ℕ) : MainPc → ℕ
  | .spawn _ | .spawnCpu => 0
  | .join k => k
  | _ => maxthreadcnt

/-- The workers `main` has started are there, and those it has joined have returned. -/
structure Joining (env : Env) (s : Sys) : Prop where
  late : s.main.Late
  length : s.workers.length = s.main.started env.maxthreadcnt
  bound : s.main.started env.maxthreadcnt ≤ env.maxthreadcnt
  returned : ∀ j < s.main.joined env.maxthreadcnt,
    ∃ n ret, s.workers[j]? = some ⟨n, .returned ret⟩

/-- A worker that has returned does not move. -/
theorem WorkerMove.not_returned {env : Env} {i n : ℕ} {o : Outcome} {g g' : Shared}
    {pc pc' : WorkerPc} (h : WorkerMove env i n o g pc g' pc') (ret : Bool) :
    pc ≠ .returned ret := by
  rintro rfl
  cases h

/-- What a step does to worker `i`: nothing, or it is a step of that worker. -/
theorem Move.worker_cases {env : Env} {s s' : Sys} {a : Act} {i : ℕ} {w : Worker}
    (h : Move env s a s') (hw : s.workers[i]? = some w) :
    s'.workers[i]? = some w ∨ ∃ pc', s'.workers[i]? = some ⟨w.threadNum, pc'⟩ ∧
      WorkerMove env i w.threadNum a.o s.g w.pc s'.g pc' := by
  have hlt : i < s.workers.length := (List.getElem?_eq_some_iff.1 hw).1
  cases h with
  | main _ h =>
    obtain hws | ⟨k, -, -, -, hws⟩ := h.workers
    · exact Or.inl (hws ▸ hw)
    · rw [hws, List.getElem?_append_left hlt]
      exact Or.inl hw
  | cpu _ _ => exact Or.inl hw
  | @worker j n pc g' pc' _ hj h =>
    by_cases hij : j = i
    · subst hij
      obtain rfl : (⟨n, pc⟩ : Worker) = w := Option.some.inj (hj.symm.trans hw)
      exact Or.inr ⟨pc', List.getElem?_set_self hlt, h⟩
    · exact Or.inl (by rw [List.getElem?_set_ne hij]; exact hw)

/-- A worker that has returned stays where it is. -/
theorem Move.returned_stays {env : Env} {s s' : Sys} {a : Act} {i n : ℕ} {ret : Bool}
    (h : Move env s a s') (hw : s.workers[i]? = some ⟨n, .returned ret⟩) :
    s'.workers[i]? = some ⟨n, .returned ret⟩ := by
  obtain hsame | ⟨pc', -, hmove⟩ := h.worker_cases hw
  · exact hsame
  · exact absurd rfl (hmove.not_returned ret)

theorem MainMove.joining {env : Env} {o : Outcome} {s s' : Sys} (hs : Joining env s)
    (h : MainMove env o s s.main s') : Joining env s' := by
  obtain ⟨hlate, hlen, hbound, hret⟩ := hs
  have hlate' := (h.late hlate).1
  generalize hpc : s.main = pc at h hlate hlen hbound hret
  cases h with
  | logStart | argsShort | args | exceptions | noExceptions | logExceptions | noScript
  | openScript | initExtFails | initExt | loadTTSNull | loadTTS | loadTTSEmpty => exact hlate.elim
  | spawn hk =>
    have hlen' : s.workers.length = _ := hlen
    refine ⟨hlate', ?_, Nat.succ_le_of_lt hk, nofun⟩
    simp [MainPc.started, hlen']
  | spawned hk => exact ⟨hlate', hlen.trans (le_antisymm hbound hk), le_refl _, nofun⟩
  | spawnCpu => exact ⟨hlate', hlen, le_refl _, nofun⟩
  | join hk =>
    refine ⟨hlate', hlen, le_refl _, ?_⟩
    intro j hj
    rcases Nat.lt_succ_iff_lt_or_eq.1 hj with hj | rfl
    · exact hret j hj
    · exact ⟨_, _, hk⟩
  | joined hk =>
    refine ⟨hlate', hlen, le_refl _, fun j hj => hret j ?_⟩
    have hge := List.getElem?_eq_none_iff.1 hk
    have hlen' : s.workers.length = env.maxthreadcnt := hlen
    exact lt_of_lt_of_le hj (hlen' ▸ hge)
  | _ => exact ⟨hlate', hlen, le_refl _, hret⟩

theorem Joining.step {env : Env} {a : Act} {s s' : Sys} (hs : Joining env s)
    (h : Move env s a s') : Joining env s' := by
  have hstay : ∀ {j n : ℕ} {ret : Bool}, s.workers[j]? = some ⟨n, .returned ret⟩ →
      s'.workers[j]? = some ⟨n, .returned ret⟩ := h.returned_stays
  cases h with
  | main _ h => exact h.joining hs
  | cpu _ h => exact ⟨hs.late, hs.length, hs.bound, hs.returned⟩
  | worker _ hi h =>
    refine ⟨hs.late, by rw [List.length_set]; exact hs.length, hs.bound, ?_⟩
    intro j hj
    obtain ⟨m, ret, hj'⟩ := hs.returned j hj
    exact ⟨m, ret, hstay hj'⟩

theorem Launch.joining {env : Env} {vecExceptionList : List Text} {script : IfStream} {s : Sys}
    (h : Launch vecExceptionList script s) : Joining env s := by
  obtain ⟨hmain, hworkers, -, -, -, -, -⟩ := h
  refine ⟨?_, ?_, ?_, ?_⟩ <;> rw [hmain]
  · trivial
  · rw [hworkers]
    rfl
  · exact Nat.zero_le _
  · nofun

/-- **How far `main` is with its workers, in every state a launch leads to.** -/
theorem joining_of_run {env : Env} {vecExceptionList : List Text} {script : IfStream}
    {s₀ s : Sys} {acts : List Act} (h₀ : Launch vecExceptionList script s₀)
    (h : run env s₀ acts = some s) : Joining env s := by
  have hstep : ∀ t a t', Joining env t → step env t a = some t' → Joining env t' :=
    fun t a t' ht hmove => ht.step (step_move hmove)
  exact runFrom_invariant hstep h h₀.joining

/-- **Behind the joins every worker has returned.** -/
theorem Joining.complete {env : Env} {s : Sys} (hs : Joining env s)
    (hstarted : s.main.started env.maxthreadcnt = env.maxthreadcnt)
    (hjoined : s.main.joined env.maxthreadcnt = env.maxthreadcnt) : Complete env s := by
  have hlen : s.workers.length = env.maxthreadcnt := hs.length.trans hstarted
  refine ⟨hlen, ?_⟩
  intro w hw
  obtain ⟨j, hj, rfl⟩ := List.getElem_of_mem hw
  obtain ⟨n, ret, hret⟩ := hs.returned j (by rw [hjoined, ← hlen]; exact hj)
  rw [List.getElem?_eq_getElem hj, Option.some.injEq] at hret
  exact ⟨ret, by rw [hret]⟩

end Run
