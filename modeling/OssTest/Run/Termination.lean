import OssTest.Run.Progress
import OssTest.Run.Ready

/-!
# Every fair run ends

Each thread is scheduled again and again, and the engine comes to an end with every call.

* `MainMove.rank_lt` — `main` has no loop that could keep it: each of its steps brings it
  nearer to its end, so that only a join can hold it up for good.
* `ends_of_fair` — it does not: the process ends or `main` returns.
* `speaks_all_of_fair` — where nothing is missing, `main` returns `EXIT_SUCCESS` and every
  line of the script has been spoken, once and under its own number.
-/

namespace Run

open Cpp UtilBox Exceptions EngineLog Engine Steps Pool

/-! ## How far `main` is from its end -/

/-- How many steps `main` has before it at most. -/
def Sys.mainRank (env : Env) (s : Sys) : ℕ :=
  match s.main with
  | .logStart => 2 * env.maxthreadcnt + s.workers.length + 19
  | .args => 2 * env.maxthreadcnt + s.workers.length + 18
  | .exceptions => 2 * env.maxthreadcnt + s.workers.length + 17
  | .logExceptions => 2 * env.maxthreadcnt + s.workers.length + 16
  | .openScript => 2 * env.maxthreadcnt + s.workers.length + 15
  | .initExt _ => 2 * env.maxthreadcnt + s.workers.length + 14
  | .loadTTS _ => 2 * env.maxthreadcnt + s.workers.length + 13
  | .spawn k => 2 * (env.maxthreadcnt - k) + s.workers.length + 12
  | .spawnCpu => s.workers.length + 11
  | .join k => (s.workers.length - k) + 10
  | .setFinished => 9
  | .joinCpu => 8
  | .printResult => 7
  | .sprintfResult | .logElapsed => 6
  | .logResult | .logThreads => 5
  | .deinitExt => 4
  | .unloadLib => 3
  | .logEnd => 2
  | .returned _ => 0

/-- The process ends in this step, or it goes on. -/
theorem MainMove.rank_lt {env : Env} {o : Outcome} {s s' : Sys} (h : MainMove env o s s.main s') :
    s'.mainRank env < s.mainRank env ∨ s'.g.terminated = true := by
  unfold Sys.mainRank
  generalize hpc : s.main = pc at h
  cases h with
  | loadTTSNull | deinitExtNull => exact Or.inr rfl
  | join hk =>
    have hlt := (List.getElem?_eq_some_iff.1 hk).1
    refine Or.inl ?_
    simp only [Sys.goto]
    omega
  | spawn hk =>
    refine Or.inl ?_
    simp only [List.length_append, List.length_singleton]
    omega
  | _ =>
    refine Or.inl ?_
    simp only [Sys.goto]
    omega

/-- Only `main` moves `main`. -/
theorem Move.mainRank {env : Env} {s s' : Sys} {a : Act} (h : Move env s a s')
    (hlive : s'.g.terminated = false) :
    (s'.main = s.main ∧ s'.mainRank env = s.mainRank env) ∨
      s'.mainRank env < s.mainRank env := by
  cases h with
  | main _ h =>
    refine Or.inr (h.rank_lt.resolve_right ?_)
    rw [hlive]
    exact Bool.false_ne_true
  | cpu _ _ => exact Or.inl ⟨rfl, rfl⟩
  | worker _ _ _ =>
    refine Or.inl ⟨rfl, ?_⟩
    simp [Sys.mainRank]

/-! ## How far the load monitor is from its end -/

/-- How many steps the monitor has before it once it is told to stop. -/
def CpuPc.rank : CpuPc → ℕ
  | .unborn | .returned => 0
  | .loop _ => 1
  | .log => 2
  | .sprintf _ => 3
  | .sample _ => 4

theorem CpuMove.rank_lt {env : Env} {o : Outcome} {g g' : Shared} {pc pc' : CpuPc}
    (h : CpuMove env o g pc g' pc') (hfin : g.bSynthFinished = true) : pc'.rank < pc.rank := by
  cases h with
  | loop hno =>
    rw [hfin] at hno
    cases hno
  | _ => simp [CpuPc.rank]

/-- While `main` waits for the monitor nobody holds it up. -/
theorem Move.cpuRank {env : Env} {s s' : Sys} {a : Act} (h : Move env s a s')
    (hmain : s.main = .joinCpu) (hfin : s.g.bSynthFinished = true) :
    s'.cpu.rank ≤ s.cpu.rank ∧ (a.tid = .cpu → s'.cpu.rank < s.cpu.rank) := by
  cases h with
  | main htid h =>
    rw [hmain] at h
    cases h with
    | joinCpu => exact ⟨le_refl _, fun hcpu => by rw [htid] at hcpu; cases hcpu⟩
  | cpu _ h => exact ⟨(h.rank_lt hfin).le, fun _ => h.rank_lt hfin⟩
  | worker htid _ _ => exact ⟨le_refl _, fun hcpu => by rw [htid] at hcpu; cases hcpu⟩

/-! ## Fair schedules -/

/-- Every thread is scheduled again and again. -/
def Fair (sched : ℕ → Act) : Prop := ∀ tid T, ∃ t, T ≤ t ∧ (sched t).tid = tid

/-- The script can be read to its end, or passes for empty. -/
def Env.ScriptReadable (env : Env) : Prop :=
  ∀ script, env.script = some script → script.Sound ∨ toInt script.tellgEnd ≤ 0

/-- No worker stays in its `do` loop for ever while the process is there. -/
def EngineReturns (env : Env) (disk : Text → Text) (sched : ℕ → Act) : Prop :=
  ∀ i T, (∀ t, T ≤ t → Speaking i (history env disk sched t)) →
    ∃ t, (history env disk sched t).g.terminated = true

section Fair

variable {env : Env} {disk : Text → Text} {sched : ℕ → Act}

/-- A state of the schedule is the end of a run that obeys it. -/
theorem run_history (env : Env) (disk : Text → Text) (sched : ℕ → Act) (t : ℕ) :
    ∃ acts, run env (.start disk) acts = some (history env disk sched t) ∧
      ∀ a ∈ acts, ∃ u, sched u = a :=
  exists_run_stateAt (step env) (.start disk) sched t

theorem free_of_schedule (hfopen : ∀ t, (sched t).o.os.fopenOk = true) (t : ℕ) :
    (history env disk sched t).g.resultMutex = none := by
  obtain ⟨acts, hrun, hacts⟩ := run_history env disk sched t
  refine resultMutex_free_of_run hrun fun a ha => ?_
  obtain ⟨u, rfl⟩ := hacts a ha
  exact hfopen u

/-- A script that has a worker to read it can be read. -/
theorem rounds_finite_of_worker (hscript : env.ScriptReadable) {t i : ℕ} {w : Worker}
    (hw : (history env disk sched t).workers[i]? = some w) :
    ∃ N, ∀ t, N ≤ t →
      ¬ Iterates i (history env disk sched t) (history env disk sched (t + 1)) := by
  obtain ⟨acts, hrun, -⟩ := run_history env disk sched t
  have hne : (history env disk sched t).workers ≠ [] := by
    intro hnil
    rw [hnil] at hw
    cases hw
  obtain hs | hs | ⟨-, -, -, script, -, -, hsome, -⟩ := start_cases hrun
  · exact absurd hs.workers hne
  · exact absurd hs.workers hne
  · exact rounds_finite disk sched hsome (hscript script hsome) i

/-- **A worker `main` joins returns.** -/
theorem worker_returns (hfair : Fair sched) (hscript : env.ScriptReadable)
    (hengine : EngineReturns env disk sched) (hfopen : ∀ t, (sched t).o.os.fopenOk = true)
    (hlive : ∀ t, (history env disk sched t).g.terminated = false) {t₀ i : ℕ} {w : Worker}
    (hw : (history env disk sched t₀).workers[i]? = some w) :
    ∃ T n ret, ∀ t, T ≤ t → (history env disk sched t).workers[i]? = some ⟨n, .returned ret⟩ := by
  obtain ⟨N, hN⟩ := rounds_finite_of_worker hscript hw
  have hspeaks : EngineTerminates env disk sched := by
    intro i T hspeaking
    obtain ⟨t, ht⟩ := hengine i T hspeaking
    rw [hlive t] at ht
    cases ht
  obtain ⟨T, hT⟩ := leaves hN hspeaks (free_of_schedule hfopen) hw (hfair (.worker i))
  rw [hlive T] at hT
  obtain ⟨n, ret, hret⟩ := hT.resolve_left Bool.false_ne_true
  refine ⟨T, n, ret, fun t ht => ?_⟩
  have hstep : ∀ (s : Sys) a s', s.workers[i]? = some ⟨n, .returned ret⟩ → step env s a = some s' →
      s'.workers[i]? = some ⟨n, .returned ret⟩ :=
    fun s a s' hs hmove => (step_move hmove).returned_stays hs
  exact stateAt_invariant hstep hret ht

/-- **The load monitor returns** once it is told to stop. -/
theorem monitor_returns (hfair : Fair sched) (hfopen : ∀ t, (sched t).o.os.fopenOk = true)
    (hlive : ∀ t, (history env disk sched t).g.terminated = false) {T : ℕ}
    (hmain : ∀ t, T ≤ t → (history env disk sched t).main = .joinCpu) :
    ∃ N, ∀ t, N ≤ t → (history env disk sched t).cpu = .returned := by
  have hat : ∀ t, T ≤ t → (history env disk sched t).cpu ≠ .unborn ∧
      (history env disk sched t).g.bSynthFinished = true := by
    intro t ht
    obtain ⟨acts, hrun, -⟩ := run_history env disk sched t
    have hs := monitor_of_run hrun
    rwa [hmain t ht] at hs
  have hle : ∀ t, T ≤ t →
      (history env disk sched (t + 1)).cpu.rank ≤ (history env disk sched t).cpu.rank := by
    intro t ht
    rcases stateAt_succ (step env) (.start disk) sched t with hmove | ⟨-, hstay⟩
    · exact ((step_move hmove).cpuRank (hmain t ht) (hat t ht).2).1
    · exact le_of_eq (congrArg (fun s : Sys => s.cpu.rank) hstay)
  have hlt : ∀ U, ∃ t, U ≤ t ∧ ((history env disk sched t).cpu.rank ≠ 0 →
      (history env disk sched (t + 1)).cpu.rank < (history env disk sched t).cpu.rank) := by
    intro U
    obtain ⟨t, ht, htid⟩ := hfair .cpu (max U T)
    refine ⟨t, (le_max_left U T).trans ht, fun hrank => ?_⟩
    have hT : T ≤ t := (le_max_right U T).trans ht
    have hret : (history env disk sched t).cpu ≠ .returned := fun hpc => hrank (by rw [hpc]; rfl)
    obtain ⟨r, hr⟩ :=
      cpuStep_enabled env (free_of_schedule hfopen t) (hat t hT).1 hret (sched t).o
    have hact : sched t = ⟨.cpu, (sched t).o⟩ := by rw [← htid]
    have hmove := cpu_can_go_on (hlive t) hr
    rw [← hact] at hmove
    have hdrop := ((step_move hmove).cpuRank (hmain t hT) (hat t hT).2).2 htid
    rwa [← history_succ hmove] at hdrop
  obtain ⟨N, hN, hzero⟩ := eventually_zero hle hlt
  refine ⟨N, fun t ht => ?_⟩
  have hrank := hzero t ht
  have hborn := (hat t (hN.trans ht)).1
  cases hpc : (history env disk sched t).cpu with
  | returned => rfl
  | unborn => exact absurd hpc hborn
  | _ =>
    rw [hpc] at hrank
    cases hrank

/-! ## The end of `main` -/

/-- From some time on `main` stands still, if the process is there for ever. -/
theorem main_settles (hlive : ∀ t, (history env disk sched t).g.terminated = false) :
    ∃ N, ∀ t, N ≤ t → (history env disk sched t).main = (history env disk sched N).main ∧
      (history env disk sched t).mainRank env = (history env disk sched N).mainRank env := by
  have hstep : ∀ t,
      ((history env disk sched (t + 1)).main = (history env disk sched t).main ∧
        (history env disk sched (t + 1)).mainRank env = (history env disk sched t).mainRank env) ∨
      (history env disk sched (t + 1)).mainRank env < (history env disk sched t).mainRank env := by
    intro t
    rcases stateAt_succ (step env) (.start disk) sched t with hmove | ⟨-, hstay⟩
    · exact (step_move hmove).mainRank (hlive (t + 1))
    · exact Or.inl ⟨congrArg Sys.main hstay, congrArg (Sys.mainRank env) hstay⟩
  obtain ⟨N, -, hconst⟩ := eventually_constant
    (f := fun t => (history env disk sched t).mainRank env) (T := 0)
    fun t _ => (hstep t).elim (fun h => h.2.le) le_of_lt
  refine ⟨N, fun t ht => ⟨?_, hconst t ht⟩⟩
  induction t, ht using Nat.le_induction with
  | base => rfl
  | succ t ht ih =>
    obtain ⟨hmain, -⟩ | hlt := hstep t
    · exact hmain.trans ih
    · have hsame := (hconst (t + 1) (ht.trans (Nat.le_succ t))).trans (hconst t ht).symm
      exact absurd hsame hlt.ne

/-- Where `main` stands still and is scheduled, it waits for a thread. -/
theorem waits_of_settled (hlist : env.ListReadable)
    (hfopen : ∀ t, (sched t).o.os.fopenOk = true) {t : ℕ}
    (hrun : (history env disk sched t).Running)
    (hlive : (history env disk sched (t + 1)).g.terminated = false) (htid : (sched t).tid = .main)
    (hsame : (history env disk sched (t + 1)).mainRank env =
      (history env disk sched t).mainRank env) : MainWaits (history env disk sched t) := by
  obtain ⟨s', hs'⟩ | hwaits := mainStep_enabled hlist (free_of_schedule hfopen t) hrun.2 (sched t).o
  · have hact : sched t = ⟨.main, (sched t).o⟩ := by rw [← htid]
    have hmove := main_can_go_on hrun.1 hs'
    rw [← hact] at hmove
    have hnext := history_succ hmove
    obtain hlt | hterm := (mainStep_move hs').rank_lt
    · rw [← hnext, hsame] at hlt
      exact absurd hlt (lt_irrefl _)
    · rw [← hnext, hlive] at hterm
      cases hterm
  · exact hwaits

/-- Under such a schedule the program does not run for ever. -/
theorem exists_not_running (hfair : Fair sched) (hlist : env.ListReadable)
    (hscript : env.ScriptReadable) (hengine : EngineReturns env disk sched)
    (hfopen : ∀ t, (sched t).o.os.fopenOk = true) :
    ∃ t, ¬ (history env disk sched t).Running := by
  by_contra hno
  have hrun : ∀ t, (history env disk sched t).Running := not_exists_not.1 hno
  have hlive := fun t => (hrun t).1
  obtain ⟨N, hN⟩ := main_settles hlive
  have hwaits : ∀ t, N ≤ t → (sched t).tid = .main → MainWaits (history env disk sched t) := by
    intro t ht htid
    exact waits_of_settled hlist hfopen (hrun t) (hlive (t + 1)) htid
      ((hN (t + 1) (ht.trans (Nat.le_succ t))).2.trans (hN t ht).2.symm)
  -- when it is scheduled again, what it waits for has happened
  obtain ⟨u, hu, htid⟩ := hfair .main N
  cases hwaits u hu htid with
  | @join k w hmain hw hret =>
    obtain ⟨T, n, ret, hT⟩ := worker_returns hfair hscript hengine hfopen hlive hw
    obtain ⟨v, hv, htid'⟩ := hfair .main (max N T)
    have hNv : N ≤ v := (le_max_left N T).trans hv
    have hmain' : (history env disk sched v).main = .join k := by
      rw [(hN v hNv).1, ← (hN u hu).1, hmain]
    cases hwaits v hNv htid' with
    | @join k' w' hjoin hw' hret' =>
      obtain rfl : k = k' := by
        rw [hmain'] at hjoin
        cases hjoin
        rfl
      rw [hT v ((le_max_right N T).trans hv)] at hw'
      obtain rfl := Option.some.inj hw'
      exact hret' ret rfl
    | joinCpu hjoin _ =>
      rw [hmain'] at hjoin
      cases hjoin
  | joinCpu hmain _ =>
    have hstay : ∀ t, N ≤ t → (history env disk sched t).main = .joinCpu := fun t ht => by
      rw [(hN t ht).1, ← (hN u hu).1, hmain]
    obtain ⟨T, hT⟩ := monitor_returns hfair hfopen hlive hstay
    obtain ⟨v, hv, htid'⟩ := hfair .main (max N T)
    have hNv : N ≤ v := (le_max_left N T).trans hv
    cases hwaits v hNv htid' with
    | join hjoin _ _ =>
      rw [hstay v hNv] at hjoin
      cases hjoin
    | joinCpu _ hcpu => exact hcpu (hT v ((le_max_right N T).trans hv))

end Fair

/-- **Every fair run ends.**  Under every schedule that lets every thread run again and
again, over an exception list and a script that can be read, with an engine that comes to
an end with every text and `fopen`s of the log that succeed, the process ends or `main`
returns. -/
theorem ends_of_fair (env : Env) (disk : Text → Text) (sched : ℕ → Act) (hfair : Fair sched)
    (hlist : env.ListReadable) (hscript : env.ScriptReadable)
    (hengine : EngineReturns env disk sched) (hfopen : ∀ t, (sched t).o.os.fopenOk = true) :
    ∃ t, (history env disk sched t).g.terminated = true ∨
      ∃ success, (history env disk sched t).main = .returned success := by
  obtain ⟨t, ht⟩ := exists_not_running hfair hlist hscript hengine hfopen
  refine ⟨t, ?_⟩
  by_contra hno
  obtain ⟨hlive, hmain⟩ := not_or.1 hno
  exact ht ⟨Bool.eq_false_of_not_eq_true hlive, not_exists.1 hmain⟩

/-! ### A fair schedule -/

/-- Every thread gets its turn, and is told the same every time. -/
def roundRobin (o : Outcome) (t : ℕ) : Act :=
  ⟨match (Nat.unpair t).1 with
    | 0 => .main
    | 1 => .cpu
    | i + 2 => .worker i, o⟩

theorem fair_roundRobin (o : Outcome) : Fair (roundRobin o) := by
  intro tid T
  cases tid with
  | main => exact ⟨Nat.pair 0 T, Nat.right_le_pair 0 T, by simp [roundRobin]⟩
  | cpu => exact ⟨Nat.pair 1 T, Nat.right_le_pair 1 T, by simp [roundRobin]⟩
  | worker i => exact ⟨Nat.pair (i + 2) T, Nat.right_le_pair (i + 2) T, by simp [roundRobin]⟩

/-- An engine that never asks to be called again comes to an end. -/
theorem engineReturns_of_rc {env : Env} {disk : Text → Text} {sched : ℕ → Act}
    (hfair : Fair sched) (hfopen : ∀ t, (sched t).o.os.fopenOk = true)
    (hrc : ∀ t, (sched t).o.rc ≠ 0) : EngineReturns env disk sched := by
  intro i T hspeaking
  by_contra hno
  have hlive : ∀ t, (history env disk sched t).g.terminated = false := fun t =>
    Bool.eq_false_of_not_eq_true fun hterm => hno ⟨t, hterm⟩
  obtain ⟨t, ht, htid⟩ := hfair (.worker i) T
  obtain ⟨n, k, x, buf, flag, hw⟩ := hspeaking t ht
  obtain ⟨pc', s', hstep, hw', h⟩ :=
    step_enabled (hlive t) (free_of_schedule hfopen t) htid hw nofun
  obtain rfl := history_succ hstep
  obtain ⟨n', k', x', buf', flag', hnext⟩ := hspeaking (t + 1) (ht.trans (Nat.le_succ t))
  rw [hw'] at hnext
  cases hnext
  have hlive' := hlive (t + 1)
  generalize (history env disk sched (t + 1)).g = g' at h hlive'
  cases h with
  | synthNull hres => cases hlive'
  | synthMore hres hzero => exact hrc t hzero

theorem listReadable_twoWorkers (content : Text) : (twoWorkers content).ListReadable := nofun

theorem scriptReadable_ofContent {env : Env} {content : Text}
    (h : env.script = some (.ofContent content)) : env.ScriptReadable := by
  intro script hscript
  obtain rfl := Option.some.inj (h.symm.trans hscript)
  exact Or.inl (Or.inr ⟨rfl, rfl, nofun⟩)

/-- Two workers over two lines. -/
theorem ends_ab :
    ∃ t, (history (twoWorkers "a\nb".toList) (fun _ => []) (roundRobin (smooth 1)) t).g.terminated =
        true ∨
      ∃ success, (history (twoWorkers "a\nb".toList) (fun _ => []) (roundRobin (smooth 1)) t).main =
        .returned success := by
  refine ends_of_fair (twoWorkers "a\nb".toList) (fun _ => []) (roundRobin (smooth 1))
    (fair_roundRobin _) (listReadable_twoWorkers _) (scriptReadable_ofContent rfl) ?_ fun _ => rfl
  exact engineReturns_of_rc (fair_roundRobin _) (fun _ => rfl) fun _ => one_ne_zero

/-! ## Where nothing is missing -/

/-- The program finds all it needs. -/
structure Env.InOrder (env : Env) (content : Text) : Prop where
  argc : ¬ env.argc < 3
  script : env.script = some (.ofContent content)
  length : content.length < 2 ^ 31
  linker : env.linker.complete
  getcwd : env.getcwd = true

/-- A line the worker still has to trim is no longer than an `int` can count. -/
def WorkerPc.ShortLine : WorkerPc → Prop
  | .trim _ l => l.length < 2 ^ 31
  | _ => True

/-- Nothing has gone wrong. -/
structure Unharmed (s : Sys) : Prop where
  live : s.g.terminated = false
  main : s.main ≠ .returned false
  rest : s.g.mTextin.rest.length < 2 ^ 31
  lines : ∀ w ∈ s.workers, w.pc.ShortLine
  loaded : s.main.Loaded → ∀ f, s.g.stSpec.func f = true

section Unharmed

variable {env : Env} {content : Text} {s s' : Sys} {a : Act}

/-- With two arguments `main` gets past the check. -/
theorem args_of_step (hargc : ¬ env.argc < 3) (hpc : s.main = .args)
    (h : step env s a = some s') : s'.main ≠ .returned false := by
  cases step_move h with
  | main htid _ =>
    have hmain := mainStep_of_step htid h
    rw [mainStep, hpc] at hmain
    dsimp only at hmain
    rw [if_neg hargc, Option.some.injEq] at hmain
    simp [← hmain, Sys.goto]
  | cpu _ _ => simp [hpc]
  | worker _ _ _ => simp [hpc]

theorem MainMove.unharmed (henv : env.InOrder content) (h : MainMove env a.o s s.main s')
    (hstep : step env s a = some s') (hs : Unharmed s) : Unharmed s' := by
  obtain ⟨hlive, hmain, hrest, hlines, hloaded⟩ := hs
  generalize hpc : s.main = pc at h hmain hloaded
  cases h with
  | argsShort => exact absurd rfl (args_of_step henv.argc hpc hstep)
  | noScript hscript =>
    rw [henv.script] at hscript
    cases hscript
  | initExtFails hcwd =>
    rw [henv.getcwd] at hcwd
    cases hcwd
  | loadTTSNull hres => rw [hloaded trivial] at hres; cases hres
  | deinitExtNull hres => rw [hloaded trivial] at hres; cases hres
  | openScript hscript =>
    obtain rfl := Option.some.inj (henv.script.symm.trans hscript)
    exact ⟨hlive, nofun, henv.length, hlines, fun hl => hl.elim⟩
  | initExt hcwd =>
    have hok : (loadLib env.linker s.g.stSpec).2 = true := loadLib_ok.2 henv.linker
    exact ⟨hlive, nofun, hrest, hlines, fun _ f => loadLib_func hok f⟩
  | spawn hk =>
    refine ⟨hlive, nofun, hrest, ?_, fun _ => hloaded trivial⟩
    exact List.forall_mem_append.2 ⟨hlines, List.forall_mem_singleton.2 trivial⟩
  | logStart | args | exceptions | noExceptions | logExceptions =>
    exact ⟨hlive, nofun, hrest, hlines, fun hl => hl.elim⟩
  | _ => exact ⟨hlive, nofun, hrest, hlines, fun _ => hloaded trivial⟩

theorem WorkerMove.unharmed {i n : ℕ} {o : Outcome} {g g' : Shared} {pc pc' : WorkerPc}
    (h : WorkerMove env i n o g pc g' pc') (hlive : g.terminated = false)
    (hrest : g.mTextin.rest.length < 2 ^ 31) (hline : pc.ShortLine)
    (hfunc : ∀ f, g.stSpec.func f = true) :
    g'.terminated = false ∧ g'.mTextin.rest.length < 2 ^ 31 ∧ pc'.ShortLine ∧
      g'.stSpec = g.stSpec := by
  cases h with
  | @fetch hfree heof l mTextin hget =>
    have hlen : l.length + mTextin.rest.length ≤ g.mTextin.rest.length := by
      have hlen := g.mTextin.length_getline
      rwa [hget] at hlen
    have hrest' : mTextin.rest.length < 2 ^ 31 := by omega
    have hl : l.length < 2 ^ 31 := by omega
    refine ⟨hlive, hrest', ?_, rfl⟩
    split
    · trivial
    · exact hl
  | @trimThrows k l e htrim =>
    obtain ⟨t, ht⟩ := trim_ok_of_short hline
    rw [htrim] at ht
    cases ht
  | initNull hres | synthNull hres => rw [hfunc] at hres; cases hres
  | _ => exact ⟨hlive, hrest, trivial, rfl⟩

/-- **A step does no harm** where nothing is missing. -/
theorem Unharmed.step (henv : env.InOrder content) (hlate : s.workers ≠ [] → s.main.Late)
    (hs : Unharmed s) (hstep : step env s a = some s') : Unharmed s' := by
  cases step_move hstep with
  | main _ h => exact h.unharmed henv hstep hs
  | cpu _ h =>
    obtain ⟨-, hin, -, -, hspec⟩ := h.frame
    have hlive : ∀ {pc pc' : CpuPc} {g' : Shared}, CpuMove env a.o s.g pc g' pc' →
        g'.terminated = false := fun h => by cases h <;> exact hs.live
    exact ⟨hlive h, hs.main, hin ▸ hs.rest, hs.lines, hspec ▸ hs.loaded⟩
  | worker _ hi h =>
    have hmem := List.mem_of_getElem? hi
    have hl := hlate (List.ne_nil_of_mem hmem)
    have hload : s.main.Loaded := by
      cases hm : s.main <;> rw [hm] at hl <;> first | exact hl | trivial
    obtain ⟨hlive, hrest, hline, hspec⟩ :=
      h.unharmed hs.live hs.rest (hs.lines _ hmem) (hs.loaded hload)
    exact ⟨hlive, hs.main, hrest, forall_set hs.lines hline, hspec ▸ hs.loaded⟩

end Unharmed

theorem unharmed_start (disk : Text → Text) : Unharmed (.start disk) where
  live := rfl
  main := nofun
  rest := Nat.two_pow_pos 31
  lines := nofun
  loaded := fun h => h.elim

/-- **Nothing goes wrong where nothing is missing**, in any run. -/
theorem unharmed_of_run {env : Env} {content : Text} {disk : Text → Text} {acts : List Act}
    {s : Sys} (henv : env.InOrder content) (hrun : run env (.start disk) acts = some s) :
    Unharmed s := by
  have hstep : ∀ as t a t', run env (.start disk) as = some t → Unharmed t →
      step env t a = some t' → Unharmed t' := fun as t a t' has ht hmove =>
    ht.step henv (late_of_reaches ⟨as, has⟩) hmove
  exact runFrom_history (unharmed_start disk) hstep hrun

/-! ## Every line is spoken -/

/-- `main` starts no worker over a script it takes for empty, and over no other. -/
theorem empty_of_skipped {env : Env} {disk : Text → Text} {acts : List Act} {s : Sys}
    (hrun : run env (.start disk) acts = some s) (hs : Skipped s) :
    ∃ script, env.script = some script ∧ toInt script.tellgEnd ≤ 0 := by
  have hnone : ¬ Skipped (.start disk) := by
    rintro ⟨-, -, -, h | h | h | h⟩ <;> cases h
  have hstep : ∀ as t a t', run env (.start disk) as = some t →
      (Skipped t → ∃ script, env.script = some script ∧ toInt script.tellgEnd ≤ 0) →
      step env t a = some t' →
      (Skipped t' → ∃ script, env.script = some script ∧ toInt script.tellgEnd ≤ 0) := by
    intro as t a t' has ht hmove hskip
    obtain hearly | hskipped | ⟨-, post, s₀, script, -, -, -, -, h₀, hpost⟩ := start_cases has
    · obtain ⟨-, -, -, hmain⟩ := hskip
      obtain ⟨-, h⟩ := (step_move hmove).main_of_alone hearly.workers hearly.cpu
      have hat := hearly.at_main
      generalize t.main = pc at h hat
      cases h with
      | loadTTSEmpty hres hlen =>
        obtain ⟨-, hscript, hlength⟩ := hat
        exact ⟨_, hscript, hlength ▸ hlen⟩
      | deinitExtNull | deinitExt | unloadLib | unloadLibNull | logEnd | logResult | logThreads =>
        exact hat.elim
      | argsShort | noScript | initExtFails => rcases hmain with h | h | h | h <;> cases h
      | spawn | spawnCpu => exact hat.elim
      | _ => rcases hmain with h | h | h | h <;> cases h
    · exact ht hskipped
    · -- the workers that were started are still there
      have hjoin := (joining_of_run h₀ hpost).step (step_move hmove)
      have hone := (maxthreadcnt_bounds env).1
      have hlen := hjoin.length
      rw [hskip.workers, List.length_nil] at hlen
      rcases hskip.main with h | h | h | h <;>
        (rw [h, show MainPc.started env.maxthreadcnt _ = env.maxthreadcnt from rfl] at hlen; omega)
  exact runFrom_history (fun h => absurd h hnone) hstep hrun hs

/-- An empty script has nothing to say. -/
theorem dispatched_nil (num : ℕ → Int) (vecExceptionList : List Text) :
    dispatched num vecExceptionList (linesOf []) = 0 := by
  have hline : dispatch vecExceptionList [] = none := by
    rw [dispatch]
    split
    · rfl
    · rw [trim_of_blank blank_nil, cleaned, if_pos rfl]
  have hlines : linesOf [] = [[]] := rfl
  simp [dispatched, hlines, hline]

/-- A script an `int` can count has no more lines than that. -/
theorem dispatched_toInt_of_length {vecExceptionList : List Text} {content : Text}
    (hlen : content.length < 2 ^ 31) :
    dispatched (fun k => toInt k) vecExceptionList (linesOf content) =
      dispatched (fun k => k) vecExceptionList (linesOf content) := by
  refine dispatched_toInt_iff.2 fun k l hl _ => ?_
  have hk : k < (linesOf content).length := (List.getElem?_eq_some_iff.1 hl).1
  have hcount : content.count '\n' ≤ content.length := List.count_le_length
  rw [linesOf, length_splitOn] at hk
  omega

/-- What was given to the engine when `main` returns, and what it heard. -/
theorem speech_of_success {env : Env} {content : Text} {disk : Text → Text} {acts : List Act}
    {s : Sys} (henv : env.InOrder content) (hrun : run env (.start disk) acts = some s)
    (hmain : s.main = .returned true) (hinit : NoInitFails s.g.trace) :
    sessions s.g.trace = dispatched (fun k => k) env.vecExceptionList (linesOf content) ∧
      speech s.g.trace =
        (dispatched (fun k => k) env.vecExceptionList (linesOf content)).map heard := by
  obtain hs | hs | ⟨-, post, s₀, script, -, -, hscript, -, h₀, hpost⟩ := start_cases hrun
  · have hat := hs.at_main
    rw [hmain] at hat
    cases hat
  · obtain ⟨script, hscript, hle⟩ := empty_of_skipped hrun hs
    obtain rfl := Option.some.inj (henv.script.symm.trans hscript)
    have hcount : (IfStream.ofContent content).tellgEnd = (content.length : ℕ) := rfl
    have hlen := henv.length
    rw [hcount, toInt_natCast_of_lt hlen] at hle
    obtain rfl : content = [] := List.length_eq_zero_iff.1 (by omega)
    rw [dispatched_nil]
    exact ⟨total_quiet hs.quiet, total_quiet hs.quiet⟩
  · obtain rfl := Option.some.inj (henv.script.symm.trans hscript)
    have hcomplete : Complete env s :=
      (joining_of_run h₀ hpost).complete (by rw [hmain]; rfl) (by rw [hmain]; rfl)
    have hl := (ledger_of_run h₀ hpost).2
    have hfail := failures_eq_zero_iff.2 hinit
    have hsess : sessions s.g.trace =
        dispatched (fun k => k) env.vecExceptionList (linesOf content) := by
      rw [hl.sessions_of_returned hcomplete.ne_nil hcomplete.2 hfail,
        dispatched_toInt_of_length henv.length]
    have hvoiced := hl.voiced_of_returned hcomplete.2
    rw [hfail, add_zero] at hvoiced
    exact ⟨hsess, by rw [hl.heard, hvoiced, hsess]⟩

/-- Where nothing is missing, `main` comes to its end under every fair schedule. -/
theorem over_of_fair {env : Env} {content : Text} {disk : Text → Text} {sched : ℕ → Act}
    (henv : env.InOrder content) (hlist : env.ListReadable) (hfair : Fair sched)
    (hengine : EngineReturns env disk sched) (hfopen : ∀ t, (sched t).o.os.fopenOk = true) :
    ∃ t, Over (history env disk sched t) := by
  obtain ⟨t, ht⟩ :=
    exists_not_running hfair hlist (scriptReadable_ofContent henv.script) hengine hfopen
  obtain ⟨acts, hrun, -⟩ := run_history env disk sched t
  have hsafe := unharmed_of_run henv hrun
  have hmain : (history env disk sched t).main = .returned true := by
    by_contra hno
    refine ht ⟨hsafe.live, fun success hret => ?_⟩
    cases success with
    | true => exact hno hret
    | false => exact hsafe.main hret
  exact ⟨t, over_of_success hrun hmain⟩

/-- **Total correctness.**  Where the program finds all it needs, under every fair schedule
with an engine that comes to an end with every text and refuses none, `main` returns
`EXIT_SUCCESS`; all threads have returned then, and what was spoken are the lines that are
not exceptional and not emptied by `trim`, each once and under its own number, and each up
to its first NUL. -/
theorem speaks_all_of_fair (env : Env) (content : Text) (disk : Text → Text)
    (sched : ℕ → Act) (henv : env.InOrder content) (hlist : env.ListReadable)
    (hfair : Fair sched) (hengine : EngineReturns env disk sched)
    (hfopen : ∀ t, (sched t).o.os.fopenOk = true)
    (hinit : ∀ t, NoInitFails (history env disk sched t).g.trace) :
    ∃ t, Over (history env disk sched t) ∧
      sessions (history env disk sched t).g.trace =
        dispatched (fun k => k) env.vecExceptionList (linesOf content) ∧
      speech (history env disk sched t).g.trace =
        (dispatched (fun k => k) env.vecExceptionList (linesOf content)).map heard := by
  obtain ⟨t, hover⟩ := over_of_fair henv hlist hfair hengine hfopen
  obtain ⟨acts, hrun, -⟩ := run_history env disk sched t
  exact ⟨t, hover, speech_of_success henv hrun hover.main (hinit t)⟩

/-- A trace and one more event. -/
theorem noInitFails_concat {trace : List Event} {e : Event} (h : NoInitFails trace)
    (he : ∀ c, e = .synth true c → c.frameflag = -1 → 0 ≤ c.rc) : NoInitFails (trace ++ [e]) := by
  intro c hc hflag
  rcases List.mem_append.1 hc with hc | hc
  · exact h c hc hflag
  · exact he c (List.mem_singleton.1 hc).symm hflag

/-- An engine that returns no error lets no session fail. -/
theorem noInitFails_of_rc {env : Env} {disk : Text → Text} {acts : List Act} {s : Sys}
    (hrun : run env (.start disk) acts = some s) (hrc : ∀ a ∈ acts, 0 ≤ a.o.rc) :
    NoInitFails s.g.trace := by
  have hstep : ∀ t a t', NoInitFails t.g.trace → 0 ≤ a.o.rc → step env t a = some t' →
      NoInitFails t'.g.trace := by
    intro t a t' ht hok hmove
    cases step_move hmove with
    | main _ h =>
      obtain htrace | ⟨e, he, htrace⟩ := h.trace
      · rwa [htrace]
      · rw [htrace]
        refine noInitFails_concat ht fun c hc => ?_
        rw [hc] at he
        exact he.elim
    | cpu _ h => rwa [h.frame.2.2.2.1]
    | worker _ _ h =>
      cases h with
      | initNull | malloc | synthNull | free => exact noInitFails_concat ht nofun
      | initFails | init | synthFails | synthMore | synthLast =>
        refine noInitFails_concat ht fun c hc _ => ?_
        cases hc
        exact hok
      | _ => exact ht
  exact Along.invariant hstep (along_of_forall fun a ha _ => hrc a ha) hrun nofun

/-- Two workers speak two lines under a fair schedule. -/
theorem speaks_all_ab :
    ∃ t, Over (history (twoWorkers "a\nb".toList) (fun _ => []) (roundRobin (smooth 1)) t) ∧
      sessions
          (history (twoWorkers "a\nb".toList) (fun _ => []) (roundRobin (smooth 1)) t).g.trace =
        dispatched (fun k => k) [] (linesOf "a\nb".toList) ∧
      speech (history (twoWorkers "a\nb".toList) (fun _ => []) (roundRobin (smooth 1)) t).g.trace =
        (dispatched (fun k => k) [] (linesOf "a\nb".toList)).map heard := by
  refine speaks_all_of_fair (twoWorkers "a\nb".toList) "a\nb".toList (fun _ => [])
    (roundRobin (smooth 1)) ⟨by decide, rfl, by decide, ⟨rfl, fun _ => rfl⟩, rfl⟩
    (listReadable_twoWorkers _) (fair_roundRobin _) ?_ (fun _ => rfl) ?_
  · exact engineReturns_of_rc (fair_roundRobin _) (fun _ => rfl) fun _ => one_ne_zero
  · intro t
    obtain ⟨acts, hrun, hacts⟩ := run_history _ _ (roundRobin (smooth 1)) t
    refine noInitFails_of_rc hrun fun a ha => ?_
    obtain ⟨u, rfl⟩ := hacts a ha
    exact zero_le_one

end Run
