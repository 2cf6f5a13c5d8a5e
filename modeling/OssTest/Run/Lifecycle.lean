import OssTest.Run.Progress

/-!
# From loading the engine to unloading it

* `Lifecycle` — the shapes the trace of a run can have: the engine is loaded first, the
  channels are used between `VT_LOADTTS` and `VT_UNLOADTTS`, and nothing comes behind but
  one `dlclose`.
* `balance_of_run` — every frame buffer that was allocated was freed once, or a worker
  still holds it.
* `lifecycle_of_run` — both, and what is left of them once `main` has returned.
-/

namespace Engine

/-- **The shapes of a trace.** -/
inductive Lifecycle : List Event → Prop where
  /-- Nothing was loaded yet. -/
  | unloaded : Lifecycle []
  | loaded (ok : Bool) : Lifecycle [.loadLib ok]
  /-- `VT_LOADTTS` was called through a null pointer. -/
  | null (ok : Bool) (rc : Int) : Lifecycle [.loadLib ok, .loadTTS false rc]
  /-- The channels are used. -/
  | running (ok : Bool) (rc : Int) (es : List Event) (hes : ∀ e ∈ es, ¬ e.Quiet) :
      Lifecycle (.loadLib ok :: .loadTTS true rc :: es)
  /-- `VT_UNLOADTTS` was called. -/
  | unloading (ok : Bool) (rc : Int) (es : List Event) (hes : ∀ e ∈ es, ¬ e.Quiet)
      (resolved : Bool) :
      Lifecycle (.loadLib ok :: .loadTTS true rc :: es ++ [.unloadTTS resolved])
  /-- The library is closed. -/
  | ended (ok : Bool) (rc : Int) (es : List Event) (hes : ∀ e ∈ es, ¬ e.Quiet) :
      Lifecycle (.loadLib ok :: .loadTTS true rc :: es ++ [.unloadTTS true, .dlclose])

/-- The buffer the event allocates, on its channel. -/
def Event.allocated : Event → Multiset (ℕ × ℕ)
  | .malloc threadNum _ framebuf => {(threadNum, framebuf)}
  | _ => 0

/-- The buffer the event frees, on its channel. -/
def Event.freed : Event → Multiset (ℕ × ℕ)
  | .free threadNum framebuf => {(threadNum, framebuf)}
  | _ => 0

end Engine

namespace Run

open Cpp UtilBox Exceptions EngineLog Engine Steps Pool

/-! ## The buffers -/

/-- The buffers that were allocated. -/
abbrev allocated (trace : List Event) : Multiset (ℕ × ℕ) := total Event.allocated trace

/-- The buffers that were freed. -/
abbrev freed (trace : List Event) : Multiset (ℕ × ℕ) := total Event.freed trace

/-- The buffer worker `n` holds. -/
def WorkerPc.buffer (n : ℕ) : WorkerPc → Multiset (ℕ × ℕ)
  | .synth _ _ framebuf _ | .sprintfErr _ framebuf | .logErr framebuf | .free framebuf =>
      {(n, framebuf)}
  | _ => 0

/-- The buffers the workers hold. -/
def Sys.buffers (s : Sys) : Multiset (ℕ × ℕ) := total (fun w => w.pc.buffer w.threadNum) s.workers

/-- Loading and unloading allocates nothing and frees nothing. -/
theorem allocated_quiet {e : Event} (h : e.Quiet) : e.allocated = 0 ∧ e.freed = 0 := by
  cases e <;> first | exact ⟨rfl, rfl⟩ | exact h.elim

section Step

variable {env : Env} {s s' : Sys} {a : Act}

/-- **What a worker allocates it holds until it frees it.** -/
theorem WorkerMove.balance {i n : ℕ} {o : Outcome} {g g' : Shared} {pc pc' : WorkerPc}
    (h : WorkerMove env i n o g pc g' pc') :
    (freed g'.trace + pc'.buffer n) + allocated g.trace =
      (freed g.trace + pc.buffer n) + allocated g'.trace := by
  cases h with
  | fetch => split <;> rfl
  | malloc | free =>
    simp [WorkerPc.buffer, Event.allocated, Event.freed]
    try abel
  | _ => simp [WorkerPc.buffer, Event.allocated, Event.freed]

theorem Move.balance (h : Move env s a s')
    (hs : freed s.g.trace + s.buffers = allocated s.g.trace) :
    freed s'.g.trace + s'.buffers = allocated s'.g.trace := by
  cases h with
  | main _ h =>
    have hws : s'.buffers = s.buffers := by
      obtain hws | ⟨k, -, -, -, hws⟩ := h.workers
      · rw [Sys.buffers, hws, Sys.buffers]
      · rw [Sys.buffers, hws, total_append, total_singleton]
        exact add_zero _
    rw [hws]
    obtain htrace | ⟨e, he, htrace⟩ := h.trace
    · rw [htrace, hs]
    · obtain ⟨halloc, hfree⟩ := allocated_quiet he
      rw [htrace, freed, allocated, total_append, total_append, total_singleton, total_singleton,
        halloc, hfree, add_zero, add_zero, hs]
  | cpu _ h =>
    rw [h.frame.2.2.2.1]
    exact hs
  | worker _ hi h => exact conserve hi h.balance hs

end Step

/-- **No buffer is lost and none is freed twice**, in any run. -/
theorem balance_of_run {env : Env} {disk : Text → Text} {acts : List Act} {s : Sys}
    (hrun : run env (.start disk) acts = some s) :
    freed s.g.trace + s.buffers = allocated s.g.trace := by
  have hstep : ∀ (t : Sys) a t', freed t.g.trace + t.buffers = allocated t.g.trace →
      step env t a = some t' → freed t'.g.trace + t'.buffers = allocated t'.g.trace :=
    fun t a t' ht hmove => (step_move hmove).balance ht
  exact runFrom_invariant hstep hrun rfl

/-! ## The library -/

/-- What is known of the library by where `main` stands: a pointer is resolved only while
it is open. -/
def SpecAt (stSpec : LibSpec) : MainPc → Prop
  | .logStart | .args | .exceptions | .logExceptions | .openScript | .initExt _ => stSpec = .zero
  | .unloadLib => stSpec.handle = true
  | _ => ∀ f, stSpec.func f = true → stSpec.handle = true

theorem WorkerMove.stSpec {env : Env} {i n : ℕ} {o : Outcome} {g g' : Shared} {pc pc' : WorkerPc}
    (h : WorkerMove env i n o g pc g' pc') : g'.stSpec = g.stSpec := by
  cases h <;> rfl

theorem MainMove.specAt {env : Env} {o : Outcome} {s s' : Sys} (h : MainMove env o s s.main s')
    (hs : SpecAt s.g.stSpec s.main) : SpecAt s'.g.stSpec s'.main := by
  generalize s.main = pc at h hs
  cases h with
  | argsShort | noScript =>
    have hzero : s.g.stSpec = .zero := hs
    intro f hf
    simp [Sys.goto, hzero, LibSpec.zero] at hf
  | initExtFails | initExt =>
    have hzero : s.g.stSpec = .zero := hs
    intro f hf
    simp only [Sys.goto, Shared.emit, hzero] at hf ⊢
    exact handle_of_loadLib hf
  | deinitExt hres => exact hs _ hres
  | unloadLib hopen | unloadLibNull hopen => exact fun _ _ => hs
  | _ => exact hs

/-- **No pointer is called into a library that is closed**, in any run. -/
theorem specAt_of_run {env : Env} {disk : Text → Text} {acts : List Act} {s : Sys}
    (hrun : run env (.start disk) acts = some s) : SpecAt s.g.stSpec s.main := by
  have hstep : ∀ (t : Sys) a t', SpecAt t.g.stSpec t.main → step env t a = some t' →
      SpecAt t'.g.stSpec t'.main := by
    intro t a t' ht hmove
    cases step_move hmove with
    | main _ h => exact h.specAt ht
    | cpu _ h =>
      dsimp only
      rw [h.frame.2.2.2.2]
      exact ht
    | worker _ _ h =>
      dsimp only
      rw [h.stSpec]
      exact ht
  exact runFrom_invariant hstep hrun rfl

/-! ## The shape of the trace -/

/-- The trace by where `main` stands, as long as the process is there. -/
def TraceAt (trace : List Event) : MainPc → Prop
  | .logStart | .args | .exceptions | .logExceptions | .openScript | .initExt _ => trace = []
  | .loadTTS _ => ∃ ok, trace = [.loadLib ok]
  | .returned false => trace = [] ∨ ∃ ok, trace = [.loadLib ok]
  | .unloadLib => ∃ ok rc es, (∀ e ∈ es, ¬ e.Quiet) ∧
      trace = .loadLib ok :: .loadTTS true rc :: es ++ [.unloadTTS true]
  | .logEnd | .returned true => ∃ ok rc es, (∀ e ∈ es, ¬ e.Quiet) ∧
      trace = .loadLib ok :: .loadTTS true rc :: es ++ [.unloadTTS true, .dlclose]
  | _ => ∃ ok rc es, (∀ e ∈ es, ¬ e.Quiet) ∧ trace = .loadLib ok :: .loadTTS true rc :: es

/-- The point of `main` lies where the channels are used. -/
def MainPc.Speaking : MainPc → Prop
  | .unloadLib | .logEnd => False
  | .returned _ => False
  | pc => pc.Late

theorem traceAt_of_speaking {trace : List Event} {pc : MainPc} (hpc : pc.Speaking) :
    TraceAt trace pc ↔
      ∃ ok rc es, (∀ e ∈ es, ¬ e.Quiet) ∧ trace = .loadLib ok :: .loadTTS true rc :: es := by
  cases pc <;> first | exact Iff.rfl | exact hpc.elim

theorem lifecycle_of_traceAt {trace : List Event} {pc : MainPc} (h : TraceAt trace pc) :
    Lifecycle trace := by
  cases pc with
  | logStart | args | exceptions | logExceptions | openScript | initExt =>
    obtain rfl : trace = [] := h
    exact .unloaded
  | loadTTS =>
    obtain ⟨ok, rfl⟩ := h
    exact .loaded ok
  | unloadLib =>
    obtain ⟨ok, rc, es, hes, rfl⟩ := h
    exact .unloading ok rc es hes true
  | logEnd =>
    obtain ⟨ok, rc, es, hes, rfl⟩ := h
    exact .ended ok rc es hes
  | returned success =>
    cases success with
    | true =>
      obtain ⟨ok, rc, es, hes, rfl⟩ := h
      exact .ended ok rc es hes
    | false =>
      obtain rfl | ⟨ok, rfl⟩ := h
      · exact .unloaded
      · exact .loaded ok
  | _ =>
    obtain ⟨ok, rc, es, hes, rfl⟩ := h
    exact .running ok rc es hes

/-- What a step of `main` does to the trace. -/
theorem MainMove.traceAt {env : Env} {o : Outcome} {s s' : Sys} (h : MainMove env o s s.main s')
    (hs : TraceAt s.g.trace s.main) (hspec : SpecAt s.g.stSpec s.main) :
    Lifecycle s'.g.trace ∧ (s'.g.terminated = false → TraceAt s'.g.trace s'.main) := by
  have hkeep : ∀ pc, s'.main = pc → TraceAt s'.g.trace pc →
      Lifecycle s'.g.trace ∧ (s'.g.terminated = false → TraceAt s'.g.trace s'.main) := by
    intro pc hpc hat
    exact ⟨lifecycle_of_traceAt hat, fun _ => hpc ▸ hat⟩
  generalize s.main = pc at h hs hspec
  cases h with
  | argsShort | noScript => exact hkeep (.returned false) rfl (Or.inl hs)
  | initExtFails =>
    have htrace : s.g.trace = [] := hs
    refine hkeep (.returned false) rfl (Or.inr ⟨(loadLib env.linker s.g.stSpec).2, ?_⟩)
    simp [Sys.goto, htrace]
  | @initExt length hcwd =>
    have htrace : s.g.trace = [] := hs
    refine hkeep (.loadTTS length) rfl ⟨(loadLib env.linker s.g.stSpec).2, ?_⟩
    simp [Sys.goto, htrace]
  | loadTTSNull =>
    obtain ⟨ok, htrace⟩ := hs
    refine ⟨?_, fun hlive => Bool.noConfusion hlive⟩
    simp only [Sys.goto, terminate_trace, emit_trace, htrace]
    exact .null ok o.rc
  | loadTTS =>
    obtain ⟨ok, htrace⟩ := hs
    refine hkeep (.spawn 0) rfl ⟨ok, o.rc, [], List.forall_mem_nil _, ?_⟩
    simp [Sys.goto, htrace]
  | loadTTSEmpty =>
    obtain ⟨ok, htrace⟩ := hs
    refine hkeep .deinitExt rfl ⟨ok, o.rc, [], List.forall_mem_nil _, ?_⟩
    simp [Sys.goto, htrace]
  | deinitExtNull =>
    obtain ⟨ok, rc, es, hes, htrace⟩ := hs
    refine ⟨?_, fun hlive => Bool.noConfusion hlive⟩
    simp only [Sys.goto, terminate_trace, emit_trace, htrace]
    exact .unloading ok rc es hes false
  | deinitExt =>
    obtain ⟨ok, rc, es, hes, htrace⟩ := hs
    refine hkeep .unloadLib rfl ⟨ok, rc, es, hes, ?_⟩
    simp [Sys.goto, htrace]
  | unloadLib =>
    obtain ⟨ok, rc, es, hes, htrace⟩ := hs
    refine hkeep .logEnd rfl ⟨ok, rc, es, hes, ?_⟩
    simp [Sys.goto, htrace]
  | unloadLibNull hopen =>
    -- the pointer that was called came out of an open library
    rw [show s.g.stSpec.handle = true from hspec] at hopen
    cases hopen
  | _ => exact hkeep _ rfl hs

/-- A worker does nothing to the engine but use its channel. -/
theorem WorkerMove.loud {env : Env} {i n : ℕ} {o : Outcome} {g g' : Shared} {pc pc' : WorkerPc}
    (h : WorkerMove env i n o g pc g' pc') :
    g'.trace = g.trace ∨ ∃ e : Event, ¬ e.Quiet ∧ g'.trace = g.trace ++ [e] := by
  cases h with
  | initNull | initFails | init | malloc | synthNull | synthFails | synthMore | synthLast | free =>
    exact Or.inr ⟨_, id, rfl⟩
  | _ => exact Or.inl rfl

/-- Behind the joins nobody but `main` is at work, and before the first worker there is none. -/
theorem speaking_of_worker {env : Env} {disk : Text → Text} {acts : List Act} {s : Sys}
    (hrun : run env (.start disk) acts = some s) {w : Worker} (hw : w ∈ s.workers)
    (hpc : ∀ ret, w.pc ≠ .returned ret) : s.main.Speaking := by
  obtain hs | hs | ⟨-, post, s₀, script, -, -, -, -, h₀, hpost⟩ := start_cases hrun
  · rw [hs.workers] at hw
    cases hw
  · rw [hs.workers] at hw
    cases hw
  · have hjoin := joining_of_run h₀ hpost
    have hlate := hjoin.late
    have hbusy : ¬ (s.main.started env.maxthreadcnt = env.maxthreadcnt ∧
        s.main.joined env.maxthreadcnt = env.maxthreadcnt) := by
      rintro ⟨hstarted, hjoined⟩
      obtain ⟨ret, hret⟩ := (hjoin.complete hstarted hjoined).2 w hw
      exact hpc ret hret
    cases hmain : s.main with
    | unloadLib | logEnd | returned =>
      rw [hmain] at hbusy
      exact absurd ⟨rfl, rfl⟩ hbusy
    | _ =>
      rw [hmain] at hlate
      exact hlate

theorem traceAt_of_run {env : Env} {disk : Text → Text} {acts : List Act} {s : Sys}
    (hrun : run env (.start disk) acts = some s) :
    Lifecycle s.g.trace ∧ (s.g.terminated = false → TraceAt s.g.trace s.main) := by
  have hstep : ∀ as (t : Sys) a t', run env (.start disk) as = some t →
      (Lifecycle t.g.trace ∧ (t.g.terminated = false → TraceAt t.g.trace t.main)) →
      step env t a = some t' →
      (Lifecycle t'.g.trace ∧ (t'.g.terminated = false → TraceAt t'.g.trace t'.main)) := by
    intro as t a t' has ht hmove
    have hat : TraceAt t.g.trace t.main := ht.2 (live_of_step hmove)
    cases step_move hmove with
    | main _ h => exact h.traceAt hat (specAt_of_run has)
    | cpu _ h =>
      dsimp only
      rw [h.frame.2.2.2.1]
      exact ⟨ht.1, fun _ => hat⟩
    | worker _ hi h =>
      have hspeak := speaking_of_worker has (List.mem_of_getElem? hi) h.not_returned
      obtain htrace | ⟨e, he, htrace⟩ := h.loud
      · dsimp only
        rw [htrace]
        exact ⟨ht.1, fun _ => hat⟩
      · obtain ⟨ok, rc, es, hes, hold⟩ := (traceAt_of_speaking hspeak).1 hat
        have hnew : TraceAt (t.g.trace ++ [e]) t.main := by
          refine (traceAt_of_speaking hspeak).2 ⟨ok, rc, es ++ [e], ?_, by simp [hold]⟩
          exact List.forall_mem_append.2 ⟨hes, List.forall_mem_singleton.2 he⟩
        dsimp only
        rw [htrace]
        exact ⟨lifecycle_of_traceAt hnew, fun _ => hnew⟩
  have hnil : Lifecycle (Sys.start disk).g.trace ∧ ((Sys.start disk).g.terminated = false →
      TraceAt (Sys.start disk).g.trace (Sys.start disk).main) := ⟨.unloaded, fun _ => rfl⟩
  exact runFrom_history (P := fun _ t => Lifecycle t.g.trace ∧
    (t.g.terminated = false → TraceAt t.g.trace t.main)) hnil hstep hrun

/-- A process that `main` has returned from has not ended before. -/
theorem live_of_success {env : Env} {disk : Text → Text} {acts : List Act} {s : Sys}
    (hrun : run env (.start disk) acts = some s) (hmain : s.main = .returned true) :
    s.g.terminated = false := by
  have hstep : ∀ as (t : Sys) a t', run env (.start disk) as = some t →
      (t.main = .returned true → t.g.terminated = false) → step env t a = some t' →
      (t'.main = .returned true → t'.g.terminated = false) := by
    intro as t a t' has ht hmove hmain'
    have hlive := live_of_step hmove
    have hnot : t.main ≠ .returned true := by
      intro hret
      rw [stuck_of_returned has hret a] at hmove
      cases hmove
    cases step_move hmove with
    | main _ h =>
      generalize t.main = pc at h
      cases h with
      | logEnd => exact hlive
      | _ => cases hmain'
    | cpu _ _ => exact absurd hmain' hnot
    | worker _ _ _ => exact absurd hmain' hnot
  have hnil : (Sys.start disk).main = .returned true → (Sys.start disk).g.terminated = false :=
    fun _ => rfl
  exact runFrom_history (P := fun _ t => t.main = .returned true → t.g.terminated = false)
    hnil hstep hrun hmain

/-- **The life of the engine.**  In every run the engine is loaded before anything else,
the channels are used only between a call of `VT_LOADTTS` that was made and the call of
`VT_UNLOADTTS`, and nothing happens behind that but one `dlclose`; every frame buffer that
was allocated was freed, once, or is held by the worker that allocated it.  When `main`
returns `EXIT_SUCCESS` the engine was unloaded and the library closed, no buffer is left and
no thread moves any more. -/
theorem lifecycle_of_run (env : Env) (disk : Text → Text) (acts : List Act) (s : Sys)
    (hrun : run env (.start disk) acts = some s) :
    Lifecycle s.g.trace ∧ freed s.g.trace + s.buffers = allocated s.g.trace ∧
      (s.main = .returned true → [.unloadTTS true, .dlclose] <:+ s.g.trace ∧
        freed s.g.trace = allocated s.g.trace ∧ ∀ a, step env s a = none) := by
  obtain ⟨hlife, hat⟩ := traceAt_of_run hrun
  have hbalance := balance_of_run hrun
  refine ⟨hlife, hbalance, fun hmain => ⟨?_, ?_, stuck_of_returned hrun hmain⟩⟩
  · have hended := hat (live_of_success hrun hmain)
    rw [hmain] at hended
    obtain ⟨ok, rc, es, -, htrace⟩ := hended
    rw [htrace]
    exact List.suffix_append _ _
  · have hnone : s.buffers = 0 := by
      apply total_eq_zero
      intro w hw
      obtain ⟨ret, hret⟩ := (over_of_success hrun hmain).workers w hw
      rw [hret]
      rfl
    rwa [hnone, add_zero] at hbalance

/-- The life of the engine under two workers that take turns. -/
theorem lifecycle_ab :
    ∃ s, run (twoWorkers "a\nb".toList) (.start fun _ => []) (upToResult ++ fromResult) = some s ∧
      [.unloadTTS true, .dlclose] <:+ s.g.trace ∧ freed s.g.trace = allocated s.g.trace := by
  have hcheck : (run (twoWorkers "a\nb".toList) (.start fun _ => [])
      (upToResult ++ fromResult)).any (fun s => s.main = .returned true) = true := by
    decide +kernel
  obtain ⟨s, hrun, hend⟩ := (Option.any_eq_true _ _).1 hcheck
  obtain ⟨hunloaded, hfreed, -⟩ := (lifecycle_of_run _ _ _ s hrun).2.2 (of_decide_eq_true hend)
  exact ⟨s, hrun, hunloaded, hfreed⟩

end Run
