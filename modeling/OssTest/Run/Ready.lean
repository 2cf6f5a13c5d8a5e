import OssTest.Lib.Trace
import OssTest.Run.Speech

/-!
# When the engine is ready

`loadLib` resolves the entry points and `VT_LOADTTS` loads the voice.  `init_Ext`
looks at neither result: it calls `VT_LOADTTS` through whatever pointer is there, and
returns `true` when that call fails.  `ready_of_run` says that apart from this nothing
goes wrong: where both succeed, every entry point is used only after them.
-/

namespace Engine

/-- What must have happened before the event. -/
def Event.ReadyAfter (pre : List Event) : Event → Prop
  | .loadTTS resolved _ | .unloadTTS resolved => resolved = true ∧ .loadLib true ∈ pre
  | .synth resolved _ => resolved = true ∧ .loadLib true ∈ pre ∧ .loadTTS true 0 ∈ pre
  | _ => True

end Engine

namespace Run

open Cpp UtilBox Exceptions EngineLog Engine Steps Pool Trace

/-! ## A script with nothing to say -/

/-- The script has no line that is to be spoken. -/
def Mute (env : Env) : Prop :=
  ∃ content, env.script = some (.ofContent content) ∧
    ∀ l ∈ linesOf content, dispatch env.vecExceptionList l = none

/-- The worker holds nothing that is to be spoken. -/
def WorkerPc.Idle : WorkerPc → Prop
  | .start | .opened | .loop | .fetch | .returned _ => True
  | .trim _ l => cleaned (UtilBox.trim l) = none
  | _ => False

/-- A worker that takes no line to be spoken stays idle, and calls nobody. -/
theorem WorkerMove.idle {vecExceptionList lines : List Text} {env : Env} {i n : ℕ} {o : Outcome}
    {g g' : Shared} {ws : List Worker} {pc pc' : WorkerPc}
    (h : WorkerMove env i n o g pc g' pc') (hl : Ledger vecExceptionList lines g ws)
    (hmute : ∀ l ∈ lines, dispatch vecExceptionList l = none) (hidle : pc.Idle) :
    pc'.Idle ∧ g'.trace = g.trace := by
  cases h with
  | fetch hfree heof hget =>
    obtain ⟨p, hat, -⟩ := hl.taken
    have hp := hat.lt_of_not_eof heof
    obtain ⟨s', hget', -⟩ := IfStream.getline_spec hat heof hp
    obtain ⟨rfl, -⟩ := Prod.mk.inj (hget'.symm.trans hget)
    have hnone := hmute _ (List.getElem_mem hp)
    rw [hl.vec]
    refine ⟨?_, rfl⟩
    split
    · trivial
    · rename_i hexc
      rwa [dispatch, if_neg hexc] at hnone
  | trim htrim ht =>
    rw [WorkerPc.Idle, htrim, cleaned, if_neg ht] at hidle
    cases hidle
  | trimThrows htrim => exact ⟨hidle, rfl⟩
  | start | opened | notOpen | loop | loopEof | fetchEof | trimEmpty => exact ⟨trivial, rfl⟩
  | _ => exact hidle.elim

/-- Every worker is idle, and nobody but `main` has called the engine. -/
structure Silent (env : Env) (lines : List Text) (s : Sys) : Prop where
  late : s.main.Late
  ledger : Ledger env.vecExceptionList lines s.g s.workers
  idle : ∀ w ∈ s.workers, w.pc.Idle
  quiet : ∀ e ∈ s.g.trace, e.Quiet

theorem Silent.step {env : Env} {lines : List Text} {s s' : Sys} {a : Act}
    (hs : Silent env lines s) (hmute : ∀ l ∈ lines, dispatch env.vecExceptionList l = none)
    (h : Move env s a s') : Silent env lines s' := by
  obtain ⟨hlate, hl, hidle, hquiet⟩ := hs
  obtain ⟨hlate', hl'⟩ := hl.step hlate h
  refine ⟨hlate', hl', ?_, ?_⟩
  · cases h with
    | main _ h =>
      obtain hws | ⟨k, -, -, -, hws⟩ := h.workers
      · rwa [hws]
      · rw [hws]
        exact List.forall_mem_append.2 ⟨hidle, List.forall_mem_singleton.2 trivial⟩
    | cpu _ h => exact hidle
    | worker _ hi h =>
      exact forall_set hidle (h.idle hl hmute (hidle _ (List.mem_of_getElem? hi))).1
  · cases h with
    | main _ h =>
      obtain htrace | ⟨e, he, htrace⟩ := h.trace
      · rwa [htrace]
      · rw [htrace]
        exact List.forall_mem_append.2 ⟨hquiet, List.forall_mem_singleton.2 he⟩
    | cpu _ h => rwa [h.frame.2.2.2.1]
    | worker _ hi h => rwa [(h.idle hl hmute (hidle _ (List.mem_of_getElem? hi))).2]

/-- **Over such a script the engine is only loaded and unloaded.** -/
theorem quiet_of_mute {env : Env} {disk : Text → Text} {acts : List Act} {s : Sys}
    (hmute : Mute env) (hrun : run env (.start disk) acts = some s) :
    ∀ e ∈ s.g.trace, e.Quiet := by
  obtain ⟨content, hscript, hnone⟩ := hmute
  obtain hs | hs | ⟨-, post, s₀, script, -, -, hscript', -, h₀, hpost⟩ := start_cases hrun
  · exact hs.quiet
  · exact hs.quiet
  · obtain rfl : script = .ofContent content := Option.some.inj (hscript'.symm.trans hscript)
    have hstep : ∀ t a t', Silent env (linesOf content) t → step env t a = some t' →
        Silent env (linesOf content) t' := fun t a t' ht hmove => ht.step hnone (step_move hmove)
    have hinit : Silent env (linesOf content) s₀ :=
      ⟨by rw [h₀.main]; trivial, h₀.ledger, by rw [h₀.workers]; nofun, h₀.quiet⟩
    exact (runFrom_invariant hstep hpost hinit).quiet

/-! ## Readiness -/

/-- The point of `main` lies behind `loadLib`, and it goes on. -/
def MainPc.Loaded : MainPc → Prop
  | .loadTTS _ => True
  | pc => pc.Late

/-- What a step must not let happen: `loadLib` fails and the working directory is
known, or `VT_LOADTTS` fails and there is something to be spoken. -/
def Loads (env : Env) (s : Sys) (a : Act) : Prop :=
  (∀ length, a.tid = .main → s.main = .initExt length → env.getcwd = true →
    env.linker.complete) ∧
  ∀ length, a.tid = .main → s.main = .loadTTS length → a.o.rc = 0 ∨ length ≤ 0 ∨ Mute env

/-- The engine is as ready as the point of `main` needs it to be. -/
structure Prepared (env : Env) (disk : Text → Text) (s : Sys) : Prop where
  reached : Reaches (step env) (.start disk) s
  ready : Justified Event.ReadyAfter s.g.trace
  loaded : s.main.Loaded → .loadLib true ∈ s.g.trace ∧ ∀ f, s.g.stSpec.func f = true
  speaking : (s.workers ≠ [] ∨ ∃ k, s.main = .spawn k) → .loadTTS true 0 ∈ s.g.trace ∨ Mute env

section Step

variable {env : Env} {disk : Text → Text} {s s' : Sys} {a : Act}

/-- A step that appends nothing and does not bring `main` nearer to the workers. -/
theorem Prepared.frame (hs : Prepared env disk s) (hreach : Reaches (step env) (.start disk) s')
    (htrace : s'.g.trace = s.g.trace) (hspec : s'.g.stSpec = s.g.stSpec)
    (hloaded : s'.main.Loaded → s.main.Loaded)
    (hspeak : (s'.workers ≠ [] ∨ ∃ k, s'.main = .spawn k) →
      s.workers ≠ [] ∨ ∃ k, s.main = .spawn k) : Prepared env disk s' := by
  refine ⟨hreach, htrace ▸ hs.ready, ?_, ?_⟩
  · intro h
    rw [htrace, hspec]
    exact hs.loaded (hloaded h)
  · intro h
    rw [htrace]
    exact hs.speaking (hspeak h)

/-- A step that appends an event which is justified, with the engine loaded before
and after. -/
theorem Prepared.append (hs : Prepared env disk s) (hreach : Reaches (step env) (.start disk) s')
    {e : Event} (htrace : s'.g.trace = s.g.trace ++ [e]) (he : e.ReadyAfter s.g.trace)
    (hloaded : .loadLib true ∈ s.g.trace ∧ ∀ f, s'.g.stSpec.func f = true)
    (hspeak : (s'.workers ≠ [] ∨ ∃ k, s'.main = .spawn k) →
      .loadTTS true 0 ∈ s.g.trace ++ [e] ∨ Mute env) : Prepared env disk s' := by
  refine ⟨hreach, ?_, fun _ => ⟨?_, hloaded.2⟩, ?_⟩
  · rw [htrace]
    exact justified_concat.2 ⟨hs.ready, he⟩
  · rw [htrace]
    exact List.mem_append_left _ hloaded.1
  · intro h
    rw [htrace]
    exact hspeak h

/-- **A step of `main` keeps the engine ready**, if loading does not fail in it. -/
theorem MainMove.prepared (hs : Prepared env disk s) (hloads : Loads env s a)
    (htid : a.tid = .main) (hreach : Reaches (step env) (.start disk) s')
    (h : MainMove env a.o s s.main s') : Prepared env disk s' := by
  obtain ⟨hlib, htts⟩ := hloads
  have hkeep : s.workers ≠ [] → ∀ e, .loadTTS true 0 ∈ s.g.trace ++ [e] ∨ Mute env := fun hne e =>
    (hs.speaking (Or.inl hne)).imp_left (List.mem_append_left _)
  have hloaded := hs.loaded
  have hspeaking := hs.speaking
  generalize hpc : s.main = pc at h hloaded hspeaking
  cases h with
  | initExtFails hcwd =>
    refine ⟨hreach, justified_concat.2 ⟨hs.ready, trivial⟩, ?_, ?_⟩
    · intro hl
      cases hl
    · intro hw
      rcases hw with hne | ⟨k, hk⟩
      · exact hkeep hne _
      · cases hk
  | initExt hcwd =>
    have hok : (loadLib env.linker s.g.stSpec).2 = true :=
      loadLib_ok.2 (hlib _ htid hpc hcwd)
    refine ⟨hreach, justified_concat.2 ⟨hs.ready, trivial⟩, fun _ => ⟨?_, ?_⟩, ?_⟩
    · exact List.mem_append_right _ (by rw [hok]; exact List.mem_singleton_self _)
    · intro f
      exact loadLib_func hok f
    · intro hw
      rcases hw with hne | ⟨k, hk⟩
      · exact hkeep hne _
      · cases hk
  | loadTTSNull hres => rw [(hloaded trivial).2] at hres; cases hres
  | loadTTS hres hlen =>
    obtain ⟨hmem, hfunc⟩ := hloaded trivial
    apply hs.append hreach rfl ⟨rfl, hmem⟩ ⟨hmem, hfunc⟩
    intro _
    rcases htts _ htid hpc with hrc | hle | hmute
    · exact Or.inl (List.mem_append_right _ (by rw [hrc]; exact List.mem_singleton_self _))
    · omega
    · exact Or.inr hmute
  | loadTTSEmpty hres hlen =>
    obtain ⟨hmem, hfunc⟩ := hloaded trivial
    apply hs.append hreach rfl ⟨rfl, hmem⟩ ⟨hmem, hfunc⟩
    intro hw
    rcases hw with hne | ⟨k, hk⟩
    · exact hkeep hne _
    · cases hk
  | deinitExtNull hres => rw [(hloaded trivial).2] at hres; cases hres
  | deinitExt hres =>
    obtain ⟨hmem, hfunc⟩ := hloaded trivial
    apply hs.append hreach rfl ⟨rfl, hmem⟩ ⟨hmem, hfunc⟩
    intro hw
    rcases hw with hne | ⟨k, hk⟩
    · exact hkeep hne _
    · cases hk
  | unloadLib hopen =>
    apply hs.append hreach rfl trivial (hloaded trivial)
    intro hw
    rcases hw with hne | ⟨k, hk⟩
    · exact hkeep hne _
    · cases hk
  | spawn hk =>
    refine hs.frame hreach rfl rfl (fun _ => hpc ▸ trivial) fun _ => Or.inr ⟨_, hpc⟩
  | _ =>
    refine hs.frame hreach rfl rfl ?_ ?_
    · intro hl
      rw [hpc]
      first | exact hl | trivial
    · intro hw
      rcases hw with hne | ⟨k, hk⟩
      · exact Or.inl hne
      · cases hk

/-- What a worker's step appends: nothing, something about its buffer, or a call
through the pointer as it is. -/
theorem WorkerMove.calls {i n : ℕ} {o : Outcome} {g g' : Shared} {pc pc' : WorkerPc}
    (h : WorkerMove env i n o g pc g' pc') :
    g'.stSpec = g.stSpec ∧ (g'.trace = g.trace ∨ ∃ e, g'.trace = g.trace ++ [e] ∧
      ((∀ pre, e.ReadyAfter pre) ∨ ∃ c, e = .synth (g.stSpec.func .textToBufferEX) c)) := by
  cases h with
  | initNull hres | initFails hres | init hres | synthNull hres | synthFails hres
  | synthMore hres | synthLast hres =>
    exact ⟨rfl, Or.inr ⟨_, rfl, Or.inr ⟨_, by rw [hres]⟩⟩⟩
  | malloc | free => exact ⟨rfl, Or.inr ⟨_, rfl, Or.inl fun _ => trivial⟩⟩
  | _ => exact ⟨rfl, Or.inl rfl⟩

/-- **A step keeps the engine ready**, if loading does not fail in it. -/
theorem Prepared.step (hs : Prepared env disk s) (hlate : s.workers ≠ [] → s.main.Late)
    (hloads : Loads env s a) (hmove : step env s a = some s') : Prepared env disk s' := by
  have hreach : Reaches (Run.step env) (.start disk) s' := hs.reached.trans (.single a hmove)
  cases step_move hmove with
  | main htid h => exact h.prepared hs hloads htid hreach
  | cpu _ h => exact hs.frame hreach h.frame.2.2.2.1 h.frame.2.2.2.2 id id
  | @worker i n pc g' pc' _ hi h =>
    obtain ⟨hspec, hcalls⟩ := h.calls
    have hne : s.workers ≠ [] := List.ne_nil_of_mem (List.mem_of_getElem? hi)
    have hloaded := hs.loaded (by
      have hl := hlate hne
      cases hm : s.main <;> rw [hm] at hl <;> first | exact hl | trivial)
    have hspeak := hs.speaking (Or.inl hne)
    obtain htrace | ⟨e, htrace, he⟩ := hcalls
    · exact hs.frame hreach htrace hspec id fun _ => Or.inl hne
    · have hnext : .loadTTS true 0 ∈ s.g.trace ++ [e] ∨ Mute env :=
        hspeak.imp_left (List.mem_append_left _)
      refine hs.append hreach htrace ?_ ⟨hloaded.1, ?_⟩ fun _ => hnext
      · rcases he with he | ⟨c, rfl⟩
        · exact he _
        · rw [hloaded.2]
          refine ⟨rfl, hloaded.1, hspeak.resolve_right fun hmute => ?_⟩
          -- a script with nothing to say makes no such call
          obtain ⟨acts, hrun⟩ := hreach
          refine quiet_of_mute hmute hrun (.synth (s.g.stSpec.func .textToBufferEX) c) ?_
          rw [htrace]
          exact List.mem_append_right _ (List.mem_singleton_self _)
      · intro f
        rw [hspec]
        exact hloaded.2 f

end Step

theorem prepared_start (env : Env) (disk : Text → Text) : Prepared env disk (.start disk) where
  reached := .refl _
  ready := justified_nil _
  loaded := fun h => h.elim
  speaking := by
    rintro (h | ⟨k, hk⟩)
    · exact absurd rfl h
    · cases hk

/-- Workers are there only once `main` starts them. -/
theorem late_of_reaches {env : Env} {disk : Text → Text} {s : Sys}
    (h : Reaches (step env) (.start disk) s) (hne : s.workers ≠ []) : s.main.Late := by
  obtain ⟨acts, hrun⟩ := h
  obtain hs | hs | ⟨-, post, s₀, script, -, -, -, -, h₀, hpost⟩ := start_cases hrun
  · exact absurd hs.workers hne
  · exact absurd hs.workers hne
  · exact (joining_of_run h₀ hpost).late

/-- **No entry point is used before the engine is ready, if loading it does not
fail.**  In every run in which `loadLib` finds all it looks for and `VT_LOADTTS`
returns 0, every call through a function pointer is made through one that a
successful `loadLib` has resolved, and `VT_TextToBufferEX` is called only after
`VT_LOADTTS` has returned 0. -/
theorem ready_of_run (env : Env) (disk : Text → Text) (acts : List Act) (s : Sys)
    (hrun : run env (.start disk) acts = some s)
    (hloads : Along (step env) (Loads env) (.start disk) acts) :
    Justified Event.ReadyAfter s.g.trace := by
  have hstep : ∀ t a t', Prepared env disk t → Loads env t a → step env t a = some t' →
      Prepared env disk t' := fun t a t' ht hloads hmove =>
    ht.step (late_of_reaches ht.reached) hloads hmove
  exact (hloads.invariant hstep hrun (prepared_start env disk)).ready

/-- The engine is loaded, and two workers that take turns use it. -/
theorem ready_ab :
    ∃ s, run (twoWorkers "a\nb".toList) (.start fun _ => []) upToResult = some s ∧
      Justified Event.ReadyAfter s.g.trace := by
  obtain ⟨s, -, hrun, -⟩ :=
    run_to_end (twoWorkers "a\nb".toList) upToResult (fun _ => true) (by decide +kernel)
  refine ⟨s, hrun, ready_of_run (twoWorkers "a\nb".toList) _ upToResult s hrun
    (along_of_forall ?_)⟩
  have hrc : ∀ a ∈ upToResult, a.tid = .main → a.o.rc = 0 := by decide
  exact fun a ha t => ⟨fun _ _ _ _ => ⟨rfl, fun _ => rfl⟩, fun _ htid _ => Or.inl (hrc a ha htid)⟩

/-- `dlopen` fails, and `VT_LOADTTS` is called through a null pointer. -/
theorem null_loadTTS :
    ∃ s, run { oneWorker ['a'] with linker := ⟨false, fun _ => true⟩ } (.start fun _ => [])
        (List.replicate 7 ⟨.main, smooth 0⟩) = some s ∧
      ¬ Justified Event.ReadyAfter s.g.trace := by
  refine ⟨_, rfl, ?_⟩
  intro hready
  exact absurd (hready [.loadLib false] (.loadTTS false 0) [] rfl).1 (by decide)

end Run
