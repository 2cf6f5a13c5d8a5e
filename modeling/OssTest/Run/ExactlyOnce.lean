import OssTest.Run.Dispatch

/-!
# Every line once, under its own number

In a complete run in which no session fails, the sessions started are exactly the
ones the script is worth, whatever the schedule and however many threads
(`sessions_of_complete`).  The number a session carries is the line's own number as
long as `m_curTextIdx`, an `int`, can hold it; `exactly_once_iff` says that
this is the only thing that can go wrong, and `line_number_overflows` is a script on
which it does.
-/

namespace Run

open Cpp UtilBox Exceptions EngineLog Engine Steps Pool

/-! ## The numbers of the lines -/

theorem mem_dispatched {num : ℕ → Int} {vecExceptionList lines : List Text} {j : Int} {t : Text} :
    (j, t) ∈ dispatched num vecExceptionList lines ↔
      ∃ k l, lines[k]? = some l ∧ dispatch vecExceptionList l = some t ∧ num k = j := by
  rw [dispatched, mem_total]
  constructor
  · rintro ⟨⟨l, k⟩, hmem, hin⟩
    have hl := List.mk_mem_zipIdx_iff_getElem?.1 hmem
    cases hd : dispatch vecExceptionList l with
    | none => simp [hd] at hin
    | some u =>
      simp only [hd, entry_some, Multiset.mem_singleton, Prod.mk.injEq] at hin
      exact ⟨k, l, hl, hin.2 ▸ hd, hin.1.symm⟩
  · rintro ⟨k, l, hl, hd, rfl⟩
    exact ⟨(l, k), List.mk_mem_zipIdx_iff_getElem?.2 hl, by simp [hd]⟩

/-- What holds of the texts of all lines. -/
theorem forall_dispatched {num : ℕ → Int} {vecExceptionList lines : List Text} {P : Text → Prop} :
    (∀ x ∈ dispatched num vecExceptionList lines, P x.2) ↔
      ∀ l ∈ lines, ∀ t, dispatch vecExceptionList l = some t → P t := by
  constructor
  · intro h l hl t ht
    obtain ⟨k, hk⟩ := List.mem_iff_getElem?.1 hl
    exact h (num k, t) (mem_dispatched.2 ⟨k, l, hk, ht, rfl⟩)
  · rintro h ⟨j, t⟩ hx
    obtain ⟨k, l, hk, ht, -⟩ := mem_dispatched.1 hx
    exact h l (List.mem_of_getElem? hk) t ht

/-- The lines carry their own numbers exactly when an `int` holds those of all lines
that are spoken. -/
theorem dispatched_toInt_iff {vecExceptionList lines : List Text} :
    dispatched (fun k => toInt k) vecExceptionList lines =
        dispatched (fun k => k) vecExceptionList lines ↔
      ∀ k l, lines[k]? = some l → dispatch vecExceptionList l ≠ none → k < 2 ^ 31 := by
  constructor
  · intro heq k l hl hd
    obtain ⟨t, ht⟩ := Option.ne_none_iff_exists'.1 hd
    have hmem : ((k : Int), t) ∈ dispatched (fun k => (k : Int)) vecExceptionList lines :=
      mem_dispatched.2 ⟨k, l, hl, ht, rfl⟩
    rw [← heq] at hmem
    obtain ⟨k', -, -, -, hk'⟩ := mem_dispatched.1 hmem
    have hbound := (toInt_bounds (k' : Int)).2
    rw [hk'] at hbound
    omega
  · intro hsmall
    apply total_congr
    intro lk hlk
    obtain ⟨l, k⟩ := lk
    have hl := List.mk_mem_zipIdx_iff_getElem?.1 hlk
    beta_reduce
    cases hd : dispatch vecExceptionList l with
    | none => rw [entry_none, entry_none]
    | some t =>
      have hk : k < 2 ^ 31 := hsmall k l hl (by simp [hd])
      rw [toInt_natCast_eq_iff.2 hk]

/-! ## Complete runs -/

/-- A complete run comes from a launch. -/
theorem Complete.launched {env : Env} {disk : Text → Text} {acts : List Act} {s : Sys}
    (h : Complete env s) (hrun : run env (.start disk) acts = some s) :
    Launched env disk acts s := by
  obtain hs | hs | hs := start_cases hrun
  · exact absurd hs.workers h.ne_nil
  · exact absurd hs.workers h.ne_nil
  · exact hs

/-- No call that opens a channel has failed. -/
def NoInitFails (trace : List Event) : Prop :=
  ∀ c, Event.synth true c ∈ trace → c.frameflag = -1 → 0 ≤ c.rc

theorem failures_eq_zero_iff {trace : List Event} : failures trace = 0 ↔ NoInitFails trace := by
  rw [Multiset.eq_zero_iff_forall_notMem]
  constructor
  · intro h c hc hflag
    by_contra hrc
    have hfail : (c.curIdx, c.line) ∈ c.failure := by
      rw [SynthCall.failure, if_pos ⟨hflag, by omega⟩]
      exact Multiset.mem_singleton_self _
    exact h _ (mem_total_worth.2 ⟨c, hc, hfail⟩)
  · intro h x hx
    obtain ⟨c, hc, hfail⟩ := mem_total_worth.1 hx
    rw [SynthCall.failure, if_neg] at hfail
    · exact absurd hfail (Multiset.notMem_zero x)
    · rintro ⟨hflag, hrc⟩
      exact absurd (h c hc hflag) (by omega)

instance (trace : List Event) : Decidable (NoInitFails trace) :=
  decidable_of_iff _ failures_eq_zero_iff

/-- **No line is lost and none is taken twice**: a complete run starts the sessions
the script is worth, and so does every other one over the same script and list, with
any number of threads. -/
theorem sessions_of_complete {vecExceptionList : List Text} {content : Text} {env : Env}
    {s₀ s : Sys} {acts : List Act} (h₀ : Launch vecExceptionList (.ofContent content) s₀)
    (hrun : run env s₀ acts = some s) (hcomplete : Complete env s)
    (hinit : NoInitFails s.g.trace) :
    sessions s.g.trace = dispatched (fun k => toInt k) vecExceptionList (linesOf content) := by
  exact (ledger_of_run h₀ hrun).2.sessions_of_returned hcomplete.ne_nil hcomplete.2
    (failures_eq_zero_iff.2 hinit)

/-- **Exactly once, under its own number.**  In every complete run without a failed
session, the pairs of number and text for which a session is started are those of the
lines that are not exceptional and not emptied by `trim`, exactly when all these lines
have numbers below `2 ^ 31`. -/
theorem exactly_once_iff (vecExceptionList : List Text) (content : Text) (env : Env)
    (s₀ s : Sys) (acts : List Act) (h₀ : Launch vecExceptionList (.ofContent content) s₀)
    (hrun : run env s₀ acts = some s) (hcomplete : Complete env s)
    (hinit : NoInitFails s.g.trace) :
    sessions s.g.trace = dispatched (fun k => k) vecExceptionList (linesOf content) ↔
      ∀ k l, (linesOf content)[k]? = some l → dispatch vecExceptionList l ≠ none →
        k < 2 ^ 31 := by
  rw [sessions_of_complete h₀ hrun hcomplete hinit]
  exact dispatched_toInt_iff

/-! ### Two workers that take turns -/

/-- One worker, no exception list, and a library in which nothing is missing. -/
def oneWorker (content : Text) : Env where
  mTimeInfo := []
  argc := 3
  exceptionFile := none
  script := some (.ofContent content)
  getThreadNum := 1
  linker := ⟨true, fun _ => true⟩
  getcwd := true

/-- Every `fopen` succeeds, and the engine returns `rc`. -/
def smooth (rc : Int) : Outcome where
  os := ⟨0, true⟩
  rc := rc
  nFramesize := 0
  framebuf := 1
  memRes := none
  reportOk := true
  elapsed := 0

/-- Two workers. -/
def twoWorkers (content : Text) : Env := { oneWorker content with getThreadNum := 2 }

/-- A worker that has logged its line speaks it and looks for another one. -/
def speaking (i : ℕ) : List Act :=
  [smooth 0, smooth 0, smooth 1, smooth 0, smooth 0].map fun o => ⟨.worker i, o⟩

/-- Two workers take turns: each takes a line and logs it, then each speaks its own. -/
def inTurns : List Act :=
  List.replicate 7 ⟨.worker 0, smooth 0⟩ ++ List.replicate 7 ⟨.worker 1, smooth 0⟩ ++
    speaking 0 ++ speaking 1

/-- Both lines get their sessions. -/
theorem exactly_once_ab :
    ∃ s₀ s acts, Launch [] (.ofContent "a\nb".toList) s₀ ∧
      run (twoWorkers "a\nb".toList) s₀ acts = some s ∧
      sessions s.g.trace = dispatched (fun k => k) [] (linesOf "a\nb".toList) := by
  have hcheck : (run (twoWorkers "a\nb".toList) (.start fun _ => [])
      (List.replicate 9 ⟨.main, smooth 0⟩ ++ inTurns)).any (fun s =>
        s.workers = [⟨0, .returned true⟩, ⟨1, .returned true⟩] && NoInitFails s.g.trace) =
      true := by decide +kernel
  obtain ⟨s, hrun, hs⟩ := (Option.any_eq_true _ _).1 hcheck
  simp only [Bool.and_eq_true, decide_eq_true_eq] at hs
  obtain ⟨hws, hinit⟩ := hs
  have hcomplete : Complete (twoWorkers "a\nb".toList) s := by
    rw [Complete, hws]
    exact ⟨by decide, by simp⟩
  obtain ⟨-, post, s₀, script, -, -, hscript, -, h₀, hpost⟩ := hcomplete.launched hrun
  obtain rfl : IfStream.ofContent "a\nb".toList = script := Option.some.inj hscript
  refine ⟨s₀, s, post, h₀, hpost, ?_⟩
  refine (exactly_once_iff [] "a\nb".toList _ s₀ s post h₀ hpost hcomplete hinit).2 ?_
  intro k l hl _
  have hk := (List.getElem?_eq_some_iff.1 hl).1
  have hlen : (linesOf "a\nb".toList).length = 2 := by decide
  omega

/-! ## A script of blank lines -/

/-- `n` empty lines, and a last line that is to be spoken. -/
def blankScript (n : ℕ) : Text := List.replicate n '\n' ++ ['a']

/-- The variables while `n` empty lines and the last line are left. -/
def blankShared (n : ℕ) (mCurTextIdx : Int) (mThreadCnt : Int) (trace : List Event) : Shared where
  resultMutex := none
  log := (EngineLog.makeLogFile [] 1 (some exceptionsMsg) ⟨0, true⟩
    (EngineLog.makeLogFile [] 0 none ⟨0, true⟩ (.start fun _ => [])).1).1
  mTextin := .ofContent (blankScript n)
  mCurTextIdx := mCurTextIdx
  mVecExceptionList := []
  mThreadCnt := mThreadCnt
  msgLog := []
  bSynthFinished := false
  stSpec := (loadLib ⟨true, fun _ => true⟩ .zero).1
  trace := trace
  terminated := false

def blankLoading (n : ℕ) : Sys :=
  ⟨.loadTTS (toInt (IfStream.ofContent (blankScript n)).tellgEnd), [], .unborn,
    blankShared n 0 0 [.loadLib true]⟩

def blankLaunch (n : ℕ) : Sys :=
  ⟨.spawn 0, [], .unborn, blankShared n 0 0 [.loadLib true, .loadTTS true 0]⟩

/-- The worker before the section that fetches a line, or at another point. -/
def blankWorker (n : ℕ) (mCurTextIdx : Int) (pc : WorkerPc) : Sys :=
  ⟨.spawn 1, [⟨0, pc⟩], .unborn,
    blankShared n mCurTextIdx 1 [.loadLib true, .loadTTS true 0]⟩

theorem launch_blank (n : ℕ) : Launch [] (.ofContent (blankScript n)) (blankLaunch n) :=
  ⟨rfl, rfl, rfl, rfl, rfl, rfl, by simp [blankLaunch, blankShared, Event.Quiet]⟩

theorem reaches_blankLoading (n : ℕ) :
    Reaches (step (oneWorker (blankScript n))) (.start fun _ => []) (blankLoading n) :=
  Reaches.head ⟨.main, smooth 0⟩ rfl (Reaches.head ⟨.main, smooth 0⟩ rfl
    (Reaches.head ⟨.main, smooth 0⟩ rfl (Reaches.head ⟨.main, smooth 0⟩ rfl
    (Reaches.head ⟨.main, smooth 0⟩ rfl (Reaches.single ⟨.main, smooth 0⟩ rfl)))))

/-- The program starts its worker over the script, if its length passes for an `int`. -/
theorem reaches_blankLaunch (n : ℕ) (hn : 0 < toInt (n + 1 : ℕ)) :
    Reaches (step (oneWorker (blankScript n))) (.start fun _ => []) (blankLaunch n) := by
  have hlen : (IfStream.ofContent (blankScript n)).tellgEnd = (n + 1 : ℕ) := by
    simp [IfStream.tellgEnd, IfStream.ofContent, blankScript]
  have hlast : step (oneWorker (blankScript n)) (blankLoading n) ⟨.main, smooth 0⟩ =
      some ((blankLoading n).goto
        (if toInt (IfStream.ofContent (blankScript n)).tellgEnd > 0 then .spawn 0 else .deinitExt)
        ((blankLoading n).g.emit (.loadTTS true 0))) := rfl
  rw [if_pos (by rw [hlen]; exact hn)] at hlast
  exact (reaches_blankLoading n).trans (Reaches.single ⟨.main, smooth 0⟩ hlast)

/-- An empty line is taken and dropped. -/
theorem reaches_blank_succ (env : Env) (n : ℕ) (k : Int) :
    Reaches (step env) (blankWorker (n + 1) k .loop) (blankWorker n (toInt (k + 1)) .loop) := by
  have htaken : Reaches (step env) (blankWorker (n + 1) k .loop)
      (blankWorker n (toInt (k + 1)) (.trim k [])) :=
    Reaches.head ⟨.worker 0, smooth 0⟩ rfl (Reaches.single ⟨.worker 0, smooth 0⟩ rfl)
  refine htaken.trans (Reaches.single ⟨.worker 0, smooth 0⟩ ?_)
  exact step_trim rfl rfl (trim_of_blank blank_nil)

theorem reaches_blank (env : Env) (n : ℕ) (j : Int) :
    Reaches (step env) (blankWorker n (toInt j) .loop) (blankWorker 0 (toInt (j + n)) .loop) := by
  induction n generalizing j with
  | zero =>
    rw [Nat.cast_zero, add_zero]
    exact Reaches.refl _
  | succ n ih =>
    have hrest := ih (j + 1)
    rw [← toInt_toInt_add_one] at hrest
    rw [show j + ((n + 1 : ℕ) : Int) = j + 1 + n by push_cast; ring]
    exact (reaches_blank_succ env n (toInt j)).trans hrest

/-- The worker has taken the last line. -/
def blankLast (pc : WorkerPc) : Sys :=
  ⟨.spawn 1, [⟨0, pc⟩], .unborn, { blankShared 0 (toInt 1) 1 [.loadLib true, .loadTTS true 0] with
    mTextin := ⟨true, [], none, true, false, false⟩ }⟩

theorem reaches_blankLast (env : Env) :
    Reaches (step env) (blankWorker 0 0 .loop) (blankLast (.sprintf 0 ['a'])) := by
  have htaken : Reaches (step env) (blankWorker 0 0 .loop) (blankLast (.trim 0 ['a'])) :=
    Reaches.head ⟨.worker 0, smooth 0⟩ rfl (Reaches.single ⟨.worker 0, smooth 0⟩ rfl)
  have htrim : UtilBox.trim ['a'] = .ok ['a'] := by decide
  exact htaken.trans (Reaches.single ⟨.worker 0, smooth 0⟩ (step_trim rfl rfl htrim))

/-- The worker speaks the last line and returns. -/
theorem blank_end (env : Env) : ∃ s, Reaches (step env) (blankLast (.sprintf 0 ['a'])) s ∧
    s.workers = [⟨0, .returned true⟩] ∧ NoInitFails s.g.trace := by
  have hrun : ∃ s, run env (blankLast (.sprintf 0 ['a']))
      [⟨.worker 0, smooth 0⟩, ⟨.worker 0, smooth 0⟩, ⟨.worker 0, smooth 0⟩, ⟨.worker 0, smooth 0⟩,
        ⟨.worker 0, smooth 1⟩, ⟨.worker 0, smooth 0⟩, ⟨.worker 0, smooth 0⟩] = some s ∧
      s.workers = [⟨0, .returned true⟩] ∧
      s.g.trace = [.loadLib true, .loadTTS true 0,
        .synth true ⟨0, 0, none, 0, -1, 0, ['a'], 0, 0⟩, .malloc 0 0 1,
        .synth true ⟨0, 0, some ['a'], 1, 0, 0, ['a'], 1, 0⟩, .free 0 1] := ⟨_, rfl, rfl, rfl⟩
  obtain ⟨s, hs, hws, htrace⟩ := hrun
  refine ⟨s, ⟨_, hs⟩, hws, ?_⟩
  rw [htrace]
  intro c hc hflag
  simp only [List.mem_cons, Event.synth.injEq, reduceCtorEq, List.not_mem_nil, true_and,
    false_or, or_false] at hc
  rcases hc with rfl | rfl
  · exact le_refl 0
  · cases hflag

/-- A complete run over `n` empty lines and a last one. -/
theorem blank_run (n : ℕ) (hlen : 0 < toInt (n + 1 : ℕ)) (hn : toInt (n : ℕ) = 0) :
    ∃ s, Reaches (step (oneWorker (blankScript n))) (.start fun _ => []) (blankLaunch n) ∧
      Reaches (step (oneWorker (blankScript n))) (blankLaunch n) s ∧
      Complete (oneWorker (blankScript n)) s ∧ NoInitFails s.g.trace := by
  obtain ⟨s, hend, hws, hinit⟩ := blank_end (oneWorker (blankScript n))
  have hloop : Reaches (step (oneWorker (blankScript n))) (blankLaunch n) (blankWorker n 0 .loop) :=
    Reaches.head ⟨.main, smooth 0⟩ rfl
      (Reaches.head ⟨.worker 0, smooth 0⟩ rfl (Reaches.single ⟨.worker 0, smooth 0⟩ rfl))
  have hblank := reaches_blank (oneWorker (blankScript n)) n 0
  rw [zero_add, hn, toInt_zero] at hblank
  refine ⟨s, reaches_blankLaunch n hlen,
    hloop.trans (hblank.trans ((reaches_blankLast _).trans hend)), ⟨?_, ?_⟩, hinit⟩
  · rw [hws]
    rfl
  · rw [hws]
    simp

theorem linesOf_blankScript (n : ℕ) : (linesOf (blankScript n))[n]? = some ['a'] := by
  induction n with
  | zero => decide
  | succ n ih =>
    have hcons : linesOf (blankScript (n + 1)) = [] :: linesOf (blankScript n) :=
      List.splitOn_append_cons_self_of_not_mem List.not_mem_nil _
    rw [hcons, List.getElem?_cons_succ, ih]

theorem dispatch_a : dispatch [] ['a'] = some ['a'] :=
  dispatch_eq_some_iff.2 ⟨rfl, ['a'], by decide, by decide, by decide⟩

/-- Four GiB of empty lines and the line `"a"`: `m_curTextIdx` has come round, and
the session of line `2 ^ 32` is started under another number. -/
theorem line_number_overflows :
    ∃ env s₀ s pre acts, run env (.start fun _ => []) pre = some s₀ ∧
      Launch [] (.ofContent (blankScript (2 ^ 32))) s₀ ∧ run env s₀ acts = some s ∧
      Complete env s ∧ NoInitFails s.g.trace ∧
      sessions s.g.trace ≠ dispatched (fun k => k) [] (linesOf (blankScript (2 ^ 32))) := by
  obtain ⟨s, ⟨pre, hpre⟩, ⟨acts, hrun⟩, hcomplete, hinit⟩ :=
    blank_run (2 ^ 32) (by decide) (by decide)
  refine ⟨_, _, s, pre, acts, hpre, launch_blank _, hrun, hcomplete, hinit, ?_⟩
  rw [sessions_of_complete (launch_blank _) hrun hcomplete hinit]
  intro heq
  have hlt := dispatched_toInt_iff.1 heq (2 ^ 32) ['a'] (linesOf_blankScript _)
    (by rw [dispatch_a]; exact Option.some_ne_none _)
  omega

end Run
