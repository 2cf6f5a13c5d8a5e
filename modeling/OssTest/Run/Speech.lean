import OssTest.Run.ExactlyOnce

/-!
# What is spoken

* `success_iff` — `main` returns `EXIT_SUCCESS` whatever the workers returned: every
  line was spoken exactly when no call that opens a channel has failed and no text has
  a NUL in it.
* `speaks_text_of_run` — a text handed to the engine has something in it to be
  spoken, unless `trim` has handed on a line with whitespace alone in front of its
  first NUL.
-/

namespace Run

open Cpp UtilBox Exceptions EngineLog Engine Steps Pool

/-! ## Success -/

theorem dispatched_take_le {num : ℕ → Int} {vecExceptionList lines : List Text} (p : ℕ) :
    dispatched num vecExceptionList (lines.take p) ≤ dispatched num vecExceptionList lines := by
  conv_rhs => rw [← List.take_append_drop p lines]
  rw [dispatched, dispatched, List.zipIdx_append, total_append]
  exact Multiset.le_add_right _ _

/-- The sessions started belong to lines of the script. -/
theorem Ledger.sessions_le {vecExceptionList lines : List Text} {g : Shared} {ws : List Worker}
    (hl : Ledger vecExceptionList lines g ws) :
    sessions g.trace ≤ dispatched (fun k => toInt k) vecExceptionList lines := by
  obtain ⟨p, -, -, htaken⟩ := hl.taken
  have hle : sessions g.trace ≤ dispatched (fun k => toInt k) vecExceptionList (lines.take p) :=
    htaken ▸ Multiset.le_add_right _ _
  exact hle.trans (dispatched_take_le p)

/-- Only the text of a session is given to the engine. -/
theorem Ledger.voiced_le {vecExceptionList lines : List Text} {g : Shared} {ws : List Worker}
    (hl : Ledger vecExceptionList lines g ws) : voiced g.trace ≤ sessions g.trace := by
  rw [← hl.started, add_assoc]
  exact Multiset.le_add_right _ _

/-- **Every line is given to the engine exactly when no session is lost**, once all
workers have returned. -/
theorem Ledger.voiced_iff {vecExceptionList lines : List Text} {env : Env} {s : Sys}
    (hl : Ledger vecExceptionList lines s.g s.workers) (hcomplete : Complete env s) :
    voiced s.g.trace = dispatched (fun k => toInt k) vecExceptionList lines ↔
      NoInitFails s.g.trace := by
  have hsum := hl.voiced_of_returned hcomplete.2
  rw [← failures_eq_zero_iff]
  constructor
  · intro hall
    -- nothing is left for the sessions that failed
    have hle : voiced s.g.trace + failures s.g.trace ≤ voiced s.g.trace + 0 := by
      rw [hsum, add_zero, hall]
      exact hl.sessions_le
    exact Multiset.le_zero.1 (le_of_add_le_add_left hle)
  · intro hfail
    rw [hfail, add_zero] at hsum
    rw [hsum, hl.sessions_of_returned hcomplete.ne_nil hcomplete.2 hfail]

/-- The engine hears all of a text that has no NUL in it. -/
theorem heard_eq_self_iff {x : Int × Text} : heard x = x ↔ '\x00' ∉ x.2 := by
  rw [← cstr_eq_self_iff, heard, Prod.ext_iff]
  simp

/-- Texts are heard as they are exactly when none of them has a NUL in it. -/
theorem map_heard_eq_self_iff {texts : Multiset (Int × Text)} :
    texts.map heard = texts ↔ ∀ x ∈ texts, '\x00' ∉ x.2 := by
  simp only [← heard_eq_self_iff]
  refine map_eq_self_iff (fun x => x.2.length) (fun x => (cstr_prefix_self x.2).length_le) ?_
  intro x hlen
  exact Prod.ext rfl ((cstr_prefix_self x.2).eq_of_length hlen)

/-- **Every line is spoken exactly when no session is lost and no text is cut**, once all
workers have returned. -/
theorem Ledger.spoken_iff {vecExceptionList lines : List Text} {env : Env} {s : Sys}
    (hl : Ledger vecExceptionList lines s.g s.workers) (hcomplete : Complete env s) :
    dispatched (fun k => toInt k) vecExceptionList lines ≤ speech s.g.trace ↔
      NoInitFails s.g.trace ∧
        ∀ x ∈ dispatched (fun k => toInt k) vecExceptionList lines, '\x00' ∉ x.2 := by
  rw [← hl.voiced_iff hcomplete, ← map_heard_eq_self_iff, hl.heard]
  have hle := hl.voiced_le.trans hl.sessions_le
  constructor
  · intro hall
    -- as many texts are heard as were given to the engine
    have hcard : Multiset.card (dispatched (fun k => toInt k) vecExceptionList lines) ≤
        Multiset.card (voiced s.g.trace) := by
      simpa using Multiset.card_le_card hall
    have hvoiced := Multiset.eq_of_le_of_card_le hle hcard
    rw [hvoiced] at hall ⊢
    exact ⟨rfl, (Multiset.eq_of_le_of_card_le hall (by simp)).symm⟩
  · rintro ⟨hvoiced, hheard⟩
    rw [hvoiced, hheard]

/-- A run that passes `printResult` has started its workers. -/
theorem launched_of_printResult {env : Env} {disk : Text → Text} {acts : List Act} {s : Sys}
    (hrun : run env (.start disk) acts = some s) (hmain : s.main = .printResult) :
    Launched env disk acts s := by
  obtain hs | hs | hs := start_cases hrun
  · have hat := hs.at_main
    rw [hmain] at hat
    exact hat.elim
  · obtain hpc | hpc | hpc | hpc := hs.main <;> rw [hmain] at hpc <;> cases hpc
  · exact hs

/-- **Success does not mean that the script was run.**  In every run in which `main`
reaches `printResult` and returns `EXIT_SUCCESS`, every line that is neither
exceptional nor emptied by `trim` was spoken exactly when no call that opens a
channel has failed and no text made of such a line has a NUL in it. -/
theorem success_iff (env : Env) (content : Text) (disk : Text → Text) (pre post : List Act)
    (s₁ s : Sys) (hscript : env.script = some (.ofContent content))
    (hpre : run env (.start disk) pre = some s₁) (hresult : s₁.main = .printResult)
    (hpost : run env s₁ post = some s) (hend : s.main = .returned true) :
    dispatched (fun k => toInt k) env.vecExceptionList (linesOf content) ≤ speech s.g.trace ↔
      NoInitFails s.g.trace ∧
        ∀ l ∈ linesOf content, ∀ t, dispatch env.vecExceptionList l = some t → '\x00' ∉ t := by
  obtain ⟨pre₀, post₀, s₀, script, -, -, hscript', -, h₀, hrun₀⟩ :=
    launched_of_printResult hpre hresult
  obtain rfl : script = .ofContent content := Option.some.inj (hscript'.symm.trans hscript)
  have hrun : run env s₀ (post₀ ++ post) = some s := runFrom_append_eq_some.2 ⟨s₁, hrun₀, hpost⟩
  have hcomplete : Complete env s :=
    (joining_of_run h₀ hrun).complete (by rw [hend]; rfl) (by rw [hend]; rfl)
  rw [(ledger_of_run h₀ hrun).2.spoken_iff hcomplete, and_congr_right_iff]
  intro _
  exact forall_dispatched (P := fun t => '\x00' ∉ t)

/-! ### Runs to the end -/

/-- Up to `printResult`, over `"a\nb"`: the two workers take turns. -/
def upToResult : List Act :=
  List.replicate 9 ⟨.main, smooth 0⟩ ++ inTurns ++ List.replicate 6 ⟨.main, smooth 0⟩ ++
    [⟨.cpu, smooth 0⟩, ⟨.main, smooth 0⟩]

/-- Up to `printResult`, with one worker that meets these outcomes once it has logged
its line. -/
def aloneToResult (os : List Outcome) : List Act :=
  List.replicate 8 ⟨.main, smooth 0⟩ ++ List.replicate 7 ⟨.worker 0, smooth 0⟩ ++
    os.map (fun o => ⟨.worker 0, o⟩) ++ List.replicate 5 ⟨.main, smooth 0⟩ ++
    [⟨.cpu, smooth 0⟩, ⟨.main, smooth 0⟩]

/-- From `printResult` to the end. -/
def fromResult : List Act := List.replicate 6 ⟨.main, smooth 0⟩

/-- A run to the end, looked at in its last state. -/
theorem run_to_end (env : Env) (acts : List Act) (p : Sys → Bool)
    (h : (run env (.start fun _ => []) acts).any (fun s₁ =>
      s₁.main = .printResult && (run env s₁ fromResult).any (fun s =>
        s.main = .returned true && p s)) = true) :
    ∃ s₁ s, run env (.start fun _ => []) acts = some s₁ ∧ s₁.main = .printResult ∧
      run env s₁ fromResult = some s ∧ s.main = .returned true ∧ p s = true := by
  obtain ⟨s₁, hpre, hs₁⟩ := (Option.any_eq_true _ _).1 h
  obtain ⟨hresult, hs₁⟩ := Bool.and_eq_true_iff.1 hs₁
  obtain ⟨s, hpost, hs⟩ := (Option.any_eq_true _ _).1 hs₁
  obtain ⟨hend, hp⟩ := Bool.and_eq_true_iff.1 hs
  exact ⟨s₁, s, hpre, of_decide_eq_true hresult, hpost, of_decide_eq_true hend, hp⟩

/-- Both lines are spoken. -/
theorem success_ab :
    ∃ s₁ s, run (twoWorkers "a\nb".toList) (.start fun _ => []) upToResult = some s₁ ∧
      s₁.main = .printResult ∧ run (twoWorkers "a\nb".toList) s₁ fromResult = some s ∧
      s.main = .returned true ∧
      dispatched (fun k => toInt k) (twoWorkers "a\nb".toList).vecExceptionList
        (linesOf "a\nb".toList) ≤ speech s.g.trace := by
  obtain ⟨s₁, s, hpre, hresult, hpost, hend, hinit⟩ :=
    run_to_end (twoWorkers "a\nb".toList) upToResult (fun s => NoInitFails s.g.trace)
      (by decide +kernel)
  refine ⟨s₁, s, hpre, hresult, hpost, hend, ?_⟩
  have hnul : ∀ x ∈ dispatched (fun k => toInt k) (twoWorkers "a\nb".toList).vecExceptionList
      (linesOf "a\nb".toList), '\x00' ∉ x.2 := by decide +kernel
  exact (success_iff (twoWorkers "a\nb".toList) "a\nb".toList _ upToResult fromResult s₁ s rfl
    hpre hresult hpost hend).2
    ⟨of_decide_eq_true hinit, forall_dispatched (P := fun t => '\x00' ∉ t).1 hnul⟩

/-- The call that opens the channel fails: the worker takes the line with it, and
`main` returns `EXIT_SUCCESS` all the same. -/
theorem success_without_speech :
    ∃ s₁ s, run (oneWorker ['a']) (.start fun _ => []) (aloneToResult [smooth (-1)]) = some s₁ ∧
      s₁.main = .printResult ∧ run (oneWorker ['a']) s₁ fromResult = some s ∧
      s.main = .returned true ∧
      ¬ dispatched (fun k => toInt k) (oneWorker ['a']).vecExceptionList (linesOf ['a']) ≤
        speech s.g.trace := by
  obtain ⟨s₁, s, hpre, hresult, hpost, hend, hnot⟩ := run_to_end (oneWorker ['a'])
    (aloneToResult [smooth (-1)])
    (fun s => ¬ dispatched (fun k => toInt k) (oneWorker ['a']).vecExceptionList (linesOf ['a']) ≤
      speech s.g.trace) (by decide +kernel)
  exact ⟨s₁, s, hpre, hresult, hpost, hend, of_decide_eq_true hnot⟩

/-! ## Texts with nothing in them -/

/-- Every text the engine is told to speak is there, and not all whitespace. -/
def SpeaksText (trace : List Event) : Prop :=
  ∀ c, Event.synth true c ∈ trace → c.frameflag = 0 →
    ∃ t, c.ttsText = some t ∧ t ≠ [] ∧ ∃ x ∈ t, x ∉ whitespaces

/-- The engine hears a blank text when `trim` leaves nothing that counts in front of the
first NUL. -/
theorem blank_dispatch_iff {vecExceptionList : List Text} {l t : Text}
    (hlen : l.length < 2 ^ 63) (h : dispatch vecExceptionList l = some t) :
    Blank (cstr t) ↔ MuteCut l := by
  obtain ⟨-, u, htrim, hu, rfl⟩ := dispatch_eq_some_iff.1 h
  rw [cstr_dropCr, blank_dropCr]
  exact blank_cstr_trim_iff hlen htrim hu

theorem dispatch_of_muteCut {vecExceptionList : List Text} {l : Text}
    (hlen : l.length < 2 ^ 63) (hexc : isExceptionalText vecExceptionList l = false)
    (h : MuteCut l) : ∃ t, dispatch vecExceptionList l = some t := by
  obtain ⟨u, htrim, hu⟩ := trim_of_muteCut hlen h
  exact ⟨dropCr u, dispatch_eq_some_iff.2 ⟨hexc, u, htrim, hu, rfl⟩⟩

theorem mem_voiced {trace : List Event} {k : Int} {t : Text} :
    (k, t) ∈ voiced trace ↔ ∃ c, Event.synth true c ∈ trace ∧ c.frameflag = 0 ∧ c.curIdx = k ∧
      c.line = t := by
  rw [voiced, mem_total_worth]
  refine exists_congr fun c => and_congr_right ?_
  intro _
  by_cases hflag : c.frameflag = 0 <;> simp [SynthCall.voiced, hflag, eq_comm]

theorem mem_speech {trace : List Event} {k : Int} {t : Text} :
    (k, t) ∈ speech trace ↔ ∃ c, Event.synth true c ∈ trace ∧ c.frameflag = 0 ∧ c.curIdx = k ∧
      c.ttsText.getD [] = t := by
  rw [speech, mem_total_worth]
  refine exists_congr fun c => and_congr_right ?_
  intro _
  by_cases hflag : c.frameflag = 0 <;> simp [SynthCall.spoken, hflag, eq_comm]

/-- **What the engine is told to speak is made of a line**, in every run. -/
theorem Ledger.spoken_of {vecExceptionList lines : List Text} {g : Shared} {ws : List Worker}
    (hl : Ledger vecExceptionList lines g ws) {c : SynthCall} (hc : Event.synth true c ∈ g.trace)
    (hflag : c.frameflag = 0) :
    ∃ l ∈ lines, ∃ t, dispatch vecExceptionList l = some t ∧ c.ttsText.getD [] = cstr t := by
  have hmem : (c.curIdx, c.ttsText.getD []) ∈ speech g.trace :=
    mem_speech.2 ⟨c, hc, hflag, rfl, rfl⟩
  rw [hl.heard, Multiset.mem_map] at hmem
  obtain ⟨⟨j, t⟩, hin, heard⟩ := hmem
  obtain ⟨k, l, hl', hd, -⟩ := mem_dispatched.1
    (Multiset.mem_of_le (hl.voiced_le.trans hl.sessions_le) hin)
  exact ⟨l, List.mem_of_getElem? hl', t, hd, (Prod.mk.inj heard).2.symm⟩

/-- **No text is blank where no line is cut to a blank one.** -/
theorem Ledger.speaksText {vecExceptionList : List Text} {content : Text} {g : Shared}
    {ws : List Worker} (hl : Ledger vecExceptionList (linesOf content) g ws)
    (hlen : ∀ l ∈ linesOf content, l.length < 2 ^ 63)
    (hno : ∀ l ∈ linesOf content, isExceptionalText vecExceptionList l = false → ¬ MuteCut l) :
    SpeaksText g.trace := by
  intro c hc hflag
  obtain ⟨l, hin, u, hd, htext⟩ := hl.spoken_of hc hflag
  have hnb : ¬ Blank (c.ttsText.getD []) := fun hb =>
    hno l hin (dispatch_eq_some_iff.1 hd).1
      ((blank_dispatch_iff (hlen l hin) hd).1 (htext ▸ hb))
  cases htext : c.ttsText with
  | none =>
    rw [htext] at hnb
    exact absurd blank_nil hnb
  | some t =>
    rw [htext, Option.getD_some] at hnb
    refine ⟨t, rfl, ?_, by simpa [Blank] using hnb⟩
    rintro rfl
    exact hnb blank_nil

/-- **The engine is told to speak something, unless a line is cut to a blank one.**
In every run over a script of which no line that is not exceptional is cut to nothing
but whitespace in front of its first NUL, every text handed to the engine has another
character; and a complete run in which no session fails hands out the other kind as
well, if there is a line for it. -/
theorem speaks_text_of_run (env : Env) (content : Text) (disk : Text → Text) (acts : List Act)
    (s : Sys) (hscript : env.script = some (.ofContent content))
    (hlen : ∀ l ∈ linesOf content, l.length < 2 ^ 63)
    (hrun : run env (.start disk) acts = some s) :
    ((∀ l ∈ linesOf content, isExceptionalText env.vecExceptionList l = false → ¬ MuteCut l) →
      SpeaksText s.g.trace) ∧
    (Complete env s → NoInitFails s.g.trace → SpeaksText s.g.trace →
      ∀ l ∈ linesOf content, isExceptionalText env.vecExceptionList l = false →
        ¬ MuteCut l) := by
  have hquiet : (∀ e ∈ s.g.trace, e.Quiet) → SpeaksText s.g.trace :=
    fun hq c hc => (hq _ hc).elim
  obtain hs | hs | ⟨-, post, s₀, script, -, -, hscript', -, h₀, hpost⟩ := start_cases hrun
  · exact ⟨fun _ => hquiet hs.quiet, fun hcomplete => absurd hs.workers hcomplete.ne_nil⟩
  · exact ⟨fun _ => hquiet hs.quiet, fun hcomplete => absurd hs.workers hcomplete.ne_nil⟩
  · obtain rfl : script = .ofContent content := Option.some.inj (hscript'.symm.trans hscript)
    have hl := (ledger_of_run h₀ hpost).2
    refine ⟨hl.speaksText hlen, ?_⟩
    intro hcomplete hinit hspeaks l hin hexc hcut
    obtain ⟨t, hd⟩ := dispatch_of_muteCut (hlen l hin) hexc hcut
    obtain ⟨k, hk⟩ := List.mem_iff_getElem?.1 hin
    have hmem : heard (toInt k, t) ∈ speech s.g.trace := by
      rw [hl.heard, (hl.voiced_iff hcomplete).2 hinit]
      exact Multiset.mem_map_of_mem heard (mem_dispatched.2 ⟨k, l, hk, hd, rfl⟩)
    obtain ⟨c, hc, hflag, -, htext⟩ := mem_speech.1 hmem
    obtain ⟨u, hu, -, x, hx, hxw⟩ := hspeaks c hc hflag
    rw [hu, Option.getD_some] at htext
    exact hxw ((blank_dispatch_iff (hlen l hin) hd).2 hcut x (htext ▸ hx))

/-- The texts `"a"` and `"b"` are spoken. -/
theorem speaks_text_ab :
    ∃ s, run (twoWorkers "a\nb".toList) (.start fun _ => []) upToResult = some s ∧
      SpeaksText s.g.trace := by
  obtain ⟨s, -, hrun, -⟩ :=
    run_to_end (twoWorkers "a\nb".toList) upToResult (fun _ => true) (by decide +kernel)
  have hlines : linesOf "a\nb".toList = [['a'], ['b']] := by decide
  refine ⟨s, hrun, (speaks_text_of_run (twoWorkers "a\nb".toList) "a\nb".toList _ _ s rfl ?_
    hrun).1 ?_⟩
  · rw [hlines]
    simp
  · rw [hlines]
    intro l hl _ hcut
    have hshort : l.length < 2 ^ 31 := by
      rcases List.mem_pair.1 hl with rfl | rfl <;> simp
    have hblank := ((muteCut_iff_of_short hshort).1 hcut).2
    rcases List.mem_pair.1 hl with rfl | rfl
    · exact absurd hblank (by decide)
    · exact absurd hblank (by decide)

/-- A script of one space: the engine is told to speak the space. -/
theorem space_is_spoken :
    ∃ s, run (oneWorker [' ']) (.start fun _ => [])
        (aloneToResult [smooth 0, smooth 0, smooth 1, smooth 0, smooth 0]) = some s ∧
      ¬ SpeaksText s.g.trace := by
  have hcheck : (run (oneWorker [' ']) (.start fun _ => [])
      (aloneToResult [smooth 0, smooth 0, smooth 1, smooth 0, smooth 0])).any (fun s =>
        Event.synth true ⟨0, 0, some [' '], 1, 0, 0, [' '], 1, 0⟩ ∈ s.g.trace) = true := by
    decide +kernel
  obtain ⟨s, hrun, hmem⟩ := (Option.any_eq_true _ _).1 hcheck
  refine ⟨s, hrun, ?_⟩
  intro hspeaks
  obtain ⟨t, ht, -, x, hx, hxw⟩ := hspeaks _ (of_decide_eq_true hmem) rfl
  obtain rfl : [' '] = t := Option.some.inj ht
  rw [List.mem_singleton] at hx
  subst hx
  exact hxw (by decide)

end Run
