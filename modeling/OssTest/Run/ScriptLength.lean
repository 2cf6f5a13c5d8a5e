import OssTest.Run.ExactlyOnce

/-!
# The length of the script

`main` asks for the length of the script, keeps it in an `int`, and starts the workers if
that is positive.

* `main_of_tests` — what the test decides.
* `length_test_iff` — when that is whether the script is empty.
-/

namespace Run

open Cpp UtilBox Exceptions EngineLog Engine Steps

/-- `main` makes the length test in this step: the engine is loaded, and it goes on. -/
def Tests (s s' : Sys) : Prop := (∃ length, s.main = .loadTTS length) ∧ s'.main ≠ s.main

/-- Where a run over this script stands: before the test, or behind it on one side. -/
inductive Tested (env : Env) (script : IfStream) (s : Sys) : Prop where
  | early (h : Early env s)
  | skipped (h : Skipped s) (hlen : toInt script.tellgEnd ≤ 0)
  | joining (h : Joining env s) (hlen : 0 < toInt script.tellgEnd)

section Step

variable {env : Env} {script : IfStream} {s s' : Sys} {a : Act}

/-- The test is made on the length of the script. -/
theorem Early.loadTTS (hs : Early env s) (hscript : env.script = some script) {length : Int}
    (hmain : s.main = .loadTTS length) : length = toInt script.tellgEnd := by
  have hat := hs.at_main
  rw [hmain] at hat
  obtain ⟨-, htext, hlength⟩ := hat
  obtain rfl : script = s.g.mTextin := Option.some.inj (hscript.symm.trans htext)
  exact hlength

/-- A script is skipped when its length is not positive. -/
theorem Early.length_of_skipped (hs : Early env s) (hscript : env.script = some script)
    (h : Move env s a s') (hskipped : Skipped s') : toInt script.tellgEnd ≤ 0 := by
  obtain ⟨-, hmain⟩ := h.main_of_alone hs.workers hs.cpu
  have hat := hs.at_main
  have hbehind := hskipped.main
  have hload : ∀ length, s.main = .loadTTS length → length = toInt script.tellgEnd :=
    fun _ hpc => hs.loadTTS hscript hpc
  generalize s.main = pc at hmain hat hload
  cases hmain with
  | loadTTSEmpty hres hlen =>
    rw [← hload _ rfl]
    exact hlen
  | logStart | argsShort | args | exceptions | noExceptions | logExceptions | noScript
  | openScript | initExtFails | initExt | loadTTSNull | loadTTS =>
    rcases hbehind with hpc | hpc | hpc | hpc <;> cases hpc
  | _ => exact hat.elim

theorem Tested.step (hs : Tested env script s) (hscript : env.script = some script)
    (h : Move env s a s') : Tested env script s' := by
  cases hs with
  | early hs =>
    obtain hs' | hs' | ⟨script', hscript', hlen, hlaunch⟩ := hs.step h
    · exact .early hs'
    · exact .skipped hs' (hs.length_of_skipped hscript h hs')
    · obtain rfl : script' = script := Option.some.inj (hscript'.symm.trans hscript)
      exact .joining hlaunch.joining hlen
  | skipped hs hlen => exact .skipped (hs.step h) hlen
  | joining hs hlen => exact .joining (hs.step h) hlen

end Step

/-- **Where a run stands.** -/
theorem tested_of_run {env : Env} {script : IfStream} {disk : Text → Text} {acts : List Act}
    {s : Sys} (hscript : env.script = some script) (hrun : run env (.start disk) acts = some s) :
    Tested env script s := by
  have hstep : ∀ t a t', Tested env script t → step env t a = some t' → Tested env script t' :=
    fun t a t' ht hmove => ht.step hscript (step_move hmove)
  exact runFrom_invariant hstep hrun (.early (early_start env disk))

/-- **What the test decides.** -/
theorem main_of_tests {env : Env} {script : IfStream} {disk : Text → Text} {acts : List Act}
    {s s' : Sys} {a : Act} (hscript : env.script = some script)
    (hrun : run env (.start disk) acts = some s) (hstep : step env s a = some s')
    (htest : Tests s s') : s'.main = .spawn 0 ↔ 0 < toInt script.tellgEnd := by
  obtain ⟨⟨length, hmain⟩, hgoes⟩ := htest
  cases tested_of_run hscript hrun with
  | early hs =>
    have hlength := hs.loadTTS hscript hmain
    obtain ⟨-, hmove⟩ := (step_move hstep).main_of_alone hs.workers hs.cpu
    rw [hmain] at hmove hgoes
    cases hmove with
    | loadTTSNull hres => exact absurd rfl hgoes
    | loadTTS hres hlen => exact iff_of_true rfl (hlength ▸ hlen)
    | loadTTSEmpty hres hlen => exact iff_of_false nofun (not_lt.2 (hlength ▸ hlen))
  | skipped hs hlen =>
    rcases hs.main with hpc | hpc | hpc | hpc <;> rw [hmain] at hpc <;> cases hpc
  | joining hs hlen =>
    have hlate := hs.late
    rw [hmain] at hlate
    exact hlate.elim

/-- A run that comes to its end has started workers exactly if the test let it. -/
theorem workers_of_finished {env : Env} {script : IfStream} {disk : Text → Text}
    {acts : List Act} {s : Sys} (hscript : env.script = some script)
    (hrun : run env (.start disk) acts = some s) (hmain : s.main = .returned true) :
    s.workers ≠ [] ↔ 0 < toInt script.tellgEnd := by
  cases tested_of_run hscript hrun with
  | early hs =>
    have hat := hs.at_main
    rw [hmain] at hat
    cases hat
  | skipped hs hlen => exact iff_of_false (not_not.2 hs.workers) (not_lt.2 hlen)
  | joining hs hlen =>
    refine iff_of_true ?_ hlen
    intro hnil
    have hcount := hs.length
    rw [hmain, hnil] at hcount
    have hone := (maxthreadcnt_bounds env).1
    have hzero : 0 = env.maxthreadcnt := hcount
    omega

/-! ## When the test is whether the script is empty -/

/-- A run over any script comes to the test, and from the side on which no worker is
started it comes to a normal end. -/
theorem reaches_test (content : Text) : ∃ g g' g'' : Shared,
    run (oneWorker content) (.start fun _ => []) (List.replicate 6 ⟨.main, smooth 0⟩) =
      some ⟨.loadTTS (toInt (IfStream.ofContent content).tellgEnd), [], .unborn, g⟩ ∧
    step (oneWorker content)
        ⟨.loadTTS (toInt (IfStream.ofContent content).tellgEnd), [], .unborn, g⟩
        ⟨.main, smooth 0⟩ =
      some ⟨if toInt (IfStream.ofContent content).tellgEnd > 0 then .spawn 0 else .deinitExt,
        [], .unborn, g'⟩ ∧
    run (oneWorker content) ⟨.deinitExt, [], .unborn, g'⟩
        (List.replicate 3 ⟨.main, smooth 0⟩) =
      some ⟨.returned true, [], .unborn, g''⟩ :=
  ⟨_, _, _, rfl, rfl, rfl⟩

/-- Some run makes the test. -/
theorem exists_tests (content : Text) : ∃ acts s s',
    run (oneWorker content) (.start fun _ => []) acts = some s ∧
      step (oneWorker content) s ⟨.main, smooth 0⟩ = some s' ∧ Tests s s' := by
  obtain ⟨g, g', -, hrun, hstep, -⟩ := reaches_test content
  refine ⟨_, _, _, hrun, hstep, ⟨_, rfl⟩, ?_⟩
  dsimp only
  split <;> exact nofun

/-- The length that is tested is positive for these numbers of bytes. -/
theorem toInt_tellgEnd_pos_iff (content : Text) :
    0 < toInt (IfStream.ofContent content).tellgEnd ↔
      0 < content.length % 2 ^ 32 ∧ content.length % 2 ^ 32 < 2 ^ 31 :=
  toInt_natCast_pos_iff

/-- **When a script is run.**  The test lets the workers start exactly for the scripts that
are not empty, in every run over this script, if and only if the script is empty or the
number of its bytes modulo `2 ^ 32` is that of a positive `int`.  And a run that comes to
a normal end has started workers exactly in the second case. -/
theorem length_test_iff (content : Text) :
    ((∀ env disk acts s a s', env.script = some (.ofContent content) →
        run env (.start disk) acts = some s → step env s a = some s' → Tests s s' →
        (s'.main = .spawn 0 ↔ content ≠ [])) ↔
      content = [] ∨ (0 < content.length % 2 ^ 32 ∧ content.length % 2 ^ 32 < 2 ^ 31)) ∧
    ∀ env disk acts s, env.script = some (.ofContent content) →
      run env (.start disk) acts = some s → s.main = .returned true →
      (s.workers ≠ [] ↔ 0 < content.length % 2 ^ 32 ∧ content.length % 2 ^ 32 < 2 ^ 31) := by
  refine ⟨⟨?_, ?_⟩, ?_⟩
  · intro hdecides
    obtain ⟨acts, s, s', hrun, hstep, htest⟩ := exists_tests content
    have hasked := main_of_tests rfl hrun hstep htest
    rw [hdecides _ _ acts s _ s' rfl hrun hstep htest, toInt_tellgEnd_pos_iff] at hasked
    exact or_iff_not_imp_left.2 hasked.1
  · intro hcontent env disk acts s a s' hscript hrun hstep htest
    rw [main_of_tests hscript hrun hstep htest, toInt_tellgEnd_pos_iff]
    constructor
    · rintro ⟨hpos, -⟩ rfl
      exact absurd hpos (lt_irrefl 0)
    · exact hcontent.resolve_left
  · intro env disk acts s hscript hrun hmain
    rw [workers_of_finished hscript hrun hmain, toInt_tellgEnd_pos_iff]

/-- A script of 2 GiB is taken for empty: its length is negative as an `int`, and `main`
comes to its normal end without a worker. -/
theorem two_gib_are_skipped :
    ∃ content env disk acts s a s' acts' t, content = List.replicate (2 ^ 31) 'a' ∧
      content ≠ [] ∧ content.length < 2 ^ 63 ∧ env.script = some (.ofContent content) ∧
      run env (.start disk) acts = some s ∧ step env s a = some s' ∧ Tests s s' ∧
      s'.main ≠ .spawn 0 ∧ run env s' acts' = some t ∧ t.main = .returned true ∧
      t.workers = [] := by
  have hlength : (List.replicate (2 ^ 31) 'a').length = 2 ^ 31 := List.length_replicate
  have hneg : ¬ toInt (IfStream.ofContent (List.replicate (2 ^ 31) 'a')).tellgEnd > 0 := by
    rw [gt_iff_lt, toInt_tellgEnd_pos_iff, hlength]
    decide
  obtain ⟨g, g', g'', hrun, hstep, hend⟩ := reaches_test (List.replicate (2 ^ 31) 'a')
  rw [if_neg hneg] at hstep
  refine ⟨_, oneWorker _, fun _ => [], _, _, _, _, _, _, rfl, ?_, ?_, rfl, hrun, hstep,
    ⟨⟨_, rfl⟩, nofun⟩, nofun, hend, rfl, rfl⟩
  · rw [← List.length_pos_iff_ne_nil, hlength]
    decide
  · rw [hlength]
    decide

end Run
