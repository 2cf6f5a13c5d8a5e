import OssTest.Run.Speech

/-!
# The exception list and the text that is spoken

`doSynthesize` looks for the exceptions in the line as it was read, and deletes the
`'\r'`s afterwards.  What `trim` cuts off can hide nothing, but deleting a `'\r'` joins
what stood on its two sides: `withheld_iff` says when an exception reaches the engine, and
`silent_on_exceptions_iff` when one is spoken in a run, of which the engine hears only what
stands in front of the first NUL of a text.
-/

namespace Run

open Cpp UtilBox Exceptions EngineLog Engine Steps Pool

/-- A stretch of the trimmed line reads `e`, but for the `'\r'`s in it. -/
def BrokenUp (e l : Text) : Prop :=
  ∃ w u, UtilBox.trim l = .ok w ∧ u <:+: w ∧ '\r' ∈ u ∧ dropCr u = e

/-- A string that does not occur in the line gets into the text only by being joined. -/
theorem infix_dispatch_iff {vecExceptionList : List Text} {l t e : Text}
    (hlen : l.length < 2 ^ 63) (h : dispatch vecExceptionList l = some t) (he : ¬ e <:+: l) :
    e <:+: t ↔ BrokenUp e l := by
  obtain ⟨-, w, htrim, -, rfl⟩ := dispatch_eq_some_iff.1 h
  rw [infix_dropCr_iff]
  constructor
  · rintro ⟨u, hu, rfl⟩
    refine ⟨w, u, htrim, hu, ?_, rfl⟩
    by_contra hcr
    rw [dropCr_of_not_mem hcr] at he
    exact he (hu.trans (infix_of_trim hlen htrim))
  · rintro ⟨w', u, htrim', hu, -, hue⟩
    obtain rfl : w = w' := Except.ok.inj (htrim.symm.trans htrim')
    exact ⟨u, hu, hue⟩

/-- A line that is passed on contains no exception. -/
theorem not_infix_of_dispatch {vecExceptionList : List Text} {l t e : Text}
    (h : dispatch vecExceptionList l = some t) (he : e ∈ vecExceptionList) : ¬ e <:+: l := by
  intro hin
  have hexc := isExceptionalText_iff.2 ⟨e, he, hin⟩
  rw [(dispatch_eq_some_iff.1 h).1] at hexc
  cases hexc

/-- **When the exception list withholds what it names.**  For every list and every line
that is passed on, the text that is made of the line contains none of the exceptions
exactly when none of them is broken up by `'\r'`s in the trimmed line. -/
theorem withheld_iff (vecExceptionList : List Text) (l t : Text) (hlen : l.length < 2 ^ 63)
    (h : dispatch vecExceptionList l = some t) :
    (∀ e ∈ vecExceptionList, ¬ e <:+: t) ↔ ∀ e ∈ vecExceptionList, ¬ BrokenUp e l := by
  refine forall₂_congr fun e he => not_congr ?_
  exact infix_dispatch_iff hlen h (not_infix_of_dispatch h he)

/-- The `'\r'` at the end of a line joins nothing. -/
theorem withheld_fo_ol :
    dispatch ["foo".toList] "fo ol\r".toList = some "fo ol".toList ∧
      ((∀ e ∈ ["foo".toList], ¬ e <:+: "fo ol".toList) ↔
        ∀ e ∈ ["foo".toList], ¬ BrokenUp e "fo ol\r".toList) := by
  have h : dispatch ["foo".toList] "fo ol\r".toList = some "fo ol".toList := by decide
  exact ⟨h, withheld_iff _ _ _ (by decide) h⟩

/-- The line `"fo\ro"` is passed on as `"foo"`, which is the exception. -/
theorem carriage_return_joins :
    (∀ e ∈ ["foo".toList], e ≠ [] ∧ '\r' ∉ e ∧ '\n' ∉ e) ∧ '\n' ∉ "fo\ro".toList ∧
      dispatch ["foo".toList] "fo\ro".toList = some "foo".toList ∧
      ¬ ∀ e ∈ ["foo".toList], ¬ e <:+: "foo".toList := by
  decide

/-- A stretch of the trimmed line in front of its first NUL reads `e`, but for the `'\r'`s
in it. -/
def HeardBrokenUp (e l : Text) : Prop :=
  ∃ w u, UtilBox.trim l = .ok w ∧ u <:+: cstr w ∧ '\r' ∈ u ∧ dropCr u = e

/-- What the engine hears of a line is its stretch in front of the first NUL. -/
theorem infix_heard_iff {vecExceptionList : List Text} {l t e : Text}
    (hlen : l.length < 2 ^ 63) (h : dispatch vecExceptionList l = some t)
    (he : e ∈ vecExceptionList) : e <:+: cstr t ↔ HeardBrokenUp e l := by
  have hno := not_infix_of_dispatch h he
  obtain ⟨-, w, htrim, -, rfl⟩ := dispatch_eq_some_iff.1 h
  rw [cstr_dropCr, infix_dropCr_iff]
  constructor
  · rintro ⟨u, hu, rfl⟩
    refine ⟨w, u, htrim, hu, ?_, rfl⟩
    by_contra hcr
    rw [dropCr_of_not_mem hcr] at hno
    exact hno ((hu.trans (cstr_prefix_self w).isInfix).trans (infix_of_trim hlen htrim))
  · rintro ⟨w', u, htrim', hu, -, hue⟩
    obtain rfl : w = w' := Except.ok.inj (htrim.symm.trans htrim')
    exact ⟨u, hu, hue⟩

/-- **When no exception is spoken in a run.**  In every run over a readable script, under
every schedule, the texts spoken contain none of the exceptions if in none of the lines that
are passed on one of them is broken up in front of the first NUL; and in a complete run with
an engine that has refused no line, only then. -/
theorem silent_on_exceptions_iff (env : Env) (content : Text) (disk : Text → Text)
    (acts : List Act) (s : Sys) (hscript : env.script = some (.ofContent content))
    (hlen : ∀ l ∈ linesOf content, l.length < 2 ^ 63)
    (hrun : run env (.start disk) acts = some s) :
    ((∀ l ∈ linesOf content, dispatch env.vecExceptionList l ≠ none →
        ∀ e ∈ env.vecExceptionList, ¬ HeardBrokenUp e l) →
      ∀ x ∈ speech s.g.trace, ∀ e ∈ env.vecExceptionList, ¬ e <:+: x.2) ∧
    (Complete env s → NoInitFails s.g.trace →
      (∀ x ∈ speech s.g.trace, ∀ e ∈ env.vecExceptionList, ¬ e <:+: x.2) →
      ∀ l ∈ linesOf content, dispatch env.vecExceptionList l ≠ none →
        ∀ e ∈ env.vecExceptionList, ¬ HeardBrokenUp e l) := by
  have hquiet : (∀ e ∈ s.g.trace, e.Quiet) → ∀ x ∈ speech s.g.trace,
      ∀ e ∈ env.vecExceptionList, ¬ e <:+: x.2 := by
    intro hq x hx
    rw [speech, total_quiet hq] at hx
    exact absurd hx (Multiset.notMem_zero x)
  obtain hs | hs | ⟨-, post, s₀, script, -, -, hscript', -, h₀, hpost⟩ := start_cases hrun
  · exact ⟨fun _ => hquiet hs.quiet, fun hcomplete => absurd hs.workers hcomplete.ne_nil⟩
  · exact ⟨fun _ => hquiet hs.quiet, fun hcomplete => absurd hs.workers hcomplete.ne_nil⟩
  · obtain rfl : script = .ofContent content := Option.some.inj (hscript'.symm.trans hscript)
    have hl := (ledger_of_run h₀ hpost).2
    refine ⟨?_, ?_⟩
    · rintro hwhole ⟨j, u⟩ hx e he hin
      obtain ⟨c, hc, hflag, -, rfl⟩ := mem_speech.1 hx
      obtain ⟨l, hmem, t, ht, htext⟩ := hl.spoken_of hc hflag
      rw [htext] at hin
      exact hwhole l hmem (by simp [ht]) e he ((infix_heard_iff (hlen l hmem) ht he).1 hin)
    · intro hcomplete hinit hsilent l hmem hpassed e he hbroken
      obtain ⟨t, ht⟩ := Option.ne_none_iff_exists'.1 hpassed
      obtain ⟨k, hk⟩ := List.mem_iff_getElem?.1 hmem
      have hspoken : heard (toInt k, t) ∈ speech s.g.trace := by
        rw [hl.heard, (hl.voiced_iff hcomplete).2 hinit]
        exact Multiset.mem_map_of_mem heard (mem_dispatched.2 ⟨k, l, hk, ht, rfl⟩)
      exact hsilent _ hspoken e he ((infix_heard_iff (hlen l hmem) ht he).2 hbroken)

/-- One worker, the line `"fo\ro"` and the exception `"foo"`. -/
def joinedFoo : Env :=
  { oneWorker "fo\ro".toList with exceptionFile := some (.ofContent "foo".toList) }

/-- The worker speaks its line and returns. -/
def joinedFooRun : List Act :=
  List.replicate 7 ⟨.main, smooth 0⟩ ++ List.replicate 9 ⟨.worker 0, smooth 0⟩ ++
    List.replicate 3 ⟨.worker 0, smooth 1⟩

/-- The exception is spoken. -/
theorem silent_on_exceptions_foo :
    ∃ s, run joinedFoo (.start fun _ => []) joinedFooRun = some s ∧
      ¬ ∀ x ∈ speech s.g.trace, ∀ e ∈ joinedFoo.vecExceptionList, ¬ e <:+: x.2 := by
  have hcheck : (run joinedFoo (.start fun _ => []) joinedFooRun).any (fun s =>
      s.workers = [⟨0, .returned true⟩] && NoInitFails s.g.trace) = true := by
    decide +kernel
  obtain ⟨s, hrun, hs⟩ := (Option.any_eq_true _ _).1 hcheck
  simp only [Bool.and_eq_true, decide_eq_true_eq] at hs
  obtain ⟨hws, hinit⟩ := hs
  have hcomplete : Complete joinedFoo s := by
    rw [Complete, hws]
    exact ⟨by decide, by simp⟩
  have hlist : joinedFoo.vecExceptionList = ["foo".toList] := by decide +kernel
  have hbroken : HeardBrokenUp "foo".toList "fo\ro".toList :=
    ⟨"fo\ro".toList, "fo\ro".toList, by decide, List.infix_refl _, by decide, by decide⟩
  refine ⟨s, hrun, fun hsilent => ?_⟩
  have hwhole := (silent_on_exceptions_iff joinedFoo "fo\ro".toList _ joinedFooRun s rfl
    (by decide) hrun).2 hcomplete hinit hsilent
  rw [hlist] at hwhole
  exact hwhole "fo\ro".toList (by decide) (by decide) "foo".toList List.mem_cons_self hbroken

end Run
