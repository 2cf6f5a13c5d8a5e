import OssTest.Lib.Outputs
import OssTest.Lib.Stride
import OssTest.Run.Shutdown
import OssTest.Run.Speech

/-!
# What the load monitor reports

The monitor samples the memory again and again, keeps every sample in `mVecMem`, and
prints one of them into `msgLog` when the intervals it has counted exceed ten minutes.

* `MonitorCounts` — what the monitor has counted, by where it stands.
* `reports_of_run` — in every run the samples reported are every 21st, none left out and
  none reported twice.
-/

namespace Run

open Cpp UtilBox Exceptions EngineLog Engine Steps Stride

/-- The sample a step of the monitor appends to `mVecMem`. -/
def sampleOf (s : Sys) (a : Act) : Option Int :=
  match a.tid, s.cpu with
  | .cpu, .sample _ => a.o.memRes
  | _, _ => none

/-- The sample a step of the monitor prints into `msgLog`. -/
def reportOf (s : Sys) (a : Act) : Option Int :=
  match a.tid, s.cpu with
  | .cpu, .sprintf memRes => some memRes
  | _, _ => none

/-- `mVecMem` at the end of a run. -/
def mVecMem (env : Env) (disk : Text → Text) (acts : List Act) : List Int :=
  outputs (step env) sampleOf (.start disk) acts

/-- The samples reported in a run, in order. -/
def reports (env : Env) (disk : Text → Text) (acts : List Act) : List Int :=
  outputs (step env) reportOf (.start disk) acts

/-- The samples behind which `elapsed` exceeds `logintv`; behind one less it is the same. -/
def samplesPerReport : ℕ := 21

/-- The sample the monitor is about to report. -/
def CpuPc.due : CpuPc → List Int
  | .sprintf memRes => [memRes]
  | _ => []

/-- **What the monitor has counted**, by where it stands: `elapsed` counts the samples
since the last report. -/
def MonitorCounts (mVecMem reports : List Int) : CpuPc → Prop
  | .unborn => mVecMem = [] ∧ reports = []
  | .loop elapsed | .sample elapsed => reports = everyNth samplesPerReport mVecMem ∧
      elapsed = cpuMonitorInterval * (mVecMem.length % samplesPerReport : ℕ)
  | .sprintf memRes => reports ++ [memRes] = everyNth samplesPerReport mVecMem ∧
      mVecMem.length % samplesPerReport = 0
  | .log => reports = everyNth samplesPerReport mVecMem ∧
      mVecMem.length % samplesPerReport = 0
  | .returned => reports = everyNth samplesPerReport mVecMem

theorem MonitorCounts.reports {mVecMem reports : List Int} {cpu : CpuPc}
    (h : MonitorCounts mVecMem reports cpu) :
    reports ++ cpu.due = everyNth samplesPerReport mVecMem := by
  cases cpu with
  | unborn =>
    obtain ⟨rfl, rfl⟩ := h
    simp [CpuPc.due]
  | loop | sample | log => simpa [CpuPc.due] using h.1
  | sprintf => exact h.1
  | returned => simpa [CpuPc.due, MonitorCounts] using h

/-- `elapsed` exceeds `logintv` behind every 21st sample. -/
theorem logintv_lt_iff (n : ℕ) :
    cpuMonitorInterval * (n % samplesPerReport : ℕ) + cpuMonitorInterval > logintv ↔
      samplesPerReport ∣ n + 1 := by
  simp only [cpuMonitorInterval, logintv, samplesPerReport]
  omega

theorem elapsed_succ {n : ℕ} (h : ¬ samplesPerReport ∣ n + 1) :
    cpuMonitorInterval * (n % samplesPerReport : ℕ) + cpuMonitorInterval =
      cpuMonitorInterval * ((n + 1) % samplesPerReport : ℕ) := by
  simp only [cpuMonitorInterval, samplesPerReport] at h ⊢
  omega

/-- One more sample. -/
theorem counts_sample {mVecMem reports : List Int} {elapsed memRes : Int} {cpu' : CpuPc}
    (h : MonitorCounts mVecMem reports (.sample elapsed))
    (hcpu : (if elapsed + cpuMonitorInterval > logintv then CpuPc.sprintf memRes
      else .loop (elapsed + cpuMonitorInterval)) = cpu') :
    MonitorCounts (mVecMem ++ [memRes]) reports cpu' := by
  obtain ⟨rfl, rfl⟩ := h
  have hconcat := everyNth_concat (show 0 < samplesPerReport by decide) mVecMem memRes
  have hlen : (mVecMem ++ [memRes]).length = mVecMem.length + 1 := by simp
  by_cases hdvd : samplesPerReport ∣ mVecMem.length + 1
  · rw [if_pos ((logintv_lt_iff _).2 hdvd)] at hcpu
    rw [if_pos hdvd] at hconcat
    subst hcpu
    refine ⟨hconcat.symm, ?_⟩
    rw [hlen]
    exact Nat.mod_eq_zero_of_dvd hdvd
  · rw [if_neg fun hlt => hdvd ((logintv_lt_iff _).1 hlt), elapsed_succ hdvd] at hcpu
    rw [if_neg hdvd] at hconcat
    subst hcpu
    exact ⟨hconcat.symm, by rw [hlen]⟩

section Step

variable {env : Env} {s s' : Sys} {a : Act} {mVecMem reports : List Int}

/-- **A step of the monitor** counts the sample it takes. -/
theorem counts_cpu {g' : Shared} {cpu' : CpuPc} (htid : a.tid = .cpu)
    (h : cpuStep env a.o s.g s.cpu = some (g', cpu'))
    (hs : MonitorCounts mVecMem reports s.cpu) :
    MonitorCounts (mVecMem ++ (sampleOf s a).toList) (reports ++ (reportOf s a).toList) cpu' := by
  rw [sampleOf, reportOf, htid]
  cases hcpu : s.cpu with
  | unborn | returned =>
    rw [hcpu] at h
    cases h
  | loop elapsed =>
    rw [hcpu] at h hs
    cases h
    cases s.g.bSynthFinished with
    | true => simpa [MonitorCounts] using hs.1
    | false => simpa [MonitorCounts] using hs
  | sample elapsed =>
    rw [hcpu] at h hs
    simp only [cpuStep] at h
    cases hread : a.o.memRes with
    | none =>
      rw [hread] at h
      cases h
      simpa [MonitorCounts] using hs
    | some memRes =>
      rw [hread] at h
      simpa using counts_sample hs (Prod.mk.inj (Option.some.inj h)).2
  | sprintf memRes =>
    rw [hcpu] at h hs
    cases h
    simpa [MonitorCounts] using hs
  | log =>
    rw [hcpu] at h hs
    obtain ⟨-, hlog⟩ := logged_of_map h
    cases hlog
    simpa [MonitorCounts, hs.2] using hs.1

/-- `main` and the workers take no sample and report none. -/
theorem outputs_of_ne_cpu (htid : a.tid ≠ .cpu) : sampleOf s a = none ∧ reportOf s a = none := by
  constructor
  · rw [sampleOf]
    split
    · rename_i hcpu _
      exact absurd hcpu htid
    · rfl
  · rw [reportOf]
    split
    · rename_i hcpu _
      exact absurd hcpu htid
    · rfl

/-- `main` starts the monitor before it has counted anything. -/
theorem counts_main {o : Outcome} (h : MainMove env o s s.main s')
    (hat : MonitorAt s.cpu s.g.bSynthFinished s.main)
    (hs : MonitorCounts mVecMem reports s.cpu) : MonitorCounts mVecMem reports s'.cpu := by
  generalize s.main = pc at h hat
  cases h with
  | spawnCpu =>
    rw [hat.1] at hs
    obtain ⟨rfl, rfl⟩ := hs
    exact ⟨by simp, rfl⟩
  | _ => exact hs

end Step

/-- **The monitor counts its samples**, in every run. -/
theorem counts_of_run {env : Env} {disk : Text → Text} {acts : List Act} {s : Sys}
    (hrun : run env (.start disk) acts = some s) :
    MonitorCounts (mVecMem env disk acts) (reports env disk acts) s.cpu := by
  have hstep : ∀ as t a t', run env (.start disk) as = some t →
      MonitorCounts (mVecMem env disk as) (reports env disk as) t.cpu → step env t a = some t' →
      MonitorCounts (mVecMem env disk (as ++ [a])) (reports env disk (as ++ [a])) t'.cpu := by
    intro as t a t' has ht hmove
    rw [mVecMem, reports, outputs_concat has hmove, outputs_concat has hmove]
    cases step_move hmove with
    | main htid h =>
      obtain ⟨hsample, hreport⟩ := outputs_of_ne_cpu (s := t) (a := a) (by simp [htid])
      rw [hsample, hreport, Option.toList_none, List.append_nil, List.append_nil]
      exact counts_main h (monitor_of_run has) ht
    | cpu htid _ => exact counts_cpu htid (cpuStep_of_step htid hmove) ht
    | worker htid _ _ =>
      obtain ⟨hsample, hreport⟩ := outputs_of_ne_cpu (s := t) (a := a) (by simp [htid])
      rw [hsample, hreport, Option.toList_none, List.append_nil, List.append_nil]
      exact ht
  have hnil : MonitorCounts (mVecMem env disk []) (reports env disk []) (Sys.start disk).cpu :=
    ⟨rfl, rfl⟩
  exact runFrom_history (P := fun as t =>
    MonitorCounts (mVecMem env disk as) (reports env disk as) t.cpu) hnil hstep hrun

/-- **Every 21st sample is reported.**  In every run the samples reported, with the one
about to be, are the last of every 21 samples taken; once `main` has returned `EXIT_SUCCESS`
none is about to be. -/
theorem reports_of_run (env : Env) (disk : Text → Text) (acts : List Act) (s : Sys)
    (hrun : run env (.start disk) acts = some s) :
    reports env disk acts ++ s.cpu.due = everyNth samplesPerReport (mVecMem env disk acts) ∧
      (s.main = .returned true →
        reports env disk acts = everyNth samplesPerReport (mVecMem env disk acts)) := by
  have hreports := (counts_of_run hrun).reports
  refine ⟨hreports, fun hmain => ?_⟩
  obtain hcpu | hcpu := (over_of_success hrun hmain).cpu <;>
    simpa [hcpu, CpuPc.due] using hreports

/-- The monitor takes 21 samples and prints the report. -/
def twentyOneSamples : List Act :=
  List.replicate 10 ⟨.main, smooth 0⟩ ++
    ((List.range 21).flatMap fun k =>
      [⟨.cpu, smooth 0⟩, ⟨.cpu, { smooth 0 with memRes := some (k : Int) }⟩]) ++
    [⟨.cpu, smooth 0⟩]

/-- The one sample reported is the last of them. -/
theorem reports_twentyOne :
    ∃ s, run (oneWorker ['a']) (.start fun _ => []) twentyOneSamples = some s ∧
      s.cpu = .log ∧
      everyNth samplesPerReport
        (mVecMem (oneWorker ['a']) (fun _ => []) twentyOneSamples) = [20] := by
  have hcheck : (run (oneWorker ['a']) (.start fun _ => []) twentyOneSamples).any (fun s =>
      s.cpu = .log && reports (oneWorker ['a']) (fun _ => []) twentyOneSamples = [20]) = true := by
    decide +kernel
  obtain ⟨s, hrun, hs⟩ := (Option.any_eq_true _ _).1 hcheck
  simp only [Bool.and_eq_true, decide_eq_true_eq] at hs
  obtain ⟨hcpu, hreports⟩ := hs
  have hall := (reports_of_run _ _ _ s hrun).1
  rw [hreports, hcpu] at hall
  exact ⟨s, hrun, hcpu, hall.symm⟩

end Run
