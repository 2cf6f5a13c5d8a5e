import OssTest.Run.Monitor
import OssTest.Run.Sizes

/-!
# The report of `printResult`

When it is all over `main` writes a report: the time it took, the number of threads, the
load, and of the memory samples so many that the list stays short.

* `memLines_eq` — the loop over `mVecMem` writes every `nStepCnt`-th sample, under its own
  index, and `at` never throws.
* `report_of_run` — what the report of a run holds.
-/

namespace Run

open Cpp UtilBox Exceptions EngineLog Engine Steps Stride

/-! ## The loop over the samples -/

/-- `mVecMem.at(nIdx)`. -/
def vectorAt (mVecMem : List Int) (nIdx : ℕ) : Except StdException Int :=
  match mVecMem[nIdx]? with
  | some memRes => .ok memRes
  | none => .error .outOfRange

/-- `"[%06d] %d\n"`. -/
def memLine (nIdx : ℕ) (memRes : Int) : Text :=
  "[".toList ++ fmtWidthD 6 (toInt nIdx) ++ "] ".toList ++ fmtD memRes ++ "\n".toList

/-- `nStepCnt`, which moves the loop on. -/
def nStepCnt (nMemSize : ℕ) : { n : ℕ // 0 < n } :=
  if h : nMemSize ≥ 20 then ⟨nMemSize / 10, by omega⟩ else ⟨1, by decide⟩

/-- The loop that writes the samples, over what the file holds. -/
def memLines (mVecMem : List Int) (nStepCnt : { n : ℕ // 0 < n }) (fpResult : Text) (nIdx : ℕ) :
    Except StdException Text :=
  if nIdx < mVecMem.length then do
    let memRes ← vectorAt mVecMem nIdx
    memLines mVecMem nStepCnt (fpResult ++ memLine nIdx memRes) (nIdx + nStepCnt)
  else .ok fpResult
termination_by mVecMem.length - nIdx
decreasing_by
  have := nStepCnt.2
  omega

/-- The lines of samples, each with its index. -/
def memText (samples : List (Int × ℕ)) : Text := samples.flatMap fun x => memLine x.2 x.1

/-- **The loop writes every `nStepCnt`-th sample** and does not throw. -/
theorem memLines_eq (mVecMem : List Int) (n : { n : ℕ // 0 < n }) (fpResult : Text) (nIdx : ℕ) :
    memLines mVecMem n fpResult nIdx =
      .ok (fpResult ++ memText (stride n (mVecMem.zipIdx.drop nIdx))) := by
  fun_induction memLines mVecMem n fpResult nIdx with
  | case1 fpResult nIdx hlt ih =>
    have hzip : nIdx < mVecMem.zipIdx.length := by simpa using hlt
    have hat : vectorAt mVecMem nIdx = .ok mVecMem[nIdx] := by
      rw [vectorAt, List.getElem?_eq_getElem hlt]
    have hdrop : (mVecMem.zipIdx.drop (nIdx + 1)).drop (n - 1) =
        mVecMem.zipIdx.drop (nIdx + n) := by
      have := n.2
      rw [List.drop_drop]
      congr 1
      omega
    rw [hat, ok_bind, ih, List.drop_eq_getElem_cons hzip, stride_cons, hdrop]
    simp [memText]
  | case2 fpResult nIdx hge =>
    rw [List.drop_of_length_le (by simpa using hge), stride_nil]
    simp [memText]

/-! ## The report -/

/-- What stands in the report in front of the load. -/
def reportHead (elapsed : ℕ) (mThreadCnt : Int) : Text :=
  "Engine Info\t, , , , \n".toList ++ elapsedMsg elapsed ++ threadsMsg mThreadCnt

/-- The head of the samples. -/
def resHead (nMemSize : ℕ) : Text :=
  "\nRES[interval:".toList ++ fmtD (cpuMonitorInterval / 1000) ++ "(sec)]\n".toList ++
    "nStepCnt=".toList ++ fmtD (toInt (nStepCnt nMemSize : ℕ)) ++ ", ".toList ++
    fmtD (toInt nMemSize) ++ "\n".toList

/-- The file `printResult` writes; `cpu` is the line of the three loads, as `double`s. -/
def report (elapsed : ℕ) (mThreadCnt : Int) (cpu : Text) (mVecMem : List Int) :
    Except StdException Text :=
  memLines mVecMem (nStepCnt mVecMem.length)
    (reportHead elapsed mThreadCnt ++ "\nMIN CPU\tMAX CPU\tAVG. CPU\n".toList ++ cpu ++
      resHead mVecMem.length) 0

theorem nStepCnt_of_lt {n : ℕ} (h : n < 20) : (nStepCnt n : ℕ) = 1 := by
  rw [nStepCnt, dif_neg (by omega)]

theorem nStepCnt_of_ge {n : ℕ} (h : 20 ≤ n) : (nStepCnt n : ℕ) = n / 10 := by
  rw [nStepCnt, dif_pos h]

/-- The samples the report shows, each with its index. -/
def shown (mVecMem : List Int) : List (Int × ℕ) :=
  stride (nStepCnt mVecMem.length) mVecMem.zipIdx

/-- Fewer than 20 samples are all shown, -/
theorem shown_of_lt {mVecMem : List Int} (h : mVecMem.length < 20) :
    shown mVecMem = mVecMem.zipIdx := by
  rw [shown, nStepCnt_of_lt h, stride_one]

/-- and of more of them 10 to 15. -/
theorem length_shown {mVecMem : List Int} (h : 20 ≤ mVecMem.length) :
    10 ≤ (shown mVecMem).length ∧ (shown mVecMem).length ≤ 15 := by
  have hlen := length_stride (nStepCnt mVecMem.length).2 mVecMem.zipIdx
  rw [List.length_zipIdx] at hlen
  rw [shown, hlen, nStepCnt_of_ge h]
  constructor
  · rw [Nat.le_div_iff_mul_le (by omega)]
    omega
  · refine Nat.lt_succ_iff.1 ((Nat.div_lt_iff_lt_mul (by omega)).2 ?_)
    omega

theorem report_eq (elapsed : ℕ) (mThreadCnt : Int) (cpu : Text) (mVecMem : List Int) :
    report elapsed mThreadCnt cpu mVecMem =
      .ok (reportHead elapsed mThreadCnt ++ "\nMIN CPU\tMAX CPU\tAVG. CPU\n".toList ++ cpu ++
        resHead mVecMem.length ++ memText (shown mVecMem)) := by
  rw [report, memLines_eq, List.drop_zero, shown]

/-- When `main` comes to the report all threads have returned. -/
theorem complete_of_printResult {env : Env} {disk : Text → Text} {acts : List Act} {s : Sys}
    (hrun : run env (.start disk) acts = some s) (hmain : s.main = .printResult) :
    Complete env s := by
  obtain hs | hs | ⟨-, post, s₀, script, -, -, -, -, h₀, hpost⟩ := start_cases hrun
  · have hat := hs.at_main
    rw [hmain] at hat
    exact hat.elim
  · obtain hpc | hpc | hpc := hs.main <;> simp [hmain] at hpc
  · exact (joining_of_run h₀ hpost).complete (by rw [hmain]; rfl) (by rw [hmain]; rfl)

/-- **The report of a run.**  Whenever `main` comes to the report it is written to its end.
It gives the number of threads `main` was to start, and of the samples of the whole run all
when they are fewer than 20, and otherwise 10 to 15 of them: those at the multiples of one
step, from the first on. -/
theorem report_of_run (env : Env) (disk : Text → Text) (acts : List Act) (s : Sys)
    (elapsed : ℕ) (cpu : Text) (hrun : run env (.start disk) acts = some s)
    (hmain : s.main = .printResult) :
    report elapsed s.g.mThreadCnt cpu (mVecMem env disk acts) =
        .ok (reportHead elapsed env.maxthreadcnt ++ "\nMIN CPU\tMAX CPU\tAVG. CPU\n".toList ++
          cpu ++ resHead (mVecMem env disk acts).length ++
          memText (shown (mVecMem env disk acts))) ∧
      (∀ j : ℕ, (shown (mVecMem env disk acts))[j]? =
        ((mVecMem env disk acts)[j * nStepCnt (mVecMem env disk acts).length]?).map
          fun memRes => (memRes, j * nStepCnt (mVecMem env disk acts).length)) ∧
      ((mVecMem env disk acts).length < 20 →
        (shown (mVecMem env disk acts)).length = (mVecMem env disk acts).length) ∧
      (20 ≤ (mVecMem env disk acts).length → 10 ≤ (shown (mVecMem env disk acts)).length ∧
        (shown (mVecMem env disk acts)).length ≤ 15) := by
  have hcnt : s.g.mThreadCnt = env.maxthreadcnt := by
    rw [mThreadCnt_of_run hrun, counted_of_complete (complete_of_printResult hrun hmain)]
  refine ⟨?_, fun j => ?_, fun hlt => ?_, length_shown⟩
  · rw [hcnt, report_eq]
  · rw [shown, getElem?_stride (nStepCnt _).2, List.getElem?_zipIdx, zero_add]
  · rw [shown_of_lt hlt, List.length_zipIdx]

/-- What `top` says in 20 rounds of the monitor. -/
def twentyMemRes : List Int := (List.range 20).map fun k : ℕ => 40 + (k : Int)

/-- The monitor takes 20 samples, and then the workers speak their lines. -/
def twentySamples : List Act :=
  List.replicate 11 ⟨.main, smooth 0⟩ ++
    (twentyMemRes.flatMap fun memRes =>
      [⟨.cpu, smooth 0⟩, ⟨.cpu, { smooth 0 with memRes := some memRes }⟩]) ++
    inTurns ++ List.replicate 4 ⟨.main, smooth 0⟩ ++ [⟨.cpu, smooth 0⟩, ⟨.main, smooth 0⟩]

/-- Every second of them is shown in the report. -/
theorem report_twentySamples :
    ∃ s, run (twoWorkers "a\nb".toList) (.start fun _ => []) twentySamples = some s ∧
      report 5 s.g.mThreadCnt [] twentyMemRes = .ok (reportHead 5 2 ++
        "\nMIN CPU\tMAX CPU\tAVG. CPU\n".toList ++ resHead 20 ++
        ("[000000] 40\n[000002] 42\n[000004] 44\n[000006] 46\n[000008] 48\n" ++
          "[000010] 50\n[000012] 52\n[000014] 54\n[000016] 56\n[000018] 58\n").toList) := by
  have hcheck : (run (twoWorkers "a\nb".toList) (.start fun _ => []) twentySamples).any (fun s =>
      s.main = .printResult &&
        mVecMem (twoWorkers "a\nb".toList) (fun _ => []) twentySamples = twentyMemRes) = true := by
    decide +kernel
  obtain ⟨s, hrun, hs⟩ := (Option.any_eq_true _ _).1 hcheck
  simp only [Bool.and_eq_true, decide_eq_true_eq] at hs
  obtain ⟨hmain, hmem⟩ := hs
  have hall := (report_of_run _ _ _ s 5 [] hrun hmain).1
  rw [hmem] at hall
  have hlen : twentyMemRes.length = 20 := by decide
  have hlines : memText (shown twentyMemRes) =
      ("[000000] 40\n[000002] 42\n[000004] 44\n[000006] 46\n[000008] 48\n" ++
        "[000010] 50\n[000012] 52\n[000014] 54\n[000016] 56\n[000018] 58\n").toList := by
    decide +kernel
  have hcnt : (twoWorkers "a\nb".toList).maxthreadcnt = 2 := by decide
  rw [hlen, hcnt, hlines, List.append_nil] at hall
  exact ⟨s, hrun, hall⟩

end Run
