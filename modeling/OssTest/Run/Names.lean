import OssTest.Run.Calls

/-!
# The names of the log files

A run names its log files by what the clock reads when it starts and by their index.

* `mTimeInfo_eq_iff` — different readings are printed differently, and `lognameOf_inj` no part
  of a name runs into the next.
* `Within` — a call of `makeLogFile` touches no file that it has not opened itself.
* `logs_apart_of_run` — so a run leaves alone every log of a run that started when the clock
  read otherwise.
-/

namespace Cpp

/-! ## Numbers of fixed width -/

/-- A padded number is read back without its padding. -/
theorem ofDigitChars_leftpad (p n : ℕ) :
    Nat.ofDigitChars 10 ((Nat.toDigits 10 n).leftpad p '0') 0 = n := by
  rw [List.leftpad, Nat.ofDigitChars_append, Nat.ofDigitChars_replicate_zero, mul_zero,
    Nat.ofDigitChars_ten_toDigits]

theorem isDigit_of_mem_leftpad {p n : ℕ} {c : Char}
    (h : c ∈ (Nat.toDigits 10 n).leftpad p '0') : c.isDigit = true := by
  rcases List.mem_append.1 h with h | h
  · rw [List.eq_of_mem_replicate h]
    decide
  · exact isDigit_of_mem_toDigits h

/-- **Different numbers print differently.** -/
theorem fmtPrecD_injective {p : ℕ} {m n : Int} (h : fmtPrecD p m = fmtPrecD p n) : m = n := by
  have hdash : ∀ k : ℕ, ∀ t, (Nat.toDigits 10 k).leftpad p '0' ≠ '-' :: t := fun k t hk => by
    have : ('-' : Char).isDigit = true :=
      isDigit_of_mem_leftpad (p := p) (n := k) (by rw [hk]; simp)
    exact absurd this (by decide)
  have hread : ∀ {i j : ℕ}, (Nat.toDigits 10 i).leftpad p '0' = (Nat.toDigits 10 j).leftpad p '0' →
      i = j := fun {i j} hij => by
    rw [← ofDigitChars_leftpad p i, hij, ofDigitChars_leftpad]
  unfold fmtPrecD at h
  split at h <;> split at h
  · have := hread (List.cons.inj h).2
    omega
  · exact absurd h.symm (hdash _ _)
  · exact absurd h (hdash _ _)
  · have := hread h
    omega

/-- Two digits, as long as they are enough. -/
theorem length_fmtPrecD_two {n : ℕ} (h : n < 100) : (fmtPrecD 2 n).length = 2 := by
  have hdigits : (Nat.toDigits 10 n).length ≤ 2 :=
    (Nat.length_toDigits_le_iff (by norm_num) (by norm_num)).2 (by omega)
  rw [fmtPrecD, if_neg (by omega), List.length_leftpad, Int.natAbs_natCast]
  omega

end Cpp

namespace EngineLog

open Cpp

/-! ## The time -/

/-- The `struct tm` that `localtime` fills, without the days of the week and of the year. -/
structure Tm where
  tm_year : Int
  tm_mon : Fin 12
  tm_mday : Fin 32
  tm_hour : Fin 24
  tm_min : Fin 60
  tm_sec : Fin 61
  /-- Is it daylight saving time?  Nobody prints it. -/
  tm_isdst : Int
  deriving DecidableEq

/-- `mTimeInfo`: line 694. -/
def Tm.mTimeInfo (tm : Tm) : Text :=
  fmtPrecD 4 (tm.tm_year + 1900) ++ fmtPrecD 2 (tm.tm_mon + 1 : ℕ) ++ fmtPrecD 2 (tm.tm_mday : ℕ) ++
    "_".toList ++ fmtPrecD 2 (tm.tm_hour : ℕ) ++ fmtPrecD 2 (tm.tm_min : ℕ) ++
    fmtPrecD 2 (tm.tm_sec : ℕ)

/-- The clock reads the same, in daylight saving time or not. -/
def Tm.SameClock (tm tm' : Tm) : Prop := { tm with tm_isdst := tm'.tm_isdst } = tm'

instance (tm tm' : Tm) : Decidable (tm.SameClock tm') :=
  inferInstanceAs (Decidable ({ tm with tm_isdst := tm'.tm_isdst } = tm'))

/-- Two numbers that are cut where the second has two digits. -/
theorem fmtPrecD_two_inj {u v : Text} {m n : ℕ} (hm : m < 100) (hn : n < 100)
    (h : u ++ fmtPrecD 2 m = v ++ fmtPrecD 2 n) : u = v ∧ m = n := by
  obtain ⟨huv, hmn⟩ := List.append_inj' h
    ((length_fmtPrecD_two hm).trans (length_fmtPrecD_two hn).symm)
  exact ⟨huv, Int.natCast_inj.1 (fmtPrecD_injective hmn)⟩

/-- **Different readings of the clock are printed differently.** -/
theorem mTimeInfo_eq_iff {tm tm' : Tm} : tm.mTimeInfo = tm'.mTimeInfo ↔ tm.SameClock tm' := by
  constructor
  · intro h
    obtain ⟨year, mon, mday, hour, min, sec, isdst⟩ := tm
    obtain ⟨year', mon', mday', hour', min', sec', isdst'⟩ := tm'
    simp only [Tm.mTimeInfo] at h
    obtain ⟨h, hsec⟩ := fmtPrecD_two_inj (by omega) (by omega) h
    obtain ⟨h, hmin⟩ := fmtPrecD_two_inj (by omega) (by omega) h
    obtain ⟨h, hhour⟩ := fmtPrecD_two_inj (by omega) (by omega) h
    obtain ⟨h, hmday⟩ := fmtPrecD_two_inj (by omega) (by omega) (List.append_cancel_right h)
    obtain ⟨h, hmon⟩ := fmtPrecD_two_inj (by omega) (by omega) h
    have hyear := fmtPrecD_injective h
    simp only [Tm.SameClock, Tm.mk.injEq, Fin.ext_iff, and_true]
    omega
  · intro h
    rw [← show _ = tm' from h]
    rfl

/-- The last underscore in front of `_log.txt` is the one before the index. -/
theorem lognameOf_inj {t t' : Text} {i j : Int} (h : lognameOf t i = lognameOf t' j) :
    t = t' ∧ i = j := by
  have hbar : ∀ k : Int, '_' ∉ (fmtD k).reverse := fun k hk =>
    not_mem_fmtD (by decide) (by decide) (List.mem_reverse.1 hk)
  have hrev : ∀ (u : Text) (k : Int),
      (u ++ "_".toList ++ fmtD k).reverse = (fmtD k).reverse ++ '_' :: u.reverse := fun u k => by
    rw [List.reverse_append, List.reverse_append]
    rfl
  have hname : t ++ "_".toList ++ fmtD i = t' ++ "_".toList ++ fmtD j := by
    have hprefix := List.append_cancel_right h
    rw [List.append_assoc, List.append_assoc, List.append_assoc, List.append_assoc] at hprefix
    rw [List.append_assoc, List.append_assoc]
    exact List.append_cancel_left hprefix
  have hcut := congrArg (fun name => Pieces.cut ['_'] name.reverse) hname
  rw [hrev, hrev, Pieces.cut_singleton (hbar i), Pieces.cut_singleton (hbar j)] at hcut
  obtain ⟨hidx, htime⟩ := Prod.mk.inj (Option.some.inj hcut)
  exact ⟨List.reverse_injective htime, fmtD_injective (List.reverse_injective hidx)⟩

/-! ## The files a call touches -/

/-- The log has opened its own files only, and touched no other one. -/
structure Within (mTimeInfo : Text) (disk : Text → Text) (s : LogFile) : Prop where
  opened : ∀ name ∈ s.opened, ∃ idx, name = lognameOf mTimeInfo idx
  fpLog : ∀ name, s.fpLog = some name → name ∈ s.opened
  disk : ∀ name ∉ s.opened, s.disk name = disk name

theorem within_start (mTimeInfo : Text) (disk : Text → Text) :
    Within mTimeInfo disk (.start disk) :=
  ⟨nofun, nofun, fun _ _ => rfl⟩

section Within

variable {mTimeInfo : Text} {disk : Text → Text} {s : LogFile}

theorem Within.sizeCheck (h : Within mTimeInfo disk s) (mode : Int) (os : Observed) :
    Within mTimeInfo disk (sizeCheck mode os s).2 := by
  unfold EngineLog.sizeCheck
  split_ifs
  · exact ⟨h.opened, nofun, h.disk⟩
  all_goals exact h

theorem Within.openLog (h : Within mTimeInfo disk s) (os : Observed) :
    Within mTimeInfo disk (openLog mTimeInfo os s) := by
  unfold EngineLog.openLog
  dsimp only
  split_ifs
  · refine ⟨?_, ?_, ?_⟩
    · intro name hname
      rcases List.mem_append.1 hname with hname | hname
      · exact h.opened name hname
      · exact ⟨s.idxlog, List.mem_singleton.1 hname⟩
    · rintro name ⟨⟩
      simp
    · intro name hname
      simp only [List.mem_append, List.mem_singleton, not_or] at hname
      show Function.update s.disk _ _ name = disk name
      rw [Function.update_of_ne hname.2]
      exact h.disk name hname.1
  · exact ⟨h.opened, h.fpLog, h.disk⟩

theorem Within.appendMsg (h : Within mTimeInfo disk s) (msg : Option Text) :
    Within mTimeInfo disk (appendMsg msg s) := by
  unfold EngineLog.appendMsg
  split
  · exact h
  · rename_i name hname
    split_ifs
    · refine ⟨h.opened, h.fpLog, fun name' hname' => ?_⟩
      have hne : name' ≠ name := fun heq => hname' (heq ▸ h.fpLog name hname)
      show Function.update s.disk _ _ name' = disk name'
      rw [Function.update_of_ne hne]
      exact h.disk name' hname'
    · exact h

theorem Within.closeLog (h : Within mTimeInfo disk s) (mode : Int) :
    Within mTimeInfo disk (closeLog mode s) := by
  unfold EngineLog.closeLog
  split_ifs
  · exact ⟨h.opened, nofun, h.disk⟩
  · exact h

/-- **A call touches no file that the log has not opened.** -/
theorem Within.makeLogFile (h : Within mTimeInfo disk s) (mode : Int) (msg : Option Text)
    (os : Observed) : Within mTimeInfo disk (makeLogFile mTimeInfo mode msg os s).1 := by
  have hcheck := h.sizeCheck mode os
  unfold EngineLog.makeLogFile
  dsimp only
  split_ifs
  · exact hcheck.openLog os
  · exact ((hcheck.openLog os).appendMsg msg).closeLog _
  · exact (hcheck.appendMsg msg).closeLog _

theorem Within.runCalls (h : Within mTimeInfo disk s) (calls : List Call) :
    Within mTimeInfo disk (runCalls mTimeInfo s calls) := by
  induction calls generalizing s with
  | nil => exact h
  | cons c cs ih => exact ih (h.makeLogFile c.mode c.msg c.os)

end Within

end EngineLog

namespace Run

open Cpp UtilBox Exceptions EngineLog Engine Steps

/-- **The logs of runs keep apart** when the clock reads differently as they start.  Whatever
the operating system answers, `makeLogFile` opens and writes no file but those that carry the
run's own reading; every other file, and the logs of all runs with another reading among
them, it leaves as they were. -/
theorem logs_apart_of_run (tm : Tm) (env : Env) (htime : env.mTimeInfo = tm.mTimeInfo)
    (disk : Text → Text) (acts : List Act) (s : Sys)
    (hrun : run env (.start disk) acts = some s) :
    (∀ name ∈ s.g.log.opened, ∃ idx, name = lognameOf tm.mTimeInfo idx) ∧
      (∀ name ∉ s.g.log.opened, s.g.log.disk name = disk name) ∧
      ∀ tm' : Tm, ¬ tm'.SameClock tm → ∀ idx, s.g.log.disk (lognameOf tm'.mTimeInfo idx) =
        disk (lognameOf tm'.mTimeInfo idx) := by
  have hwithin : Within tm.mTimeInfo disk s.g.log := by
    rw [log_eq_runCalls hrun, htime]
    exact (within_start _ disk).runCalls _
  refine ⟨hwithin.opened, hwithin.disk, fun tm' hne idx => hwithin.disk _ fun hmem => ?_⟩
  obtain ⟨idx', hname⟩ := hwithin.opened _ hmem
  exact hne (mTimeInfo_eq_iff.1 (lognameOf_inj hname).1)

/-- The last second of 1999. -/
def newYearsEve : Tm := ⟨99, 11, 31, 23, 59, 59, 0⟩

example : newYearsEve.mTimeInfo = "19991231_235959".toList := by decide

/-- A run leaves the log of another second alone. -/
theorem logs_apart_a :
    ∃ s, run { oneWorker ['a'] with mTimeInfo := newYearsEve.mTimeInfo } (.start fun _ => ['x'])
        (List.replicate 4 ⟨.main, smooth 0⟩) = some s ∧
      s.g.log.disk "ENGINE_19991231_235959_0_log.txt".toList = exceptionsMsg ∧
      s.g.log.disk "ENGINE_20000101_000000_0_log.txt".toList = ['x'] := by
  have hcheck : (run { oneWorker ['a'] with mTimeInfo := newYearsEve.mTimeInfo }
      (.start fun _ => ['x']) (List.replicate 4 ⟨.main, smooth 0⟩)).any (fun s =>
        s.g.log.disk "ENGINE_19991231_235959_0_log.txt".toList = exceptionsMsg) = true := by
    decide +kernel
  obtain ⟨s, hrun, hdisk⟩ := (Option.any_eq_true _ _).1 hcheck
  have hname : "ENGINE_20000101_000000_0_log.txt".toList =
      lognameOf (Tm.mTimeInfo ⟨100, 0, 1, 0, 0, 0, 0⟩) 0 := by decide
  refine ⟨s, hrun, of_decide_eq_true hdisk, ?_⟩
  rw [hname]
  exact (logs_apart_of_run newYearsEve _ rfl _ _ s hrun).2.2 _ (by decide) 0

end Run
