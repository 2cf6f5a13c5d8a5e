import OssTest.Cpp.Text
import OssTest.Lib.Segments
import Mathlib.Logic.Function.Basic

/-!
# `makeLogFile`

The log of a run is written by `makeLogFile(mode, msg)`, by every thread and
under `result_mutex`.  Mode 0 opens the log, mode 1 appends to it, mode 2 appends
and closes; a log file that has grown beyond `MAX_LOG_SIZE` is closed and the
next one opened inside the call that finds it so.

The function is translated block by block: `sizeCheck` (lines 877 to 887),
`openLog` (889 to 894), `appendMsg` (901 to 903) and `closeLog` (905 to 910).
What the operating system answers during a call is an argument: the position
`tellg` reports for the log file, `-1` where it cannot be opened, and whether
`fopen` succeeds.

`makeLogFile_eq` puts the blocks together: it says what a call does, by whether it
opens a file and whether `fopen` succeeds.
-/

namespace EngineLog

open Cpp

/-- `MAX_LOG_SIZE`. -/
def maxLogSize : ℕ := 200 * 1024 * 1024

/-- What `makeLogFile` keeps between calls, and the files it writes. -/
structure LogFile where
  /-- The file `fpLog` points to. -/
  fpLog : Option Text
  /-- The static `logname`, empty before the first file. -/
  logname : Text
  /-- The static `idxlog`. -/
  idxlog : Int
  /-- The static `sizecheckcnt`. -/
  sizecheckcnt : Int
  /-- The contents of the files, by name. -/
  disk : Text → Text
  /-- The names `fopen` has opened, and so truncated, in order. -/
  opened : List Text

/-- The log before the first call, over whatever files are there. -/
def LogFile.start (disk : Text → Text) : LogFile := ⟨none, [], 0, 0, disk, []⟩

/-- What the operating system answers during one call. -/
structure Observed where
  /-- `tellg()` of a stream opened at the end of the log file. -/
  tellg : Int
  /-- Whether `fopen` succeeds. -/
  fopenOk : Bool

/-- The name of log file `idx`. -/
def lognameOf (mTimeInfo : Text) (idx : Int) : Text :=
  "ENGINE_".toList ++ mTimeInfo ++ "_".toList ++ fmtD idx ++ "_log.txt".toList

/-- Is the file larger than a log file may be?  A failed `tellg` is `-1`, the
largest `size_t`. -/
def Observed.oversize (os : Observed) : Bool := maxLogSize < toSize os.tellg

/-- Lines 877 to 887: an oversize log is closed, and the mode becomes 0. -/
def sizeCheck (mode : Int) (os : Observed) (s : LogFile) : Int × LogFile :=
  if s.sizecheckcnt % 20 = 0 then
    if mode ≠ 2 ∧ os.oversize = true then
      if s.fpLog ≠ none then (0, { s with fpLog := none }) else (mode, s)
    else (mode, s)
  else (mode, s)

/-- Lines 890 to 893: the next log file. -/
def openLog (mTimeInfo : Text) (os : Observed) (s : LogFile) : LogFile :=
  let logname := lognameOf mTimeInfo s.idxlog
  if os.fopenOk then
    { s with
      fpLog := some logname
      logname := logname
      idxlog := toInt (s.idxlog + 1)
      disk := Function.update s.disk logname []
      opened := s.opened ++ [logname] }
  else { s with logname := logname, idxlog := toInt (s.idxlog + 1) }

/-- The bytes of a message: nothing for `NULL`. -/
def msgText (msg : Option Text) : Text := msg.getD []

/-- Lines 901 to 903: the message goes to the open file, if there is one. -/
def appendMsg (msg : Option Text) (s : LogFile) : LogFile :=
  match s.fpLog with
  | none => s
  | some name =>
      if msg ≠ none ∧ 0 < (msgText msg).length then
        { s with disk := Function.update s.disk name (s.disk name ++ msgText msg) }
      else s

/-- Lines 905 to 910. -/
def closeLog (mode : Int) (s : LogFile) : LogFile :=
  if mode = 2 then { s with fpLog := none } else s

/-- `makeLogFile(mode, msg)`: the log afterwards, and whether the call got as far
as `result_mutex.unlock()`. -/
def makeLogFile (mTimeInfo : Text) (mode : Int) (msg : Option Text) (os : Observed)
    (s : LogFile) : LogFile × Bool :=
  let (mode, s) := sizeCheck mode os s
  if s.fpLog = none ∧ mode = 0 then
    let s := openLog mTimeInfo os s
    if s.fpLog = none then (s, false)
    else (closeLog mode (appendMsg msg s), true)
  else (closeLog mode (appendMsg msg s), true)

/-- One call: its arguments, and what the operating system answers. -/
structure Call where
  mode : Int
  msg : Option Text
  os : Observed

/-- A sequence of calls. -/
def runCalls (mTimeInfo : Text) (s : LogFile) (calls : List Call) : LogFile :=
  calls.foldl (fun s c => (makeLogFile mTimeInfo c.mode c.msg c.os s).1) s

/-- Does the call open a file?  It does when the log is closed and the mode is 0,
or when it is open, the mode is not 2 and the file is oversize. -/
def opens (isOpen : Bool) (mode : Int) (os : Observed) : Bool :=
  if isOpen then mode != 2 && os.oversize else mode == 0

theorem lognameOf_injective {mTimeInfo : Text} {i j : Int}
    (h : lognameOf mTimeInfo i = lognameOf mTimeInfo j) : i = j := by
  unfold lognameOf at h
  exact fmtD_injective (List.append_cancel_left (List.append_cancel_right h))

/-! ## One call -/

theorem openLog_fpLog {mTimeInfo : Text} {os : Observed} {s : LogFile} (h : os.fopenOk = true) :
    (openLog mTimeInfo os s).fpLog = some (lognameOf mTimeInfo s.idxlog) := by
  simp [openLog, h]

/-- **What a call does** while `sizecheckcnt` stands at 0, which it always does. -/
theorem makeLogFile_eq {mTimeInfo : Text} {mode : Int} {msg : Option Text} {os : Observed}
    {s : LogFile} (hcnt : s.sizecheckcnt = 0) :
    makeLogFile mTimeInfo mode msg os s =
      if opens s.fpLog.isSome mode os then
        if os.fopenOk then (closeLog mode (appendMsg msg (openLog mTimeInfo os s)), true)
        else (openLog mTimeInfo os { s with fpLog := none }, false)
      else (closeLog mode (appendMsg msg s), true) := by
  cases hfp : s.fpLog with
  | none =>
    by_cases hmode : mode = 0
    · cases hok : os.fopenOk <;>
        simp [makeLogFile, sizeCheck, opens, hcnt, hfp, hmode, hok, openLog]
    · simp [makeLogFile, sizeCheck, opens, hcnt, hfp, hmode]
  | some name =>
    by_cases hmode : mode = 2
    · simp [makeLogFile, sizeCheck, opens, hcnt, hfp, hmode]
    · cases hbig : os.oversize with
      | false => simp [makeLogFile, sizeCheck, opens, hcnt, hfp, hmode, hbig]
      | true =>
        cases hok : os.fopenOk <;>
          simp [makeLogFile, sizeCheck, opens, hcnt, hfp, hmode, hbig, hok, openLog, closeLog]

@[simp] theorem appendMsg_sizecheckcnt (msg : Option Text) (s : LogFile) :
    (appendMsg msg s).sizecheckcnt = s.sizecheckcnt := by
  unfold appendMsg; split <;> [rfl; (split <;> rfl)]

@[simp] theorem closeLog_sizecheckcnt (mode : Int) (s : LogFile) :
    (closeLog mode s).sizecheckcnt = s.sizecheckcnt := by
  unfold closeLog; split <;> rfl

@[simp] theorem openLog_sizecheckcnt (mTimeInfo : Text) (os : Observed) (s : LogFile) :
    (openLog mTimeInfo os s).sizecheckcnt = s.sizecheckcnt := by
  unfold openLog; dsimp only; split <;> rfl

/-- The counter that gates the size check is never moved. -/
theorem makeLogFile_sizecheckcnt {mTimeInfo : Text} {mode : Int} {msg : Option Text}
    {os : Observed} {s : LogFile} (hcnt : s.sizecheckcnt = 0) :
    (makeLogFile mTimeInfo mode msg os s).1.sizecheckcnt = 0 := by
  rw [makeLogFile_eq hcnt]
  split
  · split <;> simp [hcnt]
  · simp [hcnt]

end EngineLog
