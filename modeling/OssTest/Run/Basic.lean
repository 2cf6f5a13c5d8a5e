import OssTest.Engine
import OssTest.Exceptions
import OssTest.Lib.Steps
import OssTest.Log.Basic

/-!
# The program as a step system

`main`, the workers (`doSynthesize`) and the load monitor (`cpu_monitor`) run as
threads over shared variables.  A state holds what they share and where each
thread stands; a step lets one thread go on to its next point, with the answers
of the operating system, the engine and the allocator in the `Outcome`.

* A section between `result_mutex.lock()` and `unlock()` is one step, taken only
  while the mutex is free; the test `!mTextin.eof()` outside, each `sprintf` into
  `msgLog` and each engine call are one step each.
* A call through a null function pointer and an exception that leaves a thread
  end the process: `terminated` is set and nothing moves any more.
-/

namespace Run

open Cpp UtilBox Exceptions EngineLog Engine

/-! ## What the threads share -/

/-- The threads of the program. -/
inductive Tid where
  | main
  | cpu
  | worker (i : ℕ)
  deriving DecidableEq, Repr

/-- The global variables. -/
structure Shared where
  /-- Who holds `result_mutex` outside its sections: a call that leaked it. -/
  resultMutex : Option Tid
  log : LogFile
  mTextin : IfStream
  mCurTextIdx : Int
  mVecExceptionList : List Text
  mThreadCnt : Int
  msgLog : Text
  bSynthFinished : Bool
  stSpec : LibSpec
  /-- What happened at the border to the engine so far. -/
  trace : List Event
  /-- The process is gone. -/
  terminated : Bool

/-- The zero-initialised globals. -/
def Shared.start (disk : Text → Text) : Shared where
  resultMutex := none
  log := .start disk
  mTextin := .closed
  mCurTextIdx := 0
  mVecExceptionList := []
  mThreadCnt := 0
  msgLog := []
  bSynthFinished := false
  stSpec := .zero
  trace := []
  terminated := false

/-- What a run is given from outside before it starts. -/
structure Env where
  mTimeInfo : Text
  argc : Int
  /-- `exceptionlist.txt`, if it opens. -/
  exceptionFile : Option IfStream
  /-- The script, if it opens. -/
  script : Option IfStream
  /-- `GET_INST(ConfigInfo)->getThreadNum()`. -/
  getThreadNum : Int
  linker : Linker
  /-- `getcwd` succeeds. -/
  getcwd : Bool

/-- What a step is told: each kind of step reads the answers it asks for. -/
structure Outcome where
  /-- For a call of `makeLogFile`. -/
  os : Observed
  /-- What the engine returns. -/
  rc : Int
  /-- What the engine leaves in `nFramesize`. -/
  nFramesize : Int
  /-- What `malloc` returns. -/
  framebuf : ℕ
  /-- What `cpu_getcmd` reads, if it returns `true`. -/
  memRes : Option Int
  /-- `printResult` can open its report file. -/
  reportOk : Bool
  /-- The total elapsed time `printResult` prints, in hundredths of a second. -/
  elapsed : ℕ

/-- Append to the trace. -/
def Shared.emit (g : Shared) (e : Event) : Shared := { g with trace := g.trace ++ [e] }

/-- The process ends here. -/
def Shared.terminate (g : Shared) : Shared := { g with terminated := true }

/-- A call of `makeLogFile` by thread `t`, which keeps the mutex when it returns
without unlocking. -/
def Shared.logged (g : Shared) (env : Env) (t : Tid) (mode : Int) (msg : Option Text)
    (os : Observed) : Shared :=
  let (log, unlocked) := EngineLog.makeLogFile env.mTimeInfo mode msg os g.log
  { g with log := log, resultMutex := if unlocked then none else some t }

/-- The call waits while the mutex is held. -/
def Shared.makeLogFile (g : Shared) (env : Env) (t : Tid) (mode : Int) (msg : Option Text)
    (os : Observed) : Option Shared :=
  if g.resultMutex = none then some (g.logged env t mode msg os) else none

/-! ## The messages -/

/-- `MAX_LOGSIZE`. -/
def maxLogsize : ℕ := 2048

/-- The record of a line: lines 997 to 1000. -/
def recordMsg (threadNum : ℕ) (curIdx : Int) (strSynthText : Text) : Text :=
  if maxLogsize - 50 < strSynthText.length then
    "[".toList ++ fmtD threadNum ++ ",".toList ++ fmtD curIdx ++ "]\r\n".toList
  else
    "[".toList ++ fmtD threadNum ++ ",".toList ++ fmtD curIdx ++ "] ".toList ++
      cstr strSynthText ++ "\r\n".toList

/-- The record of a failed engine call: line 1041. -/
def errorMsg (threadNum : ℕ) (curIdx : Int) : Text :=
  "VT_TextToBufferEX ERROR[".toList ++ fmtD threadNum ++ "]curIdx = ".toList ++ fmtD curIdx ++
    "\n".toList

/-- The record of the load monitor: line 361. -/
def memResMsg (memRes : Int) : Text := "memRes = ".toList ++ fmtD memRes ++ "\r\n".toList

/-- `%.2f` of a time in hundredths of a second. -/
def fmtF2 (n : ℕ) : Text :=
  fmtD (n / 100 : ℕ) ++ ".".toList ++ fmtD (n / 10 % 10 : ℕ) ++ fmtD (n % 10 : ℕ)

def exceptionsMsg : Text := "Exception list is empty\r\n".toList

def resultErrorMsg : Text := "[Error] Result File Open\r\n".toList

def elapsedMsg (elapsed : ℕ) : Text :=
  "Total Elpased Time(sec)\t".toList ++ fmtF2 elapsed ++ "\n".toList

def threadsMsg (mThreadCnt : Int) : Text :=
  "Threads Num\t(".toList ++ fmtD mThreadCnt ++ ")\n".toList

def finishedMsg : Text := "\nFinished!!\r\n".toList

/-! ## `doSynthesize` -/

/-- Where a worker stands, with the locals it still needs. -/
inductive WorkerPc where
  /-- Before the section that counts the thread (line 958). -/
  | start
  /-- At `if (mTextin.is_open())`. -/
  | opened
  /-- At `while (!mTextin.eof())`. -/
  | loop
  /-- Before the section that fetches a line (line 979). -/
  | fetch
  /-- With a line of its own, before `trim` (line 993). -/
  | trim (curIdx : Int) (strSynthText : Text)
  /-- Before the `sprintf` of the record (line 997). -/
  | sprintf (curIdx : Int) (strSynthText : Text)
  /-- Before `makeLogFile(1, msgLog)` (line 1001). -/
  | log (curIdx : Int) (strSynthText : Text)
  /-- Before the call that opens the channel (line 1028). -/
  | init (curIdx : Int) (strSynthText : Text)
  /-- Before `malloc` (line 1034). -/
  | malloc (curIdx : Int) (strSynthText : Text) (nFramesize : Int)
  /-- Before the call in the `do` loop (line 1038). -/
  | synth (curIdx : Int) (strSynthText : Text) (framebuf : ℕ) (frameflag : Int)
  /-- Before the `sprintf` of the error record (line 1041). -/
  | sprintfErr (curIdx : Int) (framebuf : ℕ)
  /-- Before `makeLogFile(1, msgLog)` of the error record (line 1043). -/
  | logErr (framebuf : ℕ)
  /-- Before `free` (line 1061). -/
  | free (framebuf : ℕ)
  | returned (ret : Bool)
  deriving DecidableEq, Repr

/-- A worker: the number it was started with, and where it stands. -/
structure Worker where
  threadNum : ℕ
  pc : WorkerPc
  deriving DecidableEq, Repr

/-- A line was taken from the stream: `m_curTextIdx++`. -/
def Shared.advance (g : Shared) (mTextin : IfStream) : Shared :=
  { g with mTextin := mTextin, mCurTextIdx := toInt (g.mCurTextIdx + 1) }

/-- The section of lines 979 to 990. -/
def fetchLine (g : Shared) : Shared × WorkerPc :=
  if g.mTextin.eofbit then (g, .returned true)
  else
    let (strSynthText, mTextin) := g.mTextin.getline []
    let curIdx := g.mCurTextIdx
    if isExceptionalText g.mVecExceptionList strSynthText then (g.advance mTextin, .loop)
    else (g.advance mTextin, .trim curIdx strSynthText)

/-- Lines 993 to 995, once `trim` has returned or thrown. -/
def afterTrim (g : Shared) (curIdx : Int) (line : Text) :
    Except StdException Text → Option (Shared × WorkerPc)
  | .error _ => some (g.terminate, .trim curIdx line)
  | .ok strSynthText =>
      if strSynthText = [] then some (g, .loop)
      else (replaceText strSynthText ['\r'] []).map fun t => (g, .sprintf curIdx t)

/-- One step of worker `i`. -/
def workerStep (env : Env) (i : ℕ) (o : Outcome) (g : Shared) (w : Worker) :
    Option (Shared × WorkerPc) :=
  match w.pc with
  | .start =>
      if g.resultMutex = none then some ({ g with mThreadCnt := g.mThreadCnt + 1 }, .opened)
      else none
  | .opened => some (g, if g.mTextin.isOpen then .loop else .returned true)
  | .loop => some (g, if g.mTextin.eofbit then .returned true else .fetch)
  | .fetch => if g.resultMutex = none then some (fetchLine g) else none
  | .trim curIdx strSynthText =>
      afterTrim g curIdx strSynthText (UtilBox.trim strSynthText)
  | .sprintf curIdx strSynthText =>
      some ({ g with msgLog := recordMsg w.threadNum curIdx strSynthText },
        .log curIdx strSynthText)
  | .log curIdx strSynthText =>
      (g.makeLogFile env (.worker i) 1 (some g.msgLog) o.os).map
        fun g => (g, .init curIdx strSynthText)
  | .init curIdx strSynthText =>
      if g.stSpec.func .textToBufferEX then
        some (g.emit (.synth true ⟨i, curIdx, none, 0, -1, w.threadNum, strSynthText, o.rc,
            o.nFramesize⟩),
          if o.rc < 0 then .returned false else .malloc curIdx strSynthText o.nFramesize)
      else
        some ((g.emit (.synth false ⟨i, curIdx, none, 0, -1, w.threadNum, strSynthText, o.rc,
            o.nFramesize⟩)).terminate, w.pc)
  | .malloc curIdx strSynthText nFramesize =>
      some (g.emit (.malloc w.threadNum (toSize nFramesize) o.framebuf),
        .synth curIdx strSynthText o.framebuf 0)
  | .synth curIdx strSynthText framebuf frameflag =>
      if g.stSpec.func .textToBufferEX then
        some (g.emit (.synth true ⟨i, curIdx, some (cstr strSynthText), framebuf, frameflag,
            w.threadNum, strSynthText, o.rc, o.nFramesize⟩),
          if o.rc < 0 then .sprintfErr curIdx framebuf
          else if o.rc = 0 then
            .synth curIdx strSynthText framebuf (if frameflag = 0 then frameflag + 1 else frameflag)
          else .free framebuf)
      else
        some ((g.emit (.synth false ⟨i, curIdx, some (cstr strSynthText), framebuf, frameflag,
            w.threadNum, strSynthText, o.rc, o.nFramesize⟩)).terminate, w.pc)
  | .sprintfErr curIdx framebuf =>
      some ({ g with msgLog := errorMsg w.threadNum curIdx }, .logErr framebuf)
  | .logErr framebuf =>
      (g.makeLogFile env (.worker i) 1 (some g.msgLog) o.os).map fun g => (g, .free framebuf)
  | .free framebuf => some (g.emit (.free w.threadNum framebuf), .loop)
  | .returned _ => none

/-! ## `cpu_monitor` -/

/-- Where the load monitor stands. -/
inductive CpuPc where
  /-- Not started yet. -/
  | unborn
  /-- At `while (bSynthFinished == false)`. -/
  | loop (elapsed : Int)
  /-- Asleep, before `cpu_getcmd`. -/
  | sample (elapsed : Int)
  /-- Before the `sprintf` (line 361). -/
  | sprintf (memRes : Int)
  /-- Before `makeLogFile(1, msgLog)`. -/
  | log
  | returned
  deriving DecidableEq, Repr

/-- `CPU_MONITOR_INTERVAL`. -/
def cpuMonitorInterval : Int := 30000

/-- `logintv`. -/
def logintv : Int := 10 * 60 * 1000

/-- One step of the load monitor. -/
def cpuStep (env : Env) (o : Outcome) (g : Shared) : CpuPc → Option (Shared × CpuPc)
  | .unborn => none
  | .loop elapsed => some (g, if g.bSynthFinished then .returned else .sample elapsed)
  | .sample elapsed =>
      match o.memRes with
      | none => some (g, .loop elapsed)
      | some memRes =>
          let elapsed := elapsed + cpuMonitorInterval
          some (g, if elapsed > logintv then .sprintf memRes else .loop elapsed)
  | .sprintf memRes => some ({ g with msgLog := memResMsg memRes }, .log)
  | .log => (g.makeLogFile env .cpu 1 (some g.msgLog) o.os).map fun g => (g, .loop 0)
  | .returned => none

/-! ## `main` -/

/-- Where `main` stands. -/
inductive MainPc where
  /-- Before `makeLogFile(0, NULL)`. -/
  | logStart
  | args
  /-- Before reading the exception list. -/
  | exceptions
  | logExceptions
  /-- Before opening the script. -/
  | openScript
  /-- In `init_Ext`, before `loadLib`; `length` is the script's. -/
  | initExt (length : Int)
  /-- In `init_Ext`, before the call of `VT_LOADTTS`. -/
  | loadTTS (length : Int)
  /-- In the loop that starts the workers. -/
  | spawn (threadCount : ℕ)
  /-- Before starting the load monitor. -/
  | spawnCpu
  /-- In the loop that joins the workers. -/
  | join (k : ℕ)
  | setFinished
  | joinCpu
  /-- In `printResult`, before `fopen`. -/
  | printResult
  | sprintfResult
  | logResult
  | logElapsed
  | logThreads
  /-- In `deinit_Ext`, before the call of `VT_UNLOADTTS`. -/
  | deinitExt
  /-- In `deinit_Ext`, before `unloadLib`. -/
  | unloadLib
  /-- Before `makeLogFile(2, ...)`. -/
  | logEnd
  /-- Returned, with `EXIT_SUCCESS` or `EXIT_FAILURE`. -/
  | returned (success : Bool)
  deriving DecidableEq, Repr

/-- `MAX_THREAD_NUM`. -/
def maxThreadNum : Int := 30

/-- `maxthreadcnt`: lines 810 to 813. -/
def Env.maxthreadcnt (env : Env) : ℕ :=
  (if env.getThreadNum > maxThreadNum then maxThreadNum
    else if env.getThreadNum < 1 then 1 else env.getThreadNum).toNat

/-- A state of the program. -/
structure Sys where
  main : MainPc
  workers : List Worker
  cpu : CpuPc
  g : Shared

/-- `main` goes on to `pc`. -/
def Sys.goto (s : Sys) (pc : MainPc) (g : Shared) : Sys := { s with main := pc, g := g }

/-- One step of `main`. -/
def mainStep (env : Env) (o : Outcome) (s : Sys) : Option Sys :=
  match s.main with
  | .logStart => (s.g.makeLogFile env .main 0 none o.os).map (s.goto .args)
  | .args => some (s.goto (if env.argc < 3 then .returned false else .exceptions) s.g)
  | .exceptions =>
      (readFileLine env.exceptionFile s.g.mVecExceptionList).map fun r =>
        s.goto (if r.1 then .openScript else .logExceptions) { s.g with mVecExceptionList := r.2 }
  | .logExceptions =>
      (s.g.makeLogFile env .main 1 (some exceptionsMsg) o.os).map (s.goto .openScript)
  | .openScript =>
      match env.script with
      | none => some (s.goto (.returned false) s.g)
      | some mTextin =>
          some (s.goto (.initExt (toInt mTextin.tellgEnd)) { s.g with mTextin := mTextin })
  | .initExt length =>
      let (stSpec, ok) := loadLib env.linker s.g.stSpec
      some (s.goto (if env.getcwd then .loadTTS length else .returned false)
        (({ s.g with stSpec := stSpec } : Shared).emit (.loadLib ok)))
  | .loadTTS length =>
      if s.g.stSpec.func .loadTTS then
        some (s.goto (if length > 0 then .spawn 0 else .deinitExt)
          (s.g.emit (.loadTTS true o.rc)))
      else some (s.goto s.main (s.g.emit (.loadTTS false o.rc)).terminate)
  | .spawn threadCount =>
      if threadCount < env.maxthreadcnt then
        some { s with
          main := .spawn (threadCount + 1)
          workers := s.workers ++ [⟨threadCount, .start⟩] }
      else some (s.goto .spawnCpu s.g)
  | .spawnCpu => some { s with main := .join 0, cpu := .loop 0 }
  | .join k =>
      match s.workers[k]? with
      | none => some (s.goto .setFinished s.g)
      | some w =>
          match w.pc with
          | .returned _ => some (s.goto (.join (k + 1)) s.g)
          | _ => none
  | .setFinished => some (s.goto .joinCpu { s.g with bSynthFinished := true })
  | .joinCpu => if s.cpu = .returned then some (s.goto .printResult s.g) else none
  | .printResult => some (s.goto (if o.reportOk then .logElapsed else .sprintfResult) s.g)
  | .sprintfResult => some (s.goto .logResult { s.g with msgLog := resultErrorMsg })
  | .logResult => (s.g.makeLogFile env .main 1 (some s.g.msgLog) o.os).map (s.goto .deinitExt)
  | .logElapsed =>
      (s.g.makeLogFile env .main 1 (some (elapsedMsg o.elapsed)) o.os).map (s.goto .logThreads)
  | .logThreads =>
      (s.g.makeLogFile env .main 1 (some (threadsMsg s.g.mThreadCnt)) o.os).map
        (s.goto .deinitExt)
  | .deinitExt =>
      if s.g.stSpec.func .unloadTTS then some (s.goto .unloadLib (s.g.emit (.unloadTTS true)))
      else some (s.goto s.main (s.g.emit (.unloadTTS false)).terminate)
  | .unloadLib =>
      some (s.goto .logEnd { s.g with trace := s.g.trace ++ unloadLib s.g.stSpec.handle })
  | .logEnd =>
      (s.g.makeLogFile env .main 2 (some finishedMsg) o.os).map (s.goto (.returned true))
  | .returned _ => none

/-! ## The program -/

/-- A thread takes a step. -/
structure Act where
  tid : Tid
  o : Outcome

/-- One step of the program. -/
def step (env : Env) (s : Sys) (a : Act) : Option Sys :=
  if s.g.terminated then none
  else
    match a.tid with
    | .main => mainStep env a.o s
    | .cpu => (cpuStep env a.o s.g s.cpu).map fun r => { s with g := r.1, cpu := r.2 }
    | .worker i =>
        match s.workers[i]? with
        | none => none
        | some w =>
            (workerStep env i a.o s.g w).map fun r =>
              { s with g := r.1, workers := s.workers.set i { w with pc := r.2 } }

/-- The program before `main` does anything, over whatever files are there. -/
def Sys.start (disk : Text → Text) : Sys := ⟨.logStart, [], .unborn, .start disk⟩

/-- Execute a list of steps. -/
abbrev run (env : Env) (s : Sys) (acts : List Act) : Option Sys :=
  Steps.runFrom (step env) s acts

end Run
