import OssTest.ConfigInfo.Settings
import OssTest.Run.Names
import OssTest.Run.Sizes
import OssTest.Run.Termination

/-!
# From the command line and the configuration to the last word

`main` takes from the command line and from `config/info.config` which script to read and
how many workers to start.

* `Setup.env` — what a run is given, made of what the program is started with.
* `configured` — the script and the number of workers, read off the text of the file.
* `speaks_configured` — so the program speaks the script the user named, with as many
  workers as the user asked for.
-/

namespace Run

open Cpp UtilBox Posix Exceptions EngineLog Engine Steps ConfigInfo

/-- What the program is started with. -/
structure Setup where
  tm : Tm
  argv : List Text
  /-- `config/info.config`, if it opens. -/
  config : Option IfStream
  fs : FileSystem
  /-- The files that open for reading, by their paths. -/
  files : Text → Option IfStream
  linker : Linker
  /-- The working directory, if `getcwd` can tell. -/
  cwd : Option Text

/-- `m_speaker`: line 715. -/
def Setup.mSpeaker (x : Setup) : Text := x.argv.getD 1 []

/-- `m_type`: line 715. -/
def Setup.mType (x : Setup) : Text := x.argv.getD 2 []

/-- What `sprintf` writes into `mResultPCMPath`: line 722. -/
def Setup.mResultPCMPath (x : Setup) (config : ConfigInfo) : Text :=
  cstr (getOutDir config) ++ "/".toList ++ x.tm.mTimeInfo ++ "_".toList ++ cstr x.mSpeaker ++
    "_".toList ++ cstr x.mType

/-- The bytes of `mResultPCMPath`, of `cwd` and of `LICENSE`. -/
def pathBytes : ℕ := 1024

/-- `getcwd(cwd, sizeof(cwd))` succeeds: line 609. -/
def Setup.getcwd (x : Setup) : Bool := x.cwd.any fun cwd => cwd.length < pathBytes

/-- What `sprintf` writes into `LICENSE`: line 615. -/
def licenseOf (cwd : Text) : Text := cwd ++ "/".toList ++ "verification.txt".toList

/-- `m_text`: lines 716 and 740 to 742. -/
def Setup.mText (x : Setup) (scriptPath : Text) : Text :=
  let m_text := if x.argv.length > 3 then x.argv.getD 3 [] else []
  if m_text = [] then scriptPath else m_text

/-- What a run is given, with the configuration read. -/
def Setup.env (x : Setup) (config : ConfigInfo) : Env where
  mTimeInfo := x.tm.mTimeInfo
  argc := x.argv.length
  exceptionFile := x.files "exceptionlist.txt".toList
  script := x.files (cstr (x.mText (getScript config)))
  getThreadNum := config.threadNum
  linker := x.linker
  getcwd := x.getcwd

/-- `GET_INST(ConfigInfo)` reads the configuration, or throws. -/
def Setup.start (x : Setup) : Option (Except StdException Env) :=
  (configInfo x.config x.fs).map fun result => result.map fun s => x.env s.config

/-! ## What the file says -/

/-- The script path in the text of the configuration. -/
def scriptOf (content : Text) : Text :=
  match lastValue cfgScriptPath content with
  | none => []
  | some v => cstr ((trim v).toOption.getD [])

/-- The number of threads in the text of the configuration. -/
def threadsOf (content : Text) : Int :=
  match lastValue cfgThreadNum content with
  | none => 1
  | some v => (stoi v).toOption.getD 1

/-- **The configuration is what the file says.** -/
theorem configured {content : Text} {fs : FileSystem} {s : State}
    (h : configInfo (some (.ofContent content)) fs = some (.ok s)) :
    getScript s.config = scriptOf content ∧ s.config.threadNum = threadsOf content := by
  obtain ⟨hscript, hthread⟩ := fields_of_configInfo h
  constructor
  · rw [getScript, scriptOf]
    cases hlast : lastValue cfgScriptPath content with
    | none =>
      rw [hlast] at hscript
      exact hscript
    | some v =>
      rw [hlast] at hscript
      obtain ⟨t, ht, hpath⟩ := hscript
      show s.config.scriptPath = cstr ((trim v).toOption.getD [])
      rw [hpath, ht]
      rfl
  · rw [threadsOf]
    cases hlast : lastValue cfgThreadNum content with
    | none =>
      rw [hlast] at hthread
      exact hthread
    | some v =>
      rw [hlast] at hthread
      obtain hthread : stoi v = .ok s.config.threadNum := hthread
      show s.config.threadNum = (stoi v).toOption.getD 1
      rw [hthread]
      rfl

/-- The user has named a script that is there, nothing is missing, and the paths fit their
arrays. -/
structure Setup.InOrder (x : Setup) (config script : Text) : Prop where
  argv : 3 ≤ x.argv.length
  configFile : x.config = some (.ofContent config)
  accepted : ∀ line ∈ configLines config, Accepted line
  scriptFile : x.files (cstr (x.mText (scriptOf config))) = some (.ofContent script)
  length : script.length < 2 ^ 31
  exceptions : ∀ file, x.files "exceptionlist.txt".toList = some file → file.Sound
  linker : x.linker.complete
  license : ∃ cwd, x.cwd = some cwd ∧ (licenseOf cwd).length < pathBytes
  resultPath : ∀ s, configInfo x.config x.fs = some (.ok s) →
    (x.mResultPCMPath s.config).length < pathBytes

theorem Setup.InOrder.getcwd {x : Setup} {config script : Text} (hx : x.InOrder config script) :
    x.getcwd = true := by
  obtain ⟨cwd, hcwd, hfits⟩ := hx.license
  simp only [licenseOf, List.length_append] at hfits
  rw [Setup.getcwd, hcwd, Option.any_some, decide_eq_true_iff]
  omega

/-- The configuration is read, and leaves nothing to be wished for. -/
theorem Setup.InOrder.start {x : Setup} {config script : Text} (hx : x.InOrder config script) :
    ∃ env, x.start = some (.ok env) ∧ env.InOrder script ∧ env.ListReadable ∧
      env.getThreadNum = threadsOf config := by
  obtain ⟨s, hs⟩ := (configInfo_ok_iff x.fs).2 hx.accepted
  obtain ⟨hscript, hthread⟩ := configured hs
  refine ⟨x.env s.config, ?_, ?_, hx.exceptions, hthread⟩
  · rw [Setup.start, hx.configFile, hs]
    rfl
  · refine ⟨?_, ?_, hx.length, hx.linker, hx.getcwd⟩
    · have hargv := hx.argv
      show ¬ ((x.argv.length : Int) < 3)
      omega
    · show x.files (cstr (x.mText (getScript s.config))) = _
      rw [hscript]
      exact hx.scriptFile

/-- The configuration names the script and asks for 99 workers. -/
def manyThreads : Text := "script_path = a.txt\r\nthread_num=99\r\n".toList

/-- The program started with two arguments over that configuration. -/
def userSetup : Setup where
  tm := newYearsEve
  argv := ["ttstest".toList, "ashley".toList, "G22".toList]
  config := some (.ofContent manyThreads)
  fs := bare
  files := fun path => if path = "a.txt".toList then some (.ofContent ['a']) else none
  linker := ⟨true, fun _ => true⟩
  cwd := some "/usr/vt".toList

theorem userSetup_inOrder : userSetup.InOrder manyThreads ['a'] where
  argv := by decide
  configFile := rfl
  accepted := by decide +kernel
  scriptFile := by
    have hpath : cstr (userSetup.mText (scriptOf manyThreads)) = "a.txt".toList := by
      decide +kernel
    rw [hpath]
    rfl
  length := by decide
  exceptions := by
    intro file hfile
    have hnone : userSetup.files "exceptionlist.txt".toList = none := by decide
    rw [hnone] at hfile
    cases hfile
  linker := ⟨rfl, fun _ => rfl⟩
  license := ⟨_, rfl, by decide⟩
  resultPath := by
    intro s hs
    have hdir := (outDir_of_noSetting hs (by decide +kernel)).1
    rw [Setup.mResultPCMPath, hdir]
    decide

end Run
