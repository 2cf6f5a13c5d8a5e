import OssTest.Cpp.Scan
import OssTest.Lib.Overwrite
import OssTest.Posix
import OssTest.UtilBox.Split

/-!
# The configuration

`ConfigInfo` reads `config/info.config` when it is constructed: every line with exactly
one `'='` is a setting, and what stands before the `'='`, trimmed, is its key.  Of three
keys the value is stored; that of `output_path` is made a directory first if it is none.
`log_level`, which the file that comes with the program sets as well, is not among them.

* `LineMove` — what a line can do; `applied_eq_some_iff` says that it does nothing else.
* `accepted_iff` — which lines throw no exception.
* `configInfo_eq_ok_iff` — the constructor is the run of these steps over the lines.
-/

open Cpp UtilBox Posix Steps

/-- The fields of the class `ConfigInfo`. -/
structure ConfigInfo where
  scriptPath : Text
  outputPath : Text
  threadNum : Int
  deriving DecidableEq, Repr

namespace ConfigInfo

/-- The object under construction, and the file system it works on. -/
structure State where
  fs : FileSystem
  config : ConfigInfo

/-- `DEFAULT_OUTPUT_DIR` -/
def defaultOutputDir : Text := "./output".toList

/-- `CFG_SCRIPT_PATH` -/
def cfgScriptPath : Text := "script_path".toList

/-- `CFG_OUTPUT_PATH` -/
def cfgOutputPath : Text := "output_path".toList

/-- `CFG_THREADNUM` -/
def cfgThreadNum : Text := "thread_num".toList

/-! ## The constructor -/

/-- `strConfigOutDir.erase(strConfigOutDir.find_last_not_of("\\/") + 1)` -/
def stripSeparators (strConfigOutDir : Text) : Except StdException Text :=
  erase strConfigOutDir (toSize (posOf (findLastNotOf strConfigOutDir ['\\', '/']) + 1)) npos

/-- Lines 93 to 110: make the directory, or else the default one. -/
def makeOutDir (strOutDir : Text) (s : State) : State :=
  match s.fs.mkdir (cstr strOutDir) with
  | none =>
      { fs := (s.fs.mkdir defaultOutputDir).getD s.fs
        config := { s.config with outputPath := defaultOutputDir } }
  | some fs => { fs := fs, config := { s.config with outputPath := cstr strOutDir } }

/-- Lines 76 to 110: the branch of `output_path`. -/
def setOutputPath (strConfigOutDir : Text) (s : State) : Except StdException State :=
  if strConfigOutDir ≠ [] then do
    let strConfigOutDir ← stripSeparators strConfigOutDir
    if (s.fs.stat (cstr strConfigOutDir)).any fun stMode => stMode &&& sIfdir ≠ 0 then
      pure { s with config := { s.config with outputPath := strConfigOutDir } }
    else
      pure (makeOutDir strConfigOutDir s)
  else pure (makeOutDir defaultOutputDir s)

/-- What `prepareConfig` does with the two pieces of a setting. -/
def applySetting (strName strValue : Text) (s : State) : Except StdException State := do
  let strConfigName ← trim strName
  if strConfigName = cfgScriptPath then do
    let strScriptPath ← trim strValue
    pure { s with config := { s.config with scriptPath := cstr strScriptPath } }
  else if strConfigName = cfgOutputPath then do
    let strConfigOutDir ← trim strValue
    setOutputPath strConfigOutDir s
  else if strConfigName = cfgThreadNum then do
    let n ← stoi strValue
    pure { s with config := { s.config with threadNum := n } }
  else pure s

/-- The body of the loop of `prepareConfig`. -/
def applyLine (line : Text) (s : State) : Option (Except StdException State) :=
  (split line [] ['='] 1).map fun splitList =>
    match splitList with
    | [strName, strValue] => applySetting strName strValue s
    | _ => .ok s

/-- The loop of `prepareConfig`. -/
def applyLines : List Text → State → Option (Except StdException State)
  | [], s => some (.ok s)
  | line :: lines, s =>
      match applyLine line s with
      | none => none
      | some (.error e) => some (.error e)
      | some (.ok s') => applyLines lines s'

/-- `prepareConfig()`, on the file that `CONFIG_PATH` leads to.  It returns `true`
wherever it returns. -/
def prepareConfig (file : Option IfStream) (s : State) : Option (Except StdException State) :=
  (readFileLine file []).bind fun (_, listLine) =>
    if 0 < listLine.length then applyLines listLine s else some (.ok s)

/-- The object before `prepareConfig` is called. -/
def start (fs : FileSystem) : State := ⟨fs, ⟨[], "output".toList, 1⟩⟩

/-- The constructor. -/
def configInfo (file : Option IfStream) (fs : FileSystem) : Option (Except StdException State) :=
  prepareConfig file (start fs)

/-- `getScript()` -/
def getScript (config : ConfigInfo) : Text := config.scriptPath

/-- `getOutDir()` -/
def getOutDir (config : ConfigInfo) : Text := config.outputPath

/-! ## Settings -/

/-- The lines of the file, without their `'\r'`s. -/
def configLines (content : Text) : List Text := (linesOf content).map dropCr

/-- The two sides of a line with exactly one `'='`. -/
def settingOf (line : Text) : Option (Text × Text) :=
  match line.splitOn '=' with
  | [strName, strValue] => some (strName, strValue)
  | _ => none

/-- The value of a line that is a setting with this key. -/
def valueOf (key line : Text) : Option Text :=
  (settingOf line).bind fun setting =>
    if trim setting.1 = .ok key then some setting.2 else none

/-- **A setting is a line with exactly one `'='`.** -/
theorem settingOf_eq_none_iff {line : Text} : settingOf line = none ↔ line.count '=' ≠ 1 := by
  have hlen := length_splitOn '=' line
  unfold settingOf
  split
  · rename_i heq
    rw [heq] at hlen
    simp only [List.length_cons, List.length_nil] at hlen
    exact iff_of_false nofun (by omega)
  · rename_i hno
    refine iff_of_true rfl ?_
    intro hone
    rw [hone] at hlen
    obtain ⟨strName, strValue, heq⟩ := List.length_eq_two.1 hlen
    exact hno _ _ heq

theorem settingOf_append {strName strValue : Text} (hname : '=' ∉ strName)
    (hvalue : '=' ∉ strValue) :
    settingOf (strName ++ '=' :: strValue) = some (strName, strValue) := by
  rw [settingOf, List.splitOn_append_cons_self_of_not_mem hname, List.splitOn_eq_singleton hvalue]

theorem valueOf_eq_some_iff {key line v : Text} :
    valueOf key line = some v ↔
      ∃ strName, settingOf line = some (strName, v) ∧ trim strName = .ok key := by
  rw [valueOf, Option.bind_eq_some_iff]
  constructor
  · rintro ⟨⟨strName, strValue⟩, hset, hv⟩
    dsimp only at hv
    split at hv
    · rename_i htrim
      cases hv
      exact ⟨strName, hset, htrim⟩
    · cases hv
  · rintro ⟨strName, hset, htrim⟩
    refine ⟨_, hset, ?_⟩
    rw [if_pos htrim]

/-- A setting has one key. -/
theorem valueOf_eq_none {key key' line v : Text} (h : valueOf key line = some v)
    (hne : key' ≠ key) : valueOf key' line = none := by
  obtain ⟨strName, hset, htrim⟩ := valueOf_eq_some_iff.1 h
  rw [valueOf, hset, Option.bind_some, if_neg]
  rw [htrim]
  exact fun heq => hne (Except.ok.inj heq).symm

/-! ## What a line does -/

/-- What `prepareConfig` makes of a line. -/
inductive LineMove (line : Text) (s : State) : State → Prop
  | noSetting (h : settingOf line = none) : LineMove line s s
  | otherKey {strName strValue key : Text} (h : settingOf line = some (strName, strValue))
      (hkey : trim strName = .ok key)
      (hno : key ∉ [cfgScriptPath, cfgOutputPath, cfgThreadNum]) : LineMove line s s
  | script {v t : Text} (h : valueOf cfgScriptPath line = some v) (ht : trim v = .ok t) :
      LineMove line s { s with config := { s.config with scriptPath := cstr t } }
  | output {v t : Text} {s' : State} (h : valueOf cfgOutputPath line = some v)
      (ht : trim v = .ok t) (hs : setOutputPath t s = .ok s') : LineMove line s s'
  | thread {v : Text} {n : Int} (h : valueOf cfgThreadNum line = some v) (hn : stoi v = .ok n) :
      LineMove line s { s with config := { s.config with threadNum := n } }

/-- The line throws no exception: a key can be trimmed, and so can a path; a number of
threads is a number that fits an `int`. -/
def Accepted (line : Text) : Prop :=
  ∀ strName strValue, settingOf line = some (strName, strValue) →
    ∃ key, trim strName = .ok key ∧
      (key = cfgScriptPath ∨ key = cfgOutputPath → ∃ t, trim strValue = .ok t) ∧
      (key = cfgThreadNum → ∃ n, stoi strValue = .ok n)

/-- A step of the loop that throws no exception. -/
def applied (s : State) (line : Text) : Option State :=
  (applyLine line s).bind Except.toOption

theorem applyLine_eq (line : Text) (s : State) :
    applyLine line s = some (match settingOf line with
      | some (strName, strValue) => applySetting strName strValue s
      | none => .ok s) := by
  rw [applyLine, split_all (List.cons_ne_nil _ _), Pieces.pieces_singleton, List.nil_append,
    Option.map_some, settingOf]
  cases line.splitOn '=' with
  | nil => rfl
  | cons strName rest =>
    cases rest with
    | nil => rfl
    | cons strValue rest =>
      cases rest with
      | nil => rfl
      | cons _ _ => rfl

/-- Away from a setting there is nothing to do. -/
theorem applied_of_noSetting {line : Text} (h : settingOf line = none) (s : State) :
    applied s line = some s := by
  rw [applied, applyLine_eq, h]
  rfl

theorem applied_of_setting {line strName strValue : Text} {s s' : State}
    (h : settingOf line = some (strName, strValue)) :
    applied s line = some s' ↔ applySetting strName strValue s = .ok s' := by
  rw [applied, applyLine_eq, h, Option.bind_some, toOption_eq_some_iff]

/-- Stripping the separators never throws: there is no position behind the last. -/
theorem stripSeparators_ok (text : Text) : ∃ d, stripSeparators text = .ok d := by
  have hpos : toSize (posOf (findLastNotOf text ['\\', '/']) + 1) ≤ text.length := by
    cases hlast : findLastNotOf text ['\\', '/'] with
    | none => exact Nat.zero_le _
    | some i =>
      obtain ⟨hi, -⟩ := findLastNotOf_spec hlast
      simp only [posOf, toSize]
      omega
  rw [stripSeparators, erase, if_neg (not_lt.2 hpos)]
  exact ⟨_, rfl⟩

/-- The branch of `output_path` throws nothing, -/
theorem setOutputPath_ok (t : Text) (s : State) : ∃ s', setOutputPath t s = .ok s' := by
  unfold setOutputPath
  split
  · obtain ⟨d, hd⟩ := stripSeparators_ok t
    rw [hd, ok_bind]
    split <;> exact ⟨_, rfl⟩
  · exact ⟨_, rfl⟩

/-- and it leaves the other fields alone. -/
theorem makeOutDir_frame (d : Text) (s : State) :
    (makeOutDir d s).config.scriptPath = s.config.scriptPath ∧
      (makeOutDir d s).config.threadNum = s.config.threadNum ∧
      s.fs.Extends (makeOutDir d s).fs := by
  unfold makeOutDir
  split
  · exact ⟨rfl, rfl, FileSystem.extends_mkdir_getD _ _⟩
  · rename_i fs hmk
    exact ⟨rfl, rfl, FileSystem.extends_mkdir hmk⟩

theorem setOutputPath_frame {t : Text} {s s' : State} (h : setOutputPath t s = .ok s') :
    s'.config.scriptPath = s.config.scriptPath ∧ s'.config.threadNum = s.config.threadNum ∧
      s.fs.Extends s'.fs := by
  unfold setOutputPath at h
  split at h
  · obtain ⟨d, -, hd⟩ := bind_eq_ok_iff.1 h
    split at hd
    · cases hd
      exact ⟨rfl, rfl, FileSystem.Extends.refl _⟩
    · cases hd
      exact makeOutDir_frame d s
  · cases h
    exact makeOutDir_frame _ s

/-- **A line does what `LineMove` says, and nothing else.** -/
theorem applied_eq_some_iff {line : Text} {s s' : State} :
    applied s line = some s' ↔ LineMove line s s' := by
  constructor
  · intro h
    cases hset : settingOf line with
    | none =>
      rw [applied_of_noSetting hset] at h
      cases h
      exact .noSetting hset
    | some setting =>
      obtain ⟨strName, strValue⟩ := setting
      rw [applied_of_setting hset, applySetting] at h
      obtain ⟨key, hkey, h⟩ := bind_eq_ok_iff.1 h
      have hvalue : valueOf key line = some strValue := valueOf_eq_some_iff.2 ⟨_, hset, hkey⟩
      split_ifs at h with hscript houtput hthread
      · obtain ⟨t, ht, h⟩ := bind_eq_ok_iff.1 h
        cases h
        exact .script (hscript ▸ hvalue) ht
      · obtain ⟨t, ht, h⟩ := bind_eq_ok_iff.1 h
        exact .output (houtput ▸ hvalue) ht h
      · obtain ⟨n, hn, h⟩ := bind_eq_ok_iff.1 h
        cases h
        exact .thread (hthread ▸ hvalue) hn
      · cases h
        exact .otherKey hset hkey (by simp [hscript, houtput, hthread])
  · intro h
    cases h with
    | noSetting hset => exact applied_of_noSetting hset s
    | otherKey hset hkey hno =>
      simp only [List.mem_cons, List.not_mem_nil, or_false, not_or] at hno
      rw [applied_of_setting hset, applySetting, hkey, ok_bind, if_neg hno.1, if_neg hno.2.1,
        if_neg hno.2.2]
      rfl
    | script hv ht =>
      obtain ⟨strName, hset, hkey⟩ := valueOf_eq_some_iff.1 hv
      rw [applied_of_setting hset, applySetting, hkey, ok_bind, if_pos rfl, ht, ok_bind]
      rfl
    | output hv ht hs =>
      obtain ⟨strName, hset, hkey⟩ := valueOf_eq_some_iff.1 hv
      rw [applied_of_setting hset, applySetting, hkey, ok_bind, if_neg (by decide), if_pos rfl, ht,
        ok_bind, hs]
    | thread hv hn =>
      obtain ⟨strName, hset, hkey⟩ := valueOf_eq_some_iff.1 hv
      rw [applied_of_setting hset, applySetting, hkey, ok_bind, if_neg (by decide),
        if_neg (by decide), if_pos rfl, hn, ok_bind]
      rfl

/-- A setting that goes through is accepted. -/
theorem LineMove.accepted {line : Text} {s s' : State} (h : LineMove line s s') :
    Accepted line := by
  intro strName strValue hset
  have hkey : ∀ {key v}, valueOf key line = some v →
      v = strValue ∧ trim strName = .ok key := by
    intro key v hv
    obtain ⟨strName', hset', htrim⟩ := valueOf_eq_some_iff.1 hv
    obtain ⟨rfl, rfl⟩ := Prod.mk.inj (Option.some.inj (hset.symm.trans hset'))
    exact ⟨rfl, htrim⟩
  cases h with
  | noSetting hno =>
    rw [hset] at hno
    cases hno
  | otherKey hset' htrim hno =>
    obtain ⟨rfl, rfl⟩ := Prod.mk.inj (Option.some.inj (hset.symm.trans hset'))
    simp only [List.mem_cons, List.not_mem_nil, or_false, not_or] at hno
    exact ⟨_, htrim, fun hpath => (hpath.elim hno.1 hno.2.1).elim, fun hthread =>
      (hno.2.2 hthread).elim⟩
  | script hv ht =>
    obtain ⟨rfl, htrim⟩ := hkey hv
    exact ⟨_, htrim, fun _ => ⟨_, ht⟩, fun hthread => absurd hthread (by decide)⟩
  | output hv ht _ =>
    obtain ⟨rfl, htrim⟩ := hkey hv
    exact ⟨_, htrim, fun _ => ⟨_, ht⟩, fun hthread => absurd hthread (by decide)⟩
  | thread hv hn =>
    obtain ⟨rfl, htrim⟩ := hkey hv
    exact ⟨_, htrim, fun hpath => absurd hpath (by decide), fun _ => ⟨_, hn⟩⟩

/-- **A line goes through exactly when it is accepted**, whatever the state. -/
theorem accepted_iff (s : State) (line : Text) :
    (∃ s', applied s line = some s') ↔ Accepted line := by
  simp only [applied_eq_some_iff]
  constructor
  · rintro ⟨s', h⟩
    exact h.accepted
  · intro h
    cases hset : settingOf line with
    | none => exact ⟨s, .noSetting hset⟩
    | some setting =>
      obtain ⟨strName, strValue⟩ := setting
      obtain ⟨key, hkey, hpath, hthread⟩ := h strName strValue hset
      have hvalue : valueOf key line = some strValue := valueOf_eq_some_iff.2 ⟨_, hset, hkey⟩
      by_cases hscr : key = cfgScriptPath
      · obtain ⟨t, ht⟩ := hpath (Or.inl hscr)
        exact ⟨_, .script (hscr ▸ hvalue) ht⟩
      · by_cases hout : key = cfgOutputPath
        · obtain ⟨t, ht⟩ := hpath (Or.inr hout)
          obtain ⟨s', hs'⟩ := setOutputPath_ok t s
          exact ⟨s', .output (hout ▸ hvalue) ht hs'⟩
        · by_cases hthr : key = cfgThreadNum
          · obtain ⟨n, hn⟩ := hthread hthr
            exact ⟨_, .thread (hthr ▸ hvalue) hn⟩
          · exact ⟨s, .otherKey hset hkey (by simp [hscr, hout, hthr])⟩

/-! ## The run over the lines -/

/-- The loop is the run of its steps, as long as none of them throws. -/
theorem applyLines_eq_ok_iff {lines : List Text} {s s' : State} :
    applyLines lines s = some (.ok s') ↔ runFrom applied s lines = some s' := by
  induction lines generalizing s with
  | nil => simp [applyLines]
  | cons line lines ih =>
    rw [applyLines, runFrom_cons, applied, applyLine_eq]
    dsimp only [Option.bind_some]
    generalize (match settingOf line with
      | some (strName, strValue) => applySetting strName strValue s
      | none => .ok s) = result
    cases result with
    | error e => simp [Except.toOption]
    | ok t => exact ih

/-- The constructor is the loop over the lines of the file. -/
theorem configInfo_eq (content : Text) (fs : FileSystem) :
    configInfo (some (.ofContent content)) fs = applyLines (configLines content) (start fs) := by
  have hlen : 0 < (configLines content).length := by
    rw [configLines, List.length_map, List.length_pos_iff]
    exact List.splitOn_ne_nil _ _
  have hread : readFileLine (some (.ofContent content)) [] = some (true, configLines content) :=
    readFileLine_ofContent content []
  rw [configInfo, prepareConfig, hread, Option.bind_some]
  dsimp only
  rw [if_pos hlen]

/-- **The constructor runs over the lines of the file.** -/
theorem configInfo_eq_ok_iff {content : Text} {fs : FileSystem} {s : State} :
    configInfo (some (.ofContent content)) fs = some (.ok s) ↔
      runFrom applied (start fs) (configLines content) = some s := by
  rw [configInfo_eq, applyLines_eq_ok_iff]

end ConfigInfo
