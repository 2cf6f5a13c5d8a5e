import OssTest.ConfigInfo

/-!
# What the settings leave in the fields

* `last_setting_wins` — of the settings of one key the last one counts, and no line
  touches a field that is not its own.
* `survives_iff` — the constructor gets through the file exactly when no line of it makes
  `trim` or `std::stoi` throw: a number of threads that is no number is not skipped like
  other lines that make no sense.
-/

namespace ConfigInfo

open Cpp UtilBox Posix Steps

/-- The value of the last setting with the key. -/
def lastValue (key content : Text) : Option Text :=
  ((configLines content).filterMap (valueOf key)).getLast?

/-- What the value of a script path leaves: a C string. -/
def ScriptValue (v scriptPath : Text) : Prop := ∃ t, trim v = .ok t ∧ scriptPath = cstr t

/-- What the value of a number of threads leaves. -/
def ThreadValue (v : Text) (threadNum : Int) : Prop := stoi v = .ok threadNum

/-- A file system in which there is only the directory `config`. -/
def bare : FileSystem := .single "config".toList .dir

instance (line : Text) : Decidable (Accepted line) :=
  decidable_of_iff ((applied (start bare) line).isSome = true)
    (Option.isSome_iff_exists.trans (accepted_iff _ line))

/-! ## The field of a line -/

section Line

variable {line : Text} {s s' : State}

theorem valueOf_of_noSetting (h : settingOf line = none) (key : Text) :
    valueOf key line = none := by
  rw [valueOf, h]
  rfl

/-- A setting of another key has no value for these. -/
theorem valueOf_of_otherKey {strName strValue key : Text}
    (h : settingOf line = some (strName, strValue)) (hkey : trim strName = .ok key)
    (hno : key ∉ [cfgScriptPath, cfgOutputPath, cfgThreadNum]) :
    valueOf cfgScriptPath line = none ∧ valueOf cfgOutputPath line = none ∧
      valueOf cfgThreadNum line = none := by
  have hvalue : valueOf key line = some strValue := valueOf_eq_some_iff.2 ⟨_, h, hkey⟩
  simp only [List.mem_cons, List.not_mem_nil, or_false, not_or] at hno
  exact ⟨valueOf_eq_none hvalue (Ne.symm hno.1), valueOf_eq_none hvalue (Ne.symm hno.2.1),
    valueOf_eq_none hvalue (Ne.symm hno.2.2)⟩

/-- Only a setting of its own writes `script_path`. -/
theorem LineMove.scriptPath (h : LineMove line s s') :
    Written ScriptValue (valueOf cfgScriptPath line) s.config.scriptPath
      s'.config.scriptPath := by
  cases h with
  | noSetting hset =>
    rw [valueOf_of_noSetting hset]
    rfl
  | otherKey hset hkey hno =>
    rw [(valueOf_of_otherKey hset hkey hno).1]
    rfl
  | script hv ht =>
    rw [hv]
    exact ⟨_, ht, rfl⟩
  | output hv _ hs =>
    rw [valueOf_eq_none hv (by decide)]
    exact (setOutputPath_frame hs).1
  | thread hv _ =>
    rw [valueOf_eq_none hv (by decide)]
    rfl

/-- Only a setting of its own writes `thread_num`. -/
theorem LineMove.threadNum (h : LineMove line s s') :
    Written ThreadValue (valueOf cfgThreadNum line) s.config.threadNum s'.config.threadNum := by
  cases h with
  | noSetting hset =>
    rw [valueOf_of_noSetting hset]
    rfl
  | otherKey hset hkey hno =>
    rw [(valueOf_of_otherKey hset hkey hno).2.2]
    rfl
  | script hv _ =>
    rw [valueOf_eq_none hv (by decide)]
    rfl
  | output hv _ hs =>
    rw [valueOf_eq_none hv (by decide)]
    exact (setOutputPath_frame hs).2.1
  | thread hv hn =>
    rw [hv]
    exact hn

/-- Only a setting of its own writes `output_path`, or makes a directory. -/
theorem LineMove.outputPath (h : LineMove line s s') (hno : valueOf cfgOutputPath line = none) :
    s'.config.outputPath = s.config.outputPath ∧ s'.fs = s.fs := by
  cases h with
  | output hv _ _ =>
    rw [hv] at hno
    cases hno
  | _ => exact ⟨rfl, rfl⟩

/-- A line that is not a setting, or one of another key, changes nothing. -/
theorem LineMove.eq_of_valueOf (h : LineMove line s s')
    (hno : ∀ key ∈ [cfgScriptPath, cfgOutputPath, cfgThreadNum], valueOf key line = none) :
    s' = s := by
  simp only [List.forall_mem_cons] at hno
  cases h with
  | noSetting _ => rfl
  | otherKey _ _ _ => rfl
  | script hv _ => rw [hv] at hno; cases hno.1
  | output hv _ _ => rw [hv] at hno; cases hno.2.1
  | thread hv _ => rw [hv] at hno; cases hno.2.2.1

end Line

/-! ## The whole file -/

/-- **When the constructor gets through.** -/
theorem configInfo_ok_iff {content : Text} (fs : FileSystem) :
    (∃ s, configInfo (some (.ofContent content)) fs = some (.ok s)) ↔
      ∀ line ∈ configLines content, Accepted line := by
  simp only [configInfo_eq_ok_iff]
  exact runFrom_isSome_iff accepted_iff

/-- The fields after the constructor. -/
theorem fields_of_configInfo {content : Text} {fs : FileSystem} {s : State}
    (h : configInfo (some (.ofContent content)) fs = some (.ok s)) :
    Written ScriptValue (lastValue cfgScriptPath content) [] s.config.scriptPath ∧
      Written ThreadValue (lastValue cfgThreadNum content) 1 s.config.threadNum := by
  have hrun := configInfo_eq_ok_iff.1 h
  have hscript : ∀ s l s', applied s l = some s' →
      Written ScriptValue (valueOf cfgScriptPath l) s.config.scriptPath s'.config.scriptPath :=
    fun _ _ _ hmove => (applied_eq_some_iff.1 hmove).scriptPath
  have hthread : ∀ s l s', applied s l = some s' →
      Written ThreadValue (valueOf cfgThreadNum l) s.config.threadNum s'.config.threadNum :=
    fun _ _ _ hmove => (applied_eq_some_iff.1 hmove).threadNum
  exact ⟨runFrom_written hscript hrun, runFrom_written hthread hrun⟩

/-- Where the line sets no output path, the path and the files stay. -/
theorem applied_written {line : Text} {s s' : State} (h : applied s line = some s') :
    Written (fun _ _ => True) (valueOf cfgOutputPath line) (s.config.outputPath, s.fs)
      (s'.config.outputPath, s'.fs) := by
  cases hline : valueOf cfgOutputPath line with
  | none =>
    obtain ⟨hpath, hfs⟩ := (applied_eq_some_iff.1 h).outputPath hline
    exact Prod.ext hpath hfs
  | some _ => trivial

/-- Where the file names no output directory, it is `"output"`, and is not made. -/
theorem outDir_of_noSetting {content : Text} {fs : FileSystem} {s : State}
    (h : configInfo (some (.ofContent content)) fs = some (.ok s))
    (hno : ∀ line ∈ configLines content, valueOf cfgOutputPath line = none) :
    getOutDir s.config = "output".toList ∧ s.fs = fs :=
  Prod.mk.inj (runFrom_unwritten (fun _ _ _ => applied_written) (configInfo_eq_ok_iff.1 h) hno)

/-- **The last setting wins, and touches nothing else.**  If no line throws, the
constructor returns; `script_path` is then the C string of the trimmed value of the last
setting of that key, and `thread_num` the number in the last one of its own.  A line that
is not a setting or has another key changes nothing, `output_path` leaves the two other
fields alone and they leave `output_path` alone.  Reordering the lines without moving
settings of one key past each other changes neither of the two. -/
theorem last_setting_wins (fs : FileSystem) (content : Text)
    (h : ∀ line ∈ configLines content, Accepted line) :
    (∃ s, configInfo (some (.ofContent content)) fs = some (.ok s) ∧
      Written ScriptValue (lastValue cfgScriptPath content) [] s.config.scriptPath ∧
      Written ThreadValue (lastValue cfgThreadNum content) 1 s.config.threadNum ∧
      ∀ fs' content', (configLines content').Perm (configLines content) →
        (∀ key, (configLines content').filterMap (valueOf key) =
          (configLines content).filterMap (valueOf key)) →
        ∃ s', configInfo (some (.ofContent content')) fs' = some (.ok s') ∧
          s'.config.scriptPath = s.config.scriptPath ∧
          s'.config.threadNum = s.config.threadNum) ∧
    ∀ line s s', applyLine line s = some (.ok s') →
      (line.count '=' ≠ 1 → s' = s) ∧
      ((∀ key ∈ [cfgScriptPath, cfgOutputPath, cfgThreadNum], valueOf key line = none) →
        s' = s) ∧
      (valueOf cfgOutputPath line ≠ none →
        s'.config.scriptPath = s.config.scriptPath ∧
          s'.config.threadNum = s.config.threadNum) ∧
      (valueOf cfgScriptPath line ≠ none ∨ valueOf cfgThreadNum line ≠ none →
        s'.config.outputPath = s.config.outputPath) := by
  constructor
  · obtain ⟨s, hs⟩ := (configInfo_ok_iff fs).2 h
    obtain ⟨hscript, hthread⟩ := fields_of_configInfo hs
    refine ⟨s, hs, hscript, hthread, ?_⟩
    intro fs' content' hperm hkeys
    obtain ⟨s', hs'⟩ := (configInfo_ok_iff fs').2 fun line hline =>
      h line (hperm.mem_iff.1 hline)
    obtain ⟨hscript', hthread'⟩ := fields_of_configInfo hs'
    rw [lastValue, hkeys] at hscript' hthread'
    refine ⟨s', hs', ?_, ?_⟩
    · refine Written.unique ?_ hscript' hscript
      rintro v p p' ⟨t, ht, rfl⟩ ⟨t', ht', rfl⟩
      rw [Except.ok.inj (ht.symm.trans ht')]
    · refine Written.unique ?_ hthread' hthread
      intro v n n' hn hn'
      exact Except.ok.inj (Eq.trans (Eq.symm hn) hn')
  · intro line s s' hline
    have hmove : LineMove line s s' := by
      rw [← applied_eq_some_iff, applied, hline]
      rfl
    refine ⟨?_, hmove.eq_of_valueOf, ?_, ?_⟩
    · intro hcount
      have hset := settingOf_eq_none_iff.2 hcount
      exact hmove.eq_of_valueOf fun key _ => valueOf_of_noSetting hset key
    · intro hout
      obtain ⟨v, hv⟩ := Option.ne_none_iff_exists'.1 hout
      have hscript := hmove.scriptPath
      have hthread := hmove.threadNum
      rw [valueOf_eq_none hv (by decide)] at hscript hthread
      exact ⟨hscript, hthread⟩
    · intro hkey
      refine (hmove.outputPath ?_).1
      rcases hkey with hkey | hkey
      · obtain ⟨v, hv⟩ := Option.ne_none_iff_exists'.1 hkey
        exact valueOf_eq_none hv (by decide)
      · obtain ⟨v, hv⟩ := Option.ne_none_iff_exists'.1 hkey
        exact valueOf_eq_none hv (by decide)

/-- A file that names two scripts, and the number of threads between them. -/
def twoScripts : Text :=
  "script_path = a.txt\r\n[run]\nthread_num=4\nscript_path=b.txt".toList

/-- The later script is taken. -/
theorem last_setting_wins_two :
    ∃ s, configInfo (some (.ofContent twoScripts)) bare = some (.ok s) ∧
      s.config.scriptPath = "b.txt".toList ∧ s.config.threadNum = 4 := by
  have hlast : lastValue cfgScriptPath twoScripts = some "b.txt".toList := by decide +kernel
  have hlast' : lastValue cfgThreadNum twoScripts = some "4".toList := by decide +kernel
  have hlines : ∀ line ∈ configLines twoScripts, Accepted line := by decide +kernel
  obtain ⟨⟨s, hs, hscript, hthread, -⟩, -⟩ := last_setting_wins bare twoScripts hlines
  rw [hlast] at hscript
  rw [hlast'] at hthread
  obtain ⟨t, ht, hpath⟩ := hscript
  refine ⟨s, hs, ?_, ?_⟩
  · rw [hpath]
    have htrim : trim "b.txt".toList = .ok "b.txt".toList := by decide
    rw [← Except.ok.inj (htrim.symm.trans ht)]
    decide
  · have hnum : stoi "4".toList = .ok 4 := by decide
    exact Except.ok.inj (Eq.trans (Eq.symm hthread) hnum)

/-- A script path with a NUL in it is stored up to the NUL. -/
theorem nul_cuts_script_path :
    ∃ s, configInfo (some (.ofContent "script_path=a\x00b".toList)) bare = some (.ok s) ∧
      lastValue cfgScriptPath "script_path=a\x00b".toList = some "a\x00b".toList ∧
      trim "a\x00b".toList ≠ .ok s.config.scriptPath := by
  have hlines : ∀ line ∈ configLines "script_path=a\x00b".toList, Accepted line := by
    decide +kernel
  have hlast : lastValue cfgScriptPath "script_path=a\x00b".toList = some "a\x00b".toList := by
    decide +kernel
  obtain ⟨s, hs⟩ := (configInfo_ok_iff bare).2 hlines
  obtain ⟨hscript, -⟩ := fields_of_configInfo hs
  rw [hlast] at hscript
  obtain ⟨t, ht, hpath⟩ := hscript
  refine ⟨s, hs, hlast, ?_⟩
  rw [hpath, ht]
  have htrim : trim "a\x00b".toList = .ok "a\x00b".toList := by decide
  obtain rfl : "a\x00b".toList = t := Except.ok.inj (htrim.symm.trans ht)
  decide

/-! ## Malformed files -/

/-- A number of threads that `std::stoi` rejects. -/
def rejected (line : Text) : Bool :=
  (valueOf cfgThreadNum line).any fun v => (stoi v).toOption.isNone

/-- An accepted line has no rejected number. -/
theorem Accepted.not_rejected {line : Text} (h : Accepted line) : rejected line = false := by
  cases hv : valueOf cfgThreadNum line with
  | none => simp [rejected, hv]
  | some v =>
    obtain ⟨strName, hset, htrim⟩ := valueOf_eq_some_iff.1 hv
    obtain ⟨key, hkey, -, hthread⟩ := h strName v hset
    obtain ⟨n, hn⟩ := hthread (Except.ok.inj (hkey.symm.trans htrim))
    simp [rejected, hv, hn, Except.toOption]

theorem eq_of_settingOf {line strName strValue : Text}
    (h : settingOf line = some (strName, strValue)) : line = strName ++ '=' :: strValue := by
  unfold settingOf at h
  split at h
  · rename_i heq
    cases h
    rw [← Pieces.intercalate_cutN ['='] (Pieces.occurrences ['='] line) line]
    show ['='].intercalate (Pieces.pieces ['='] line) = _
    rw [Pieces.pieces_singleton, heq]
    simp [List.intercalate]
  · cases h

/-- **On lines that an `int` can count, only a number of threads can fail.** -/
theorem accepted_iff_of_short {line : Text} (hlen : line.length < 2 ^ 31) :
    Accepted line ↔ rejected line = false := by
  refine ⟨Accepted.not_rejected, ?_⟩
  intro hrej strName strValue hset
  have hlen' : strName.length + strValue.length < line.length := by
    rw [eq_of_settingOf hset, List.length_append, List.length_cons]
    omega
  have hname : strName.length < 2 ^ 31 := by omega
  obtain ⟨key, hkey⟩ := trim_ok_of_short hname
  refine ⟨key, hkey, fun _ => trim_ok_of_short (by omega), ?_⟩
  rintro rfl
  rw [rejected, valueOf_eq_some_iff.2 ⟨_, hset, hkey⟩] at hrej
  cases hn : stoi strValue with
  | ok n => exact ⟨n, rfl⟩
  | error e =>
    rw [Option.any_some, hn] at hrej
    cases hrej

/-- **When a malformed file is survived.**  The constructor returns, having ignored the
numbers of threads that `std::stoi` rejects and applied all other lines, exactly when no
line makes `trim` or `std::stoi` throw.  Among lines that an `int` can count, that means:
when there is no such number. -/
theorem survives_iff (fs : FileSystem) (content : Text) :
    ((∃ s, configInfo (some (.ofContent content)) fs = some (.ok s) ∧
        applyLines ((configLines content).filter fun line => !rejected line) (start fs) =
          some (.ok s)) ↔
      ∀ line ∈ configLines content, Accepted line) ∧
    ((∀ line ∈ configLines content, line.length < 2 ^ 31) →
      ((∀ line ∈ configLines content, Accepted line) ↔
        ∀ line ∈ configLines content, rejected line = false)) := by
  constructor
  · constructor
    · rintro ⟨s, hs, -⟩
      exact (configInfo_ok_iff _).1 ⟨s, hs⟩
    · intro h
      obtain ⟨s, hs⟩ := (configInfo_ok_iff fs).2 h
      have hall : ((configLines content).filter fun line => !rejected line) =
          configLines content := by
        rw [List.filter_eq_self]
        intro line hline
        rw [(h line hline).not_rejected]
        rfl
      refine ⟨s, hs, ?_⟩
      rw [hall, applyLines_eq_ok_iff]
      exact configInfo_eq_ok_iff.1 hs
  · intro hlen
    exact forall₂_congr fun line hline => accepted_iff_of_short (hlen line hline)

/-- `thread_num=abc` ends the constructor with an exception. -/
theorem abc_is_thrown :
    (configInfo (some (.ofContent "thread_num=abc\nscript_path=a.txt".toList)) bare).map
        (fun result => result.isOk) = some false ∧
      ¬ ∃ s, configInfo (some (.ofContent "thread_num=abc\nscript_path=a.txt".toList)) bare =
          some (.ok s) ∧
        applyLines ((configLines "thread_num=abc\nscript_path=a.txt".toList).filter fun line =>
          !rejected line) (start bare) = some (.ok s) := by
  constructor
  · decide +kernel
  · rintro ⟨s, hs, -⟩
    have hlines := (configInfo_ok_iff _).1 ⟨s, hs⟩
    revert hlines
    decide +kernel

end ConfigInfo
