import OssTest.ConfigInfo.Settings

/-!
# The output path

`prepareConfig` stores as `output_path` what is a directory already, what it could make
one of, or the default directory.  It asks for a directory by `st_mode & S_IFDIR`, which
block devices and sockets pass as well.

* `setOutputPath_isDirectory_iff` — what one setting leaves.
* `outputPath_isDirectory_iff` — what the constructor leaves.
-/

namespace ConfigInfo

open Cpp UtilBox Posix Steps

/-- The value, without the separators at its end, leads to something other than a
directory that has the bit of `S_IFDIR`. -/
def NamesDevice (fs : FileSystem) (strConfigOutDir : Text) : Prop :=
  ∃ d, stripSeparators strConfigOutDir = .ok d ∧
    (fs.typeOf (cstr d) = some .blk ∨ fs.typeOf (cstr d) = some .sock)

/-- What passes the test of `prepareConfig`. -/
theorem stat_any_iff {fs : FileSystem} {path : Text} :
    ((fs.stat path).any fun stMode => stMode &&& sIfdir ≠ 0) = true ↔
      fs.typeOf path = some .dir ∨ fs.typeOf path = some .blk ∨ fs.typeOf path = some .sock := by
  rw [FileSystem.stat]
  cases fs.typeOf path with
  | none => simp
  | some t =>
    rw [Option.bind_some]
    split
    · -- a link that leads nowhere
      rename_i hlnk
      simp [hlnk]
    · rw [Option.any_some, decide_eq_true_eq, stMode_and_sIfdir]
      simp only [Option.some.injEq]

/-- Where the directory is made, there is one. -/
theorem makeOutDir_isDirectory {d : Text} {s : State}
    (havail : s.fs.Available defaultOutputDir) :
    (makeOutDir d s).fs.IsDirectory (cstr (makeOutDir d s).config.outputPath) := by
  unfold makeOutDir
  split
  · exact havail.isDirectory_mkdir
  · rename_i fs hmk
    rw [cstr_cstr]
    exact FileSystem.isDirectory_mkdir hmk

/-- **What a setting of the output path leaves** is a directory, unless a device passes
for one. -/
theorem setOutputPath_isDirectory_iff {t : Text} {s s' : State}
    (havail : s.fs.Available defaultOutputDir) (h : setOutputPath t s = .ok s') :
    s'.fs.IsDirectory (cstr s'.config.outputPath) ↔ ¬ NamesDevice s.fs t := by
  obtain ⟨d, hd⟩ := stripSeparators_ok t
  have hdevice : NamesDevice s.fs t ↔
      s.fs.typeOf (cstr d) = some .blk ∨ s.fs.typeOf (cstr d) = some .sock := by
    simp [NamesDevice, hd]
  rw [hdevice]
  unfold setOutputPath at h
  split at h
  · rw [hd, ok_bind] at h
    split at h
    · -- something is there that has the bit
      rename_i hbit
      cases h
      rw [FileSystem.IsDirectory]
      rcases stat_any_iff.1 hbit with htype | htype | htype <;> simp [htype]
    · rename_i hbit
      cases h
      refine iff_of_true (makeOutDir_isDirectory havail) ?_
      exact fun hdev => hbit (stat_any_iff.2 (Or.inr hdev))
  · -- an empty value stands for the default
    rename_i hempty
    obtain rfl : t = [] := not_not.1 hempty
    cases h
    refine iff_of_true (makeOutDir_isDirectory havail) ?_
    obtain rfl : [] = d := Except.ok.inj ((by decide : stripSeparators [] = .ok []).symm.trans hd)
    have hnone : s.fs.typeOf (cstr []) = none := rfl
    simp [hnone]

/-- A line keeps the default directory available. -/
theorem LineMove.available {line : Text} {s s' : State} (h : LineMove line s s')
    (havail : s.fs.Available defaultOutputDir) : s'.fs.Available defaultOutputDir := by
  cases h with
  | output _ _ hs => exact havail.of_extends (setOutputPath_frame hs).2.2
  | _ => exact havail

/-- What a setting of the output path does. -/
theorem LineMove.setOutputPath {line v : Text} {s s' : State} (h : LineMove line s s')
    (hv : valueOf cfgOutputPath line = some v) :
    ∃ t, trim v = .ok t ∧ ConfigInfo.setOutputPath t s = .ok s' := by
  cases h with
  | noSetting hset =>
    rw [valueOf_of_noSetting hset] at hv
    cases hv
  | otherKey hset hkey hno =>
    rw [(valueOf_of_otherKey hset hkey hno).2.1] at hv
    cases hv
  | script hv' _ =>
    rw [valueOf_eq_none hv' (by decide)] at hv
    cases hv
  | output hv' ht hs =>
    obtain rfl := Option.some.inj (hv.symm.trans hv')
    exact ⟨_, ht, hs⟩
  | thread hv' _ =>
    rw [valueOf_eq_none hv' (by decide)] at hv
    cases hv

/-- **When the output path is a directory.**  The default directory is there or can be
made, and some line of the file sets the output path.  Where the constructor returns, the
path it has stored leads to a directory exactly when the value of the last such setting
did not lead to a block device or a socket in the file system the line found. -/
theorem outputPath_isDirectory_iff (fs : FileSystem) (content : Text) (s : State)
    (havail : fs.Available defaultOutputDir)
    (hset : ∃ line ∈ configLines content, valueOf cfgOutputPath line ≠ none)
    (hnew : configInfo (some (.ofContent content)) fs = some (.ok s)) :
    ∃ pre line post v t s₁, configLines content = pre ++ line :: post ∧
      (∀ l ∈ post, valueOf cfgOutputPath l = none) ∧
      valueOf cfgOutputPath line = some v ∧ trim v = .ok t ∧
      applyLines pre (start fs) = some (.ok s₁) ∧
      (s.fs.IsDirectory (cstr s.config.outputPath) ↔ ¬ NamesDevice s₁.fs t) := by
  obtain ⟨pre, line, post, v, s₁, s₂, hlines, hv, hpost, hpre, hline, hrest⟩ :=
    runFrom_last_write (configInfo_eq_ok_iff.1 hnew) hset
  have hkeep : ∀ s l s', s.fs.Available defaultOutputDir → applied s l = some s' →
      s'.fs.Available defaultOutputDir :=
    fun _ _ _ ha hmove => (applied_eq_some_iff.1 hmove).available ha
  have havail₁ : s₁.fs.Available defaultOutputDir := runFrom_invariant hkeep hpre havail
  -- the lines behind the setting leave the path and the files alone
  have hstep : ∀ s l s', applied s l = some s' →
      Written (fun _ _ => True) (valueOf cfgOutputPath l) (s.config.outputPath, s.fs)
        (s'.config.outputPath, s'.fs) := by
    intro s l s' hmove
    cases hl : valueOf cfgOutputPath l with
    | none =>
      obtain ⟨hpath, hfs⟩ := (applied_eq_some_iff.1 hmove).outputPath hl
      exact Prod.ext hpath hfs
    | some _ => trivial
  have hsame : (s.config.outputPath, s.fs) = (s₂.config.outputPath, s₂.fs) :=
    runFrom_unwritten hstep hrest hpost
  obtain ⟨hpath, hfs⟩ := Prod.mk.inj hsame
  obtain ⟨t, ht, hs₂⟩ := (applied_eq_some_iff.1 hline).setOutputPath hv
  refine ⟨pre, line, post, v, t, s₁, hlines, hpost, hv, ht, applyLines_eq_ok_iff.2 hpre, ?_⟩
  rw [hpath, hfs]
  exact setOutputPath_isDirectory_iff havail₁ hs₂

/-- A directory that is there is taken as it is, without the separator behind it. -/
theorem outputPath_isDirectory_logs :
    ∃ s, configInfo (some (.ofContent "output_path=logs/".toList)) (.single "logs".toList .dir) =
        some (.ok s) ∧
      ∃ pre line post v t s₁, configLines "output_path=logs/".toList = pre ++ line :: post ∧
        (∀ l ∈ post, valueOf cfgOutputPath l = none) ∧
        valueOf cfgOutputPath line = some v ∧ trim v = .ok t ∧
        applyLines pre (start (.single "logs".toList .dir)) = some (.ok s₁) ∧
        (s.fs.IsDirectory (cstr s.config.outputPath) ↔ ¬ NamesDevice s₁.fs t) := by
  have hlines : ∀ l ∈ configLines "output_path=logs/".toList, Accepted l := by decide +kernel
  have hset : ∃ l ∈ configLines "output_path=logs/".toList, valueOf cfgOutputPath l ≠ none := by
    decide +kernel
  have havail : (FileSystem.single "logs".toList .dir).Available defaultOutputDir :=
    Or.inr (by decide)
  obtain ⟨s, hs⟩ := (configInfo_ok_iff (.single "logs".toList .dir)).2 hlines
  exact ⟨s, hs, outputPath_isDirectory_iff _ _ s havail hset hs⟩

/-- A socket passes for a directory. -/
theorem socket_is_taken :
    (FileSystem.single "s".toList .sock).Available defaultOutputDir ∧
      ∃ s, configInfo (some (.ofContent "output_path=s".toList)) (.single "s".toList .sock) =
          some (.ok s) ∧
        ¬ s.fs.IsDirectory (cstr s.config.outputPath) := by
  have hcheck : (configInfo (some (.ofContent "output_path=s".toList))
      (.single "s".toList .sock)).any (fun result => result.toOption.any fun s =>
        ¬ s.fs.IsDirectory (cstr s.config.outputPath)) = true := by
    decide +kernel
  obtain ⟨result, hresult, hany⟩ := (Option.any_eq_true _ _).1 hcheck
  obtain ⟨s, hs, hno⟩ := (Option.any_eq_true _ _).1 hany
  obtain rfl := toOption_eq_some_iff.1 hs
  exact ⟨Or.inr (by decide), s, hresult, of_decide_eq_true hno⟩

end ConfigInfo
