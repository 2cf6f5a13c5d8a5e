import OssTest.ConfigInfo.OutputPath
import OssTest.Run.Setup

/-!
# Where the results go

`main` makes a directory in the output directory, named by the time, the speaker and the
type, and `printResult` writes its report beside it.  Nobody makes the output directory
where the configuration does not name one.

* `outDir_ne_nil` — the constructor leaves an output path.
* `resultDir_isDirectory_iff`, `creatable_strReport_iff` — when the directory is there and
  the report can be written.
* `results_of_setup` — both, from the configuration on.
-/

namespace ConfigInfo

open Cpp UtilBox Posix Steps

theorem ne_nil_of_stat {fs : FileSystem} {path : Text} (h : fs.stat path ≠ none) : path ≠ [] := by
  rintro rfl
  exact h rfl

theorem ne_nil_of_mkdir {fs fs' : FileSystem} {path : Text} (h : fs.mkdir path = some fs') :
    path ≠ [] := by
  obtain ⟨p, -, hloc, -⟩ := FileSystem.mkdir_eq_some_iff.1 h
  rintro rfl
  cases hloc

/-- Where the directory is made, its path is stored, or that of the default one. -/
theorem makeOutDir_ne_nil (d : Text) (s : State) :
    cstr (makeOutDir d s).config.outputPath ≠ [] := by
  unfold makeOutDir
  split
  · show cstr defaultOutputDir ≠ []
    decide
  · rename_i fs hmk
    rw [cstr_cstr]
    exact ne_nil_of_mkdir hmk

theorem setOutputPath_ne_nil {t : Text} {s s' : State} (h : setOutputPath t s = .ok s') :
    cstr s'.config.outputPath ≠ [] := by
  unfold setOutputPath at h
  split at h
  · obtain ⟨d, -, hd⟩ := bind_eq_ok_iff.1 h
    split at hd
    · rename_i hbit
      cases hd
      have hstat : s.fs.stat (cstr d) ≠ none := by
        intro hnone
        rw [hnone] at hbit
        cases hbit
      exact ne_nil_of_stat hstat
    · cases hd
      exact makeOutDir_ne_nil d s
  · cases h
    exact makeOutDir_ne_nil _ s

/-- What a line leaves of the output path. -/
theorem LineMove.outDir_ne_nil {line : Text} {s s' : State} (h : LineMove line s s')
    (hne : cstr s.config.outputPath ≠ []) : cstr s'.config.outputPath ≠ [] := by
  cases h with
  | output _ _ hs => exact setOutputPath_ne_nil hs
  | _ => exact hne

/-- A line adds directories at most. -/
theorem LineMove.extends {line : Text} {s s' : State} (h : LineMove line s s') :
    s.fs.Extends s'.fs := by
  cases h with
  | output _ _ hs => exact (setOutputPath_frame hs).2.2
  | _ => exact FileSystem.Extends.refl _

section Configured

variable {content : Text} {fs : FileSystem} {s : State}

/-- The constructor leaves an output path. -/
theorem outDir_ne_nil (h : configInfo (some (.ofContent content)) fs = some (.ok s)) :
    cstr (getOutDir s.config) ≠ [] := by
  have hstart : cstr (start fs).config.outputPath ≠ [] := by
    show cstr "output".toList ≠ []
    decide
  exact runFrom_invariant (fun _ _ _ hne hmove => (applied_eq_some_iff.1 hmove).outDir_ne_nil hne)
    (configInfo_eq_ok_iff.1 h) hstart

/-- The constructor adds directories at most. -/
theorem extends_configInfo (h : configInfo (some (.ofContent content)) fs = some (.ok s)) :
    fs.Extends s.fs := by
  have hstep : ∀ t line t', fs.Extends t.fs → applied t line = some t' → fs.Extends t'.fs :=
    fun _ _ _ hext hmove => hext.trans (applied_eq_some_iff.1 hmove).extends
  exact runFrom_invariant hstep (configInfo_eq_ok_iff.1 h) (FileSystem.Extends.refl fs)

end Configured

end ConfigInfo

namespace EngineLog

open Cpp

/-- A printed number is made of digits and a minus sign. -/
theorem slash_not_mem_fmtPrecD (p : ℕ) (n : Int) : '/' ∉ fmtPrecD p n := by
  have hdigits : ∀ k : ℕ, '/' ∉ (Nat.toDigits 10 k).leftpad p '0' := fun k hk =>
    absurd (isDigit_of_mem_leftpad hk) (by decide)
  unfold fmtPrecD
  split
  · rw [List.mem_cons, not_or]
    exact ⟨by decide, hdigits _⟩
  · exact hdigits _

theorem slash_not_mem_mTimeInfo (tm : Tm) : '/' ∉ tm.mTimeInfo := by
  unfold Tm.mTimeInfo
  simp only [List.mem_append, not_or, slash_not_mem_fmtPrecD, not_false_eq_true, and_true,
    true_and]
  decide

end EngineLog

namespace Run

open Cpp UtilBox Posix EngineLog ConfigInfo

/-! ## The paths -/

/-- Lines 724 to 731: make the directory, unless something is there. -/
def makeResultDir (mResultPCMPath : Text) (fs : FileSystem) : FileSystem :=
  if fs.stat mResultPCMPath ≠ none then fs else (fs.mkdir mResultPCMPath).getD fs

/-- `strReport`: lines 1078 to 1080 of `printResult`. -/
def strReport (mResultPCMPath : Text) : Text := mResultPCMPath ++ ".txt".toList

/-- The name of the directory in the output directory. -/
def Setup.resultName (x : Setup) : Text :=
  x.tm.mTimeInfo ++ "_".toList ++ cstr x.mSpeaker ++ "_".toList ++ cstr x.mType

theorem mResultPCMPath_eq (x : Setup) (config : ConfigInfo) :
    x.mResultPCMPath config = cstr (getOutDir config) ++ '/' :: x.resultName := by
  simp [Setup.mResultPCMPath, Setup.resultName]

theorem strReport_eq (x : Setup) (config : ConfigInfo) :
    strReport (x.mResultPCMPath config) =
      cstr (getOutDir config) ++ '/' :: (x.resultName ++ ".txt".toList) := by
  rw [strReport, mResultPCMPath_eq, List.append_assoc, List.cons_append]

/-- No separator is put in. -/
theorem slash_not_mem_resultName {x : Setup} (hspeaker : '/' ∉ cstr x.mSpeaker)
    (htype : '/' ∉ cstr x.mType) {t : Text} (ht : '/' ∉ t) :
    '/' ∉ x.resultName ++ t := by
  simp [Setup.resultName, slash_not_mem_mTimeInfo, hspeaker, htype, ht]

/-- What is put together is a name, unless a separator came with the arguments or it is too
long. -/
theorem plain_resultName {x : Setup} (hspeaker : '/' ∉ cstr x.mSpeaker)
    (htype : '/' ∉ cstr x.mType) {t : Text} (ht : '/' ∉ t)
    (hfits : (x.resultName ++ t).length ≤ nameMax) :
    FileSystem.Plain (x.resultName ++ t) := by
  have hbar : '_' ∈ x.resultName ++ t := by simp [Setup.resultName]
  refine ⟨List.ne_nil_of_mem hbar, ?_, ?_, slash_not_mem_resultName hspeaker htype ht,
    hfits⟩
  · intro heq
    rw [heq] at hbar
    exact absurd hbar (by decide)
  · intro heq
    rw [heq] at hbar
    exact absurd hbar (by decide)

/-! ## The directory and the report -/

/-- The directory is made, or everything stays. -/
theorem makeResultDir_cases (path : Text) (fs : FileSystem) :
    fs.mkdir path = some (makeResultDir path fs) ∨ makeResultDir path fs = fs := by
  unfold makeResultDir
  split
  · exact Or.inr rfl
  · cases hmk : fs.mkdir path with
    | none => exact Or.inr rfl
    | some fs' => exact Or.inl rfl

theorem extends_makeResultDir (path : Text) (fs : FileSystem) :
    fs.Extends (makeResultDir path fs) := by
  rcases makeResultDir_cases path fs with hmk | hsame
  · exact FileSystem.extends_mkdir hmk
  · rw [hsame]
    exact FileSystem.Extends.refl fs

section Child

variable {fs : FileSystem} {d name : Text}

/-- Where nothing stands, a directory can be made. -/
theorem mkdir_ne_none {q : List Text} (hq : fs.node q = some .dir)
    (hloc : fs.locate (d ++ '/' :: name) = some (q ++ [name]))
    (hnew : fs.node (q ++ [name]) = none) : fs.mkdir (d ++ '/' :: name) ≠ none := by
  have hparent : fs.node (q ++ [name]).dropLast = some .dir := by
    rw [List.dropLast_concat]
    exact hq
  rw [FileSystem.mkdir_eq_some_iff.2 ⟨_, hparent, hloc, hnew, rfl⟩]
  exact Option.some_ne_none _

/-- What stands at the place is what the path leads to. -/
theorem typeOf_child {p : List Text} (hname : FileSystem.Plain name)
    (hloc : fs.locate (d ++ '/' :: name) = some p) :
    fs.typeOf (d ++ '/' :: name) = fs.node p := by
  cases hnode : fs.node p with
  | none =>
    rw [Option.eq_none_iff_forall_ne_some]
    intro t ht
    obtain ⟨p', hloc', hnode', -⟩ := FileSystem.typeOf_eq_some_iff.1 ht
    obtain rfl := Option.some.inj (hloc.symm.trans hloc')
    rw [hnode] at hnode'
    cases hnode'
  | some t =>
    exact FileSystem.typeOf_eq_some_iff.2
      ⟨p, hloc, hnode, fun hslash => absurd hslash (hname.getLast?_ne d)⟩

/-- **When the directory is there**: the one above it has to be, and nothing else may stand
in its place. -/
theorem resultDir_isDirectory_iff (hd : d ≠ []) (hname : FileSystem.Plain name)
    (hlen : (d ++ '/' :: name).length < pathMax) :
    (makeResultDir (d ++ '/' :: name) fs).IsDirectory (d ++ '/' :: name) ↔
      fs.IsDirectory d ∧ ∀ t, fs.typeOf (d ++ '/' :: name) = some t → t = .dir := by
  constructor
  · intro h
    rcases makeResultDir_cases (d ++ '/' :: name) fs with hmk | hsame
    · obtain ⟨p, -, hloc, hnew, -⟩ := FileSystem.mkdir_eq_some_iff.1 hmk
      refine ⟨FileSystem.isDirectory_of_locate_child hd hname hloc, fun t ht => ?_⟩
      rw [typeOf_child hname hloc, hnew] at ht
      cases ht
    · rw [hsame] at h
      obtain ⟨p, hloc, -⟩ := FileSystem.isDirectory_iff.1 h
      refine ⟨FileSystem.isDirectory_of_locate_child hd hname hloc, fun t ht => ?_⟩
      exact Option.some.inj (ht.symm.trans h)
  · rintro ⟨hdir, honly⟩
    obtain ⟨q, -, hq, hchild⟩ := FileSystem.locate_child_of_isDirectory hd hdir
    have htype := typeOf_child hname (hchild hname hlen)
    cases hnode : fs.node (q ++ [name]) with
    | none =>
      -- nothing is there, and `mkdir` is called
      have hstat : fs.stat (d ++ '/' :: name) = none := by
        rw [FileSystem.stat, htype, hnode]
        rfl
      rw [makeResultDir, if_neg (not_not.2 hstat)]
      exact FileSystem.Available.isDirectory_mkdir
        (Or.inr (mkdir_ne_none hq (hchild hname hlen) hnode))
    | some t =>
      rw [hnode] at htype
      obtain rfl := honly t htype
      exact FileSystem.typeOf_of_extends (extends_makeResultDir _ fs) htype

/-- **When the report can be written**: beside the directory, whether that could be made or
not. -/
theorem creatable_iff {name' : Text} (hd : d ≠ []) (hname : FileSystem.Plain name)
    (hname' : FileSystem.Plain name') (hne : name' ≠ name)
    (hlen : (d ++ '/' :: name).length < pathMax) (hlen' : (d ++ '/' :: name').length < pathMax) :
    (makeResultDir (d ++ '/' :: name) fs).Creatable (d ++ '/' :: name') ↔
      fs.IsDirectory d ∧ fs.typeOf (d ++ '/' :: name') = none := by
  have hext := extends_makeResultDir (d ++ '/' :: name) fs
  constructor
  · rintro ⟨p, hloc, hnew, -⟩
    have hdir : fs.IsDirectory d := by
      rcases makeResultDir_cases (d ++ '/' :: name) fs with hmk | hsame
      · obtain ⟨p', -, hloc', -⟩ := FileSystem.mkdir_eq_some_iff.1 hmk
        exact FileSystem.isDirectory_of_locate_child hd hname hloc'
      · rw [hsame] at hloc
        exact FileSystem.isDirectory_of_locate_child hd hname' hloc
    obtain ⟨q, -, -, hchild⟩ := FileSystem.locate_child_of_isDirectory hd hdir
    obtain rfl := Option.some.inj ((hext.locate_eq (hchild hname' hlen')).symm.trans hloc)
    refine ⟨hdir, ?_⟩
    rw [typeOf_child hname' (hchild hname' hlen'), Option.eq_none_iff_forall_ne_some]
    intro t ht
    rw [hext.node_eq ht] at hnew
    cases hnew
  · rintro ⟨hdir, hnone⟩
    obtain ⟨q, -, hq, hchild⟩ := FileSystem.locate_child_of_isDirectory hd hdir
    rw [typeOf_child hname' (hchild hname' hlen')] at hnone
    refine ⟨_, hext.locate_eq (hchild hname' hlen'), ?_, ?_, hname'.getLast?_ne d⟩
    · rcases makeResultDir_cases (d ++ '/' :: name) fs with hmk | hsame
      · -- the new directory has another name
        obtain ⟨p, hparent, hloc, -, hnew⟩ := FileSystem.mkdir_eq_some_iff.1 hmk
        obtain rfl := Option.some.inj ((hchild hname hlen).symm.trans hloc)
        have hother : q ++ [name'] ≠ q ++ [name] := fun heq =>
          hne (List.singleton_inj.1 (List.append_cancel_left heq))
        rw [hnew]
        exact (if_neg hother).trans hnone
      · rw [hsame]
        exact hnone
    · rw [List.dropLast_concat]
      exact hext.node_eq hq

/-- Nothing is found and nothing is made under a name that is too long. -/
theorem nothing_of_long (hslash : '/' ∉ name) (hlong : nameMax < name.length) :
    ¬ fs.IsDirectory (d ++ '/' :: name) ∧ ¬ fs.Creatable (d ++ '/' :: name) := by
  have hnone : fs.locate (d ++ '/' :: name) = none := FileSystem.locate_child_long hslash hlong
  constructor
  · intro hdir
    obtain ⟨p, hloc, -⟩ := FileSystem.isDirectory_iff.1 hdir
    rw [hnone] at hloc
    cases hloc
  · rintro ⟨p, hloc, -⟩
    rw [hnone] at hloc
    cases hloc

end Child

/-- **Where the results of a run go.**  For every content of the configuration that is read,
every time, and a speaker and a type without a separator in them and with which the path fits
`mResultPCMPath`, what was there stays; the directory of the run is there afterwards exactly
when the output directory is one, the name is not too long, and nothing else stands in its
place; and the report can be written exactly when the output directory is one, its name is not
too long, and nothing stands where it goes.  Where the configuration names no output
directory, that is `"output"`, which nobody has made. -/
theorem results_of_setup (x : Setup) (content : Text) (s : State)
    (hconfig : x.config = some (.ofContent content))
    (hnew : configInfo x.config x.fs = some (.ok s)) (hspeaker : '/' ∉ cstr x.mSpeaker)
    (htype : '/' ∉ cstr x.mType) (hfits : (x.mResultPCMPath s.config).length < pathBytes) :
    ∃ path fs', path = x.mResultPCMPath s.config ∧ fs' = makeResultDir path s.fs ∧
      x.fs.Extends fs' ∧
      (fs'.IsDirectory path ↔ s.fs.IsDirectory (cstr (getOutDir s.config)) ∧
        x.resultName.length ≤ nameMax ∧ ∀ t, s.fs.typeOf path = some t → t = .dir) ∧
      (fs'.Creatable (strReport path) ↔ s.fs.IsDirectory (cstr (getOutDir s.config)) ∧
        (x.resultName ++ ".txt".toList).length ≤ nameMax ∧
          s.fs.typeOf (strReport path) = none) ∧
      ((∀ line ∈ configLines content, valueOf cfgOutputPath line = none) →
        (s.fs.IsDirectory (cstr (getOutDir s.config)) ↔ x.fs.IsDirectory "output".toList)) := by
  rw [hconfig] at hnew
  have hd := outDir_ne_nil hnew
  have hpath : (cstr (getOutDir s.config) ++ '/' :: x.resultName).length < pathBytes := by
    rw [← mResultPCMPath_eq]
    exact hfits
  have hlen : (cstr (getOutDir s.config) ++ '/' :: x.resultName).length < pathMax := by
    unfold pathBytes at hpath
    unfold pathMax
    omega
  have hname : x.resultName.length ≤ nameMax → FileSystem.Plain x.resultName := by
    intro hshort
    have hplain := plain_resultName (t := []) hspeaker htype List.not_mem_nil (by simpa)
    rwa [List.append_nil] at hplain
  have hslash : '/' ∉ x.resultName := by
    have hno := slash_not_mem_resultName (t := []) hspeaker htype List.not_mem_nil
    rwa [List.append_nil] at hno
  refine ⟨_, _, rfl, rfl, (extends_configInfo hnew).trans (extends_makeResultDir _ _), ?_, ?_, ?_⟩
  · rw [mResultPCMPath_eq]
    by_cases hshort : x.resultName.length ≤ nameMax
    · rw [resultDir_isDirectory_iff hd (hname hshort) hlen]
      simp only [hshort, true_and]
    · exact iff_of_false (nothing_of_long hslash (by omega)).1 fun hand => hshort hand.2.1
  · rw [strReport_eq, mResultPCMPath_eq]
    by_cases hshort : (x.resultName ++ ".txt".toList).length ≤ nameMax
    · have hreport : FileSystem.Plain (x.resultName ++ ".txt".toList) :=
        plain_resultName hspeaker htype (by decide) hshort
      have hshort' : x.resultName.length ≤ nameMax := by
        rw [List.length_append] at hshort
        omega
      have hne : x.resultName ++ ".txt".toList ≠ x.resultName := fun heq =>
        absurd (List.append_right_eq_self.1 heq) (by decide)
      have hlen' : (cstr (getOutDir s.config) ++ '/' :: (x.resultName ++ ".txt".toList)).length <
          pathMax := by
        have htxt : ".txt".toList.length = 4 := by decide
        simp only [List.length_append, List.length_cons, htxt] at hpath ⊢
        unfold pathBytes at hpath
        unfold pathMax
        omega
      rw [creatable_iff hd (hname hshort') hreport hne hlen hlen']
      simp only [hshort, true_and]
    · have hslash' := slash_not_mem_resultName hspeaker htype
        (show '/' ∉ ".txt".toList by decide)
      exact iff_of_false (nothing_of_long hslash' (by omega)).2 fun hand => hshort hand.2.1
  · intro hno
    obtain ⟨hpath, hfs⟩ := outDir_of_noSetting hnew hno
    rw [hpath, hfs]
    exact Iff.rfl

/-- The configuration names no output directory, and there is none: no report. -/
theorem results_of_setup_user :
    ∃ s, configInfo userSetup.config userSetup.fs = some (.ok s) ∧
      ∃ path fs', path = userSetup.mResultPCMPath s.config ∧ fs' = makeResultDir path s.fs ∧
        ¬ fs'.IsDirectory path ∧ ¬ fs'.Creatable (strReport path) := by
  obtain ⟨s, hs⟩ := (configInfo_ok_iff userSetup.fs).2 userSetup_inOrder.accepted
  have hno : ∀ line ∈ configLines manyThreads, valueOf cfgOutputPath line = none := by
    decide +kernel
  have hmissing : ¬ userSetup.fs.IsDirectory "output".toList := by decide
  obtain ⟨path, fs', hpath, hfs', -, hdir, hreport, hdefault⟩ :=
    results_of_setup userSetup manyThreads s rfl hs (by decide) (by decide)
      (userSetup_inOrder.resultPath s hs)
  have hout := (hdefault hno).not.2 hmissing
  exact ⟨s, hs, path, fs', hpath, hfs', fun h => hout (hdir.1 h).1, fun h => hout (hreport.1 h).1⟩

end Run
