import OssTest.ConfigInfo.Settings

/-!
# The script path round trip

A path written behind `script_path` comes out of `getScript()` again when it has no `'='`
and no NUL in it.  A line with a second `'='` is not a setting, and the path is stored as
a C string.
-/

namespace ConfigInfo

open Cpp UtilBox Posix Steps

/-- A setting with this key has the key in it. -/
theorem infix_of_valueOf {key line v : Text} (hlen : line.length < 2 ^ 63)
    (h : valueOf key line = some v) : key <:+: line := by
  obtain ⟨strName, hset, htrim⟩ := valueOf_eq_some_iff.1 h
  have hline := eq_of_settingOf hset
  have hlen' : strName.length < 2 ^ 63 := by
    rw [hline, List.length_append] at hlen
    omega
  rw [hline]
  exact (infix_of_trim hlen' htrim).trans (List.prefix_append _ _).isInfix

/-- The last setting of a key, when no other line has one. -/
theorem lastValue_of_lines {key content line : Text} {pre post : List Text}
    (hlines : configLines content = pre ++ line :: post)
    (hothers : ∀ l ∈ pre ++ post, valueOf key l = none) :
    lastValue key content = valueOf key line := by
  have hpre : pre.filterMap (valueOf key) = [] :=
    List.filterMap_eq_nil_iff.2 fun l hl => hothers l (List.mem_append_left _ hl)
  have hpost : post.filterMap (valueOf key) = [] :=
    List.filterMap_eq_nil_iff.2 fun l hl => hothers l (List.mem_append_right _ hl)
  rw [lastValue, hlines, List.filterMap_append, hpre, List.nil_append, List.filterMap_cons, hpost]
  cases valueOf key line <;> rfl

/-- What `trim` makes of a padded path; an empty one is not padded. -/
theorem trim_padded {b p b' : Text} (hb : Blank b) (hb' : Blank b')
    (hhead : ∀ hne : p ≠ [], p.head hne ∉ whitespaces)
    (hlast : ∀ hne : p ≠ [], p.getLast hne ∉ whitespaces) (hempty : p = [] → b = [] ∧ b' = [])
    (hlen : (b ++ p ++ b').length < 2 ^ 31) : trim (b ++ p ++ b') = .ok p := by
  by_cases hne : p = []
  · obtain ⟨rfl, rfl⟩ := hempty hne
    rw [hne]
    exact trim_of_blank blank_nil
  · exact trim_of_short hb hb' hne (hhead hne) (hlast hne) hlen

section Line

variable {name value : Text}

/-- A line whose value has another `'='` in it is not a setting. -/
theorem settingOf_eq_none (hvalue : '=' ∈ value) : settingOf (name ++ '=' :: value) = none := by
  have hpos : 0 < value.count '=' := List.count_pos_iff.2 hvalue
  rw [settingOf_eq_none_iff, List.count_append, List.count_cons_self]
  omega

/-- A script path throws nothing that `trim` does not throw. -/
theorem accepted_of_script {t : Text} (hname : '=' ∉ name) (hkey : trim name = .ok cfgScriptPath)
    (hvalue : trim value = .ok t) : Accepted (name ++ '=' :: value) := by
  by_cases heq : '=' ∈ value
  · intro strName strValue hset
    rw [settingOf_eq_none heq] at hset
    cases hset
  · intro strName strValue hset
    rw [settingOf_append hname heq] at hset
    cases hset
    exact ⟨_, hkey, fun _ => ⟨t, hvalue⟩, fun hthread => absurd hthread (by decide)⟩

end Line

/-- **The script path round trip.**  A file has the path `p` behind `script_path`, both of
them padded with blanks, and no other line in which `script_path` occurs or which throws.
Then the constructor returns, and `getScript()` is `p` exactly when `p` has neither a
`'='` nor a NUL in it. -/
theorem script_round_trip (fs : FileSystem) (content p b₁ b₂ b₃ b₄ : Text) (pre post : List Text)
    (hlines : configLines content =
      pre ++ (b₁ ++ cfgScriptPath ++ b₂ ++ '=' :: (b₃ ++ p ++ b₄)) :: post)
    (hb₁ : Blank b₁) (hb₂ : Blank b₂) (hb₃ : Blank b₃) (hb₄ : Blank b₄)
    (hhead : ∀ hne : p ≠ [], p.head hne ∉ whitespaces)
    (hlast : ∀ hne : p ≠ [], p.getLast hne ∉ whitespaces)
    (hempty : p = [] → b₃ = [] ∧ b₄ = [])
    (hlen : (b₁ ++ cfgScriptPath ++ b₂ ++ '=' :: (b₃ ++ p ++ b₄)).length < 2 ^ 31)
    (hothers : ∀ l ∈ pre ++ post, ¬ cfgScriptPath <:+: l ∧ Accepted l ∧ l.length < 2 ^ 63) :
    ∃ s, configInfo (some (.ofContent content)) fs = some (.ok s) ∧
      (getScript s.config = p ↔ '=' ∉ p ∧ '\x00' ∉ p) := by
  rw [List.length_append, List.length_cons] at hlen
  have hkey : trim (b₁ ++ cfgScriptPath ++ b₂) = .ok cfgScriptPath :=
    trim_of_short hb₁ hb₂ (by decide) (by decide) (by decide) (by omega)
  have hpath : trim (b₃ ++ p ++ b₄) = .ok p :=
    trim_padded hb₃ hb₄ hhead hlast hempty (by omega)
  have hblank : ∀ {b : Text}, Blank b → '=' ∉ b := fun hb hmem => absurd (hb _ hmem) (by decide)
  have hname : '=' ∉ b₁ ++ cfgScriptPath ++ b₂ := by
    simp only [List.mem_append, not_or]
    exact ⟨⟨hblank hb₁, by decide⟩, hblank hb₂⟩
  have hmem : '=' ∈ b₃ ++ p ++ b₄ ↔ '=' ∈ p := by
    simp [hblank hb₃, hblank hb₄]
  have haccepted : ∀ l ∈ configLines content, Accepted l := by
    intro l hl
    rw [hlines, List.mem_append, List.mem_cons] at hl
    rcases hl with hl | rfl | hl
    · exact (hothers l (List.mem_append_left _ hl)).2.1
    · exact accepted_of_script hname hkey hpath
    · exact (hothers l (List.mem_append_right _ hl)).2.1
  obtain ⟨s, hs⟩ := (configInfo_ok_iff fs).2 haccepted
  obtain ⟨hscript, -⟩ := fields_of_configInfo hs
  have hnone : ∀ l ∈ pre ++ post, valueOf cfgScriptPath l = none := by
    intro l hl
    obtain ⟨hno, -, hl63⟩ := hothers l hl
    by_contra hsome
    obtain ⟨v, hv⟩ := Option.ne_none_iff_exists'.1 hsome
    exact hno (infix_of_valueOf hl63 hv)
  rw [lastValue_of_lines hlines hnone] at hscript
  refine ⟨s, hs, ?_⟩
  by_cases heq : '=' ∈ p
  · -- the line is not a setting: nothing is stored
    rw [valueOf_of_noSetting (settingOf_eq_none (hmem.2 heq))] at hscript
    obtain hscript : s.config.scriptPath = [] := hscript
    rw [getScript, hscript]
    refine iff_of_false ?_ fun hand => hand.1 heq
    rintro rfl
    cases heq
  · -- the path is stored up to its first NUL
    have hset := settingOf_append hname (fun h => heq (hmem.1 h))
    rw [valueOf_eq_some_iff.2 ⟨_, hset, hkey⟩] at hscript
    obtain ⟨t, ht, hcstr⟩ := hscript
    obtain rfl : p = t := Except.ok.inj (hpath.symm.trans ht)
    rw [getScript, hcstr, cstr_eq_self_iff]
    simp [heq]

/-- The path `"a b.txt"`, with blanks around it and behind another line. -/
theorem script_round_trip_blank :
    ∃ s, configInfo (some (.ofContent "[run]\n script_path\t=  a b.txt \r\n".toList)) bare =
        some (.ok s) ∧
      (getScript s.config = "a b.txt".toList ↔
        '=' ∉ "a b.txt".toList ∧ '\x00' ∉ "a b.txt".toList) :=
  script_round_trip bare _ "a b.txt".toList " ".toList "\t".toList "  ".toList " ".toList
    ["[run]".toList] [[]] (by decide) (by decide) (by decide) (by decide) (by decide) (by decide)
    (by decide) (by decide) (by decide) (by decide +kernel)

/-- The path `"a=b"` is lost. -/
theorem equals_sign_is_lost :
    ∃ s, configInfo (some (.ofContent "script_path=a=b".toList)) bare = some (.ok s) ∧
      getScript s.config ≠ "a=b".toList := by
  have hlines : ∀ l ∈ configLines "script_path=a=b".toList, Accepted l := by decide +kernel
  have hlast : lastValue cfgScriptPath "script_path=a=b".toList = none := by decide +kernel
  obtain ⟨s, hs⟩ := (configInfo_ok_iff bare).2 hlines
  obtain ⟨hscript, -⟩ := fields_of_configInfo hs
  rw [hlast] at hscript
  obtain hscript : s.config.scriptPath = [] := hscript
  refine ⟨s, hs, ?_⟩
  rw [getScript, hscript]
  decide

end ConfigInfo
