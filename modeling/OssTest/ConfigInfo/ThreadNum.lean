import OssTest.ConfigInfo.Script

/-!
# The number of threads round trip

A number written behind `thread_num` is what `getThreadNum()` returns, whatever stands
behind the number; one that an `int` cannot hold ends the constructor.

* `stoi_fmtD` — `std::stoi` reads what `%d` prints.
* `thread_round_trip` — from the file to the field, or to the exception.
-/

namespace Cpp

variable {n : Int} {rest : Text}

/-- A number ends where no digit follows. -/
theorem takeWhile_isDigit_append (k : ℕ) (hrest : ∀ c, rest.head? = some c → c.isDigit = false) :
    (Nat.toDigits 10 k ++ rest).takeWhile Char.isDigit = Nat.toDigits 10 k := by
  have hnone : rest.takeWhile Char.isDigit = [] := by
    cases rest with
    | nil => rfl
    | cons c cs => rw [List.takeWhile_cons_of_neg (by simp [hrest c rfl])]
  rw [List.takeWhile_append_of_pos fun c hc => isDigit_of_mem_toDigits hc, hnone,
    List.append_nil]

/-- The sign of a printed number. -/
theorem readSign_fmtD :
    readSign (fmtD n ++ rest) = (decide (n < 0), Nat.toDigits 10 n.natAbs ++ rest) := by
  unfold fmtD
  split
  · rename_i hneg
    rw [decide_eq_true hneg]
    rfl
  · rename_i hpos
    obtain ⟨c, cs, hdigits⟩ := List.exists_cons_of_ne_nil (Nat.toDigits_ne_nil (n := n.natAbs))
    have hc : c.isDigit = true := isDigit_of_mem_toDigits (hdigits ▸ List.mem_cons_self)
    rw [decide_eq_false hpos, hdigits, List.cons_append]
    unfold readSign
    split
    · rename_i heq
      rw [(List.cons.inj heq).1] at hc
      exact absurd hc (by decide)
    · rename_i heq
      rw [(List.cons.inj heq).1] at hc
      exact absurd hc (by decide)
    · rfl

/-- **A printed number is read back**, as far as it goes. -/
theorem readInt_fmtD (hrest : ∀ c, rest.head? = some c → c.isDigit = false) :
    (readInt (fmtD n ++ rest)).map Prod.fst = some n := by
  rw [readInt, readSign_fmtD]
  dsimp only
  rw [takeWhile_isDigit_append _ hrest, if_neg Nat.toDigits_ne_nil, Option.map_some,
    Nat.ofDigitChars_ten_toDigits]
  by_cases hneg : n < 0
  · rw [decide_eq_true hneg, if_pos rfl, Option.some_inj]
    omega
  · rw [decide_eq_false hneg, if_neg Bool.false_ne_true, Option.some_inj]
    omega

/-- White space in front of a printed number is skipped. -/
theorem skipSpace_append_fmtD {b : Text} (hb : ∀ c ∈ b, isspace c = true) :
    skipSpace (b ++ (fmtD n ++ rest)) = fmtD n ++ rest := by
  obtain ⟨c, cs, hcs⟩ := List.exists_cons_of_ne_nil (fmtD_ne_nil n)
  have hc : isspace c = false := by
    rcases mem_fmtD (hcs ▸ List.mem_cons_self : c ∈ fmtD n) with rfl | hdigit
    · decide
    · rw [isspace, List.contains_eq_mem, decide_eq_false_iff_not]
      intro hmem
      have hno : [' ', '\t', '\n', '\x0b', '\x0c', '\r'].all (fun x => !x.isDigit) = true := by
        decide
      have hc := List.all_eq_true.1 hno c hmem
      rw [hdigit] at hc
      cases hc
  rw [skipSpace, List.dropWhile_append_of_pos hb, hcs, List.cons_append,
    List.dropWhile_cons_of_neg (by simp [hc])]

/-- **`std::stoi` reads what `%d` prints**, or throws where an `int` cannot hold it. -/
theorem stoi_fmtD {b : Text} (hb : ∀ c ∈ b, isspace c = true)
    (hrest : ∀ c, rest.head? = some c → c.isDigit = false) :
    stoi (b ++ (fmtD n ++ rest)) =
      if -2 ^ 31 ≤ n ∧ n < 2 ^ 31 then .ok n else .error .outOfRange := by
  obtain ⟨⟨m, more⟩, hread, hm⟩ := Option.map_eq_some_iff.1 (readInt_fmtD (n := n) hrest)
  obtain rfl : m = n := hm
  rw [stoi, skipSpace_append_fmtD hb, hread]

end Cpp

namespace ConfigInfo

open Cpp UtilBox Posix Steps

theorem isspace_of_blank {b : Text} (hb : Blank b) : ∀ c ∈ b, isspace c = true := by
  have hspace : whitespaces.all isspace = true := by decide
  exact fun c hc => List.all_eq_true.1 hspace c (hb c hc)

/-- A line without the key in it sets nothing under the key. -/
theorem valueOf_of_not_infix {key line : Text} (hlen : line.length < 2 ^ 63)
    (h : ¬ key <:+: line) : valueOf key line = none := by
  by_contra hsome
  obtain ⟨v, hv⟩ := Option.ne_none_iff_exists'.1 hsome
  exact h (infix_of_valueOf hlen hv)

/-- An exception behind lines that go through ends the loop. -/
theorem applyLines_of_error {pre post : List Text} {line : Text} {s s₁ : State}
    {e : StdException} (hpre : runFrom applied s pre = some s₁)
    (hline : applyLine line s₁ = some (.error e)) :
    applyLines (pre ++ line :: post) s = some (.error e) := by
  induction pre generalizing s with
  | nil =>
    cases hpre
    rw [List.nil_append, applyLines, hline]
  | cons l pre ih =>
    obtain ⟨t, happlied, hrest⟩ := runFrom_cons_eq_some.1 hpre
    obtain ⟨result, hresult, hok⟩ := Option.bind_eq_some_iff.1 happlied
    rw [List.cons_append, applyLines, hresult, toOption_eq_some_iff.1 hok]
    exact ih hrest

section Line

variable {name value : Text} (hname : '=' ∉ name) (hvalue : '=' ∉ value)
  (hkey : trim name = .ok cfgThreadNum)

include hname hvalue hkey

/-- A number of threads is accepted when it is a number that fits. -/
theorem accepted_of_thread {n : Int} (hn : stoi value = .ok n) :
    Accepted (name ++ '=' :: value) := by
  intro strName strValue hset
  rw [settingOf_append hname hvalue] at hset
  cases hset
  exact ⟨_, hkey, fun hpath => absurd hpath (by decide), fun _ => ⟨n, hn⟩⟩

/-- What `std::stoi` throws, the line throws. -/
theorem applyLine_of_error {e : StdException} (hn : stoi value = .error e) (s : State) :
    applyLine (name ++ '=' :: value) s = some (.error e) := by
  rw [applyLine_eq, settingOf_append hname hvalue]
  dsimp only
  rw [applySetting, hkey, ok_bind, if_neg (by decide), if_neg (by decide), if_pos rfl, hn]
  rfl

end Line

/-- **The number of threads round trip.**  A file has the number `n` behind `thread_num`,
padded with blanks and with anything behind it but a digit or a `'='`, and no other line in
which `thread_num` occurs or which throws.  Then the constructor returns with that number
where an `int` can hold it, and otherwise it ends with `std::out_of_range`. -/
theorem thread_round_trip (fs : FileSystem) (content b₁ b₂ b₃ r : Text) (n : Int)
    (pre post : List Text)
    (hlines : configLines content =
      pre ++ (b₁ ++ cfgThreadNum ++ b₂ ++ '=' :: (b₃ ++ (fmtD n ++ r))) :: post)
    (hb₁ : Blank b₁) (hb₂ : Blank b₂) (hb₃ : Blank b₃) (heq : '=' ∉ r)
    (hdigit : ∀ c, r.head? = some c → c.isDigit = false)
    (hlen : (b₁ ++ cfgThreadNum ++ b₂).length < 2 ^ 31)
    (hothers : ∀ l ∈ pre ++ post, ¬ cfgThreadNum <:+: l ∧ Accepted l ∧ l.length < 2 ^ 63) :
    (-2 ^ 31 ≤ n ∧ n < 2 ^ 31 →
        ∃ s, configInfo (some (.ofContent content)) fs = some (.ok s) ∧ s.config.threadNum = n) ∧
      (¬ (-2 ^ 31 ≤ n ∧ n < 2 ^ 31) →
        configInfo (some (.ofContent content)) fs = some (.error .outOfRange)) := by
  have hkey : trim (b₁ ++ cfgThreadNum ++ b₂) = .ok cfgThreadNum :=
    trim_of_short hb₁ hb₂ (by decide) (by decide) (by decide) hlen
  have hblank : ∀ {b : Text}, Blank b → '=' ∉ b := fun hb hmem => absurd (hb _ hmem) (by decide)
  have hname : '=' ∉ b₁ ++ cfgThreadNum ++ b₂ := by
    simp only [List.mem_append, not_or]
    exact ⟨⟨hblank hb₁, by decide⟩, hblank hb₂⟩
  have hvalue : '=' ∉ b₃ ++ (fmtD n ++ r) := by
    simp only [List.mem_append, not_or]
    exact ⟨hblank hb₃, not_mem_fmtD (by decide) (by decide), heq⟩
  have hstoi := stoi_fmtD (n := n) (isspace_of_blank hb₃) hdigit
  constructor
  · intro hrange
    rw [if_pos hrange] at hstoi
    have haccepted : ∀ l ∈ configLines content, Accepted l := by
      intro l hl
      rw [hlines, List.mem_append, List.mem_cons] at hl
      rcases hl with hl | rfl | hl
      · exact (hothers l (List.mem_append_left _ hl)).2.1
      · exact accepted_of_thread hname hvalue hkey hstoi
      · exact (hothers l (List.mem_append_right _ hl)).2.1
    obtain ⟨s, hs⟩ := (configInfo_ok_iff fs).2 haccepted
    obtain ⟨-, hthread⟩ := fields_of_configInfo hs
    have hnone : ∀ l ∈ pre ++ post, valueOf cfgThreadNum l = none := fun l hl =>
      valueOf_of_not_infix (hothers l hl).2.2 (hothers l hl).1
    rw [lastValue_of_lines hlines hnone,
      valueOf_eq_some_iff.2 ⟨_, settingOf_append hname hvalue, hkey⟩] at hthread
    obtain hthread : stoi _ = .ok s.config.threadNum := hthread
    exact ⟨s, hs, (Except.ok.inj (hstoi.symm.trans hthread)).symm⟩
  · intro hrange
    rw [if_neg hrange] at hstoi
    have hpre : ∀ l ∈ pre, Accepted l := fun l hl =>
      (hothers l (List.mem_append_left _ hl)).2.1
    obtain ⟨s₁, hs₁⟩ := (runFrom_isSome_iff accepted_iff (s := start fs)).2 hpre
    rw [configInfo_eq, hlines]
    exact applyLines_of_error hs₁ (applyLine_of_error hname hvalue hkey hstoi s₁)

/-- Four threads, and four thousand millions of them. -/
theorem thread_round_trip_four :
    (∃ s, configInfo (some (.ofContent "thread_num = 4 of 8\r\n".toList)) bare = some (.ok s) ∧
        s.config.threadNum = 4) ∧
      configInfo (some (.ofContent "thread_num = 4000000000".toList)) bare =
        some (.error .outOfRange) :=
  ⟨(thread_round_trip bare _ [] " ".toList " ".toList " of 8".toList 4 [] [[]] (by decide)
      (by decide) (by decide) (by decide) (by decide) (fun c hc => by cases hc; rfl) (by decide)
      (by decide +kernel)).1 (by decide),
    (thread_round_trip bare _ [] " ".toList " ".toList [] 4000000000 [] [] (by decide)
      (by decide) (by decide) (by decide) (by decide) (fun c hc => by cases hc) (by decide)
      (by decide +kernel)).2 (by decide)⟩

end ConfigInfo
