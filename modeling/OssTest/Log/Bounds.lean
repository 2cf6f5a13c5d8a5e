import OssTest.Log.Rotation

/-!
# Log files stay bounded

The check reads the size of the log file before the message is written, may see
an old size, and is skipped in mode 2.  `Bounded` is the invariant that comes
out of this, `makeLogFile_bounded` its step lemma, and `log_files_bounded` the
bound over a run of any length.
-/

namespace EngineLog

open Cpp

/-- The size the check sees is at most `B` bytes behind what was written to the
open log file. -/
def Behind (B : ℕ) (s : LogFile) (os : Observed) : Prop :=
  s.fpLog ≠ none → (s.disk s.logname).length ≤ toSize os.tellg + B

/-- With messages of at most `L` bytes and a size seen at most `B` bytes late, an
open file has at most `MAX_LOG_SIZE + B + L` bytes, and a closed one may have
taken one more message. -/
structure Bounded (L B : ℕ) (s : LogFile) : Prop where
  sizecheckcnt : s.sizecheckcnt = 0
  logname : ∀ name, s.fpLog = some name → s.logname = name
  isOpen : ∀ name ∈ s.opened, s.fpLog = some name →
    (s.disk name).length ≤ maxLogSize + B + L
  isClosed : ∀ name ∈ s.opened, (s.disk name).length ≤ maxLogSize + B + 2 * L

theorem bounded_start (L B : ℕ) (disk : Text → Text) : Bounded L B (.start disk) where
  sizecheckcnt := rfl
  logname := fun _ h => by cases h
  isOpen := fun _ h => by cases h
  isClosed := fun _ h => by cases h

section Step

variable {L B : ℕ} {mTimeInfo : Text} {s : LogFile}

theorem Bounded.closeLog (h : Bounded L B s) (mode : Int) : Bounded L B (closeLog mode s) := by
  unfold EngineLog.closeLog
  split
  · exact ⟨h.sizecheckcnt, fun _ hn => (by cases hn), fun _ _ hn => (by cases hn), h.isClosed⟩
  · exact h

/-- The next file holds nothing but the message that opened it. -/
theorem Bounded.open_append (h : Bounded L B s) {msg : Option Text}
    (hmsg : (msgText msg).length ≤ L) {os : Observed} (hok : os.fopenOk = true) :
    Bounded L B (appendMsg msg (openLog mTimeInfo os s)) := by
  rw [appendMsg_of_open (openLog_fpLog hok)]
  simp only [openLog, hok, if_true]
  refine ⟨h.sizecheckcnt, fun name hn => Option.some.inj hn, ?_, ?_⟩
  · intro name _ hn
    cases hn
    simp only [Function.update_self, List.nil_append]
    omega
  · intro name hname
    by_cases hnew : name = lognameOf mTimeInfo s.idxlog
    · subst hnew
      simp only [Function.update_self, List.nil_append]
      omega
    · have hold : name ∈ s.opened := by
        rcases List.mem_append.1 hname with hold | hlast
        · exact hold
        · exact absurd (List.mem_singleton.1 hlast) hnew
      simp only [Function.update_of_ne hnew]
      exact h.isClosed name hold

/-- **One call.** -/
theorem makeLogFile_bounded (h : Bounded L B s) (c : Call) (hok : c.os.fopenOk = true)
    (hmsg : (msgText c.msg).length ≤ L) (hlag : Behind B s c.os) :
    Bounded L B (makeLogFile mTimeInfo c.mode c.msg c.os s).1 := by
  rw [makeLogFile_eq h.sizecheckcnt, if_pos hok]
  by_cases hopens : opens s.fpLog.isSome c.mode c.os = true
  · rw [if_pos hopens]
    exact (h.open_append hmsg hok).closeLog c.mode
  · rw [if_neg hopens]
    cases hfp : s.fpLog with
    | none =>
      rw [appendMsg_of_closed hfp]
      exact h.closeLog c.mode
    | some name =>
      have hname := h.logname name hfp
      have hsize : (s.disk name).length ≤ toSize c.os.tellg + B := by
        rw [← hname]
        exact hlag (by rw [hfp]; exact Option.some_ne_none _)
      rw [appendMsg_of_open hfp]
      have hlen : (s.disk name ++ msgText c.msg).length ≤ (s.disk name).length + L := by
        rw [List.length_append]
        omega
      -- the message went to `name`, every other file is as it was
      have hclosed : ∀ other ∈ s.opened,
          (Function.update s.disk name (s.disk name ++ msgText c.msg) other).length ≤
            maxLogSize + B + 2 * L := by
        intro other hother
        by_cases heq : other = name
        · subst heq
          rw [Function.update_self]
          have := h.isOpen other hother hfp
          omega
        · rw [Function.update_of_ne heq]
          exact h.isClosed other hother
      by_cases hmode : c.mode = 2
      · rw [EngineLog.closeLog, if_pos hmode]
        exact ⟨h.sizecheckcnt, fun _ hn => (by cases hn), fun _ _ hn => (by cases hn), hclosed⟩
      · -- the log stays open, so the check found it small enough
        have hsmall : toSize c.os.tellg ≤ maxLogSize := by
          simpa [opens, hfp, hmode, Observed.oversize] using hopens
        rw [EngineLog.closeLog, if_neg hmode]
        refine ⟨h.sizecheckcnt, h.logname, ?_, hclosed⟩
        intro other hother hn
        cases hfp.symm.trans hn
        simp only [Function.update_self]
        omega

end Step

theorem runCalls_append (mTimeInfo : Text) (s : LogFile) (as bs : List Call) :
    runCalls mTimeInfo s (as ++ bs) = runCalls mTimeInfo (runCalls mTimeInfo s as) bs :=
  List.foldl_append

/-- **Log files stay bounded** over every sequence of calls whose `fopen`s
succeed: a message has at most `L` bytes and each check sees a size at most `B`
bytes behind; then an open log file has at most `MAX_LOG_SIZE + B + L` bytes and a
closed one at most `MAX_LOG_SIZE + B + 2 L`. -/
theorem log_files_bounded (mTimeInfo : Text) (disk : Text → Text) (L B : ℕ) (calls : List Call)
    (hok : ∀ c ∈ calls, c.os.fopenOk = true)
    (hmsg : ∀ c ∈ calls, (msgText c.msg).length ≤ L)
    (hlag : ∀ pre c post, calls = pre ++ c :: post →
      Behind B (runCalls mTimeInfo (.start disk) pre) c.os) :
    ∀ name ∈ (runCalls mTimeInfo (.start disk) calls).opened,
      ((runCalls mTimeInfo (.start disk) calls).fpLog = some name →
        ((runCalls mTimeInfo (.start disk) calls).disk name).length ≤ maxLogSize + B + L) ∧
      ((runCalls mTimeInfo (.start disk) calls).fpLog ≠ some name →
        ((runCalls mTimeInfo (.start disk) calls).disk name).length ≤
          maxLogSize + B + 2 * L) := by
  have hbounded : Bounded L B (runCalls mTimeInfo (.start disk) calls) := by
    induction calls using List.reverseRecOn with
    | nil => exact bounded_start L B disk
    | append_singleton cs c ih =>
      rw [runCalls_append]
      refine makeLogFile_bounded (ih ?_ ?_ ?_) c (hok c (by simp)) (hmsg c (by simp))
        (hlag cs c [] rfl)
      · exact fun c' hc' => hok c' (by simp [hc'])
      · exact fun c' hc' => hmsg c' (by simp [hc'])
      · intro pre c' post hsplit
        exact hlag pre c' (post ++ [c]) (by simp [hsplit])
  exact fun name hname => ⟨hbounded.isOpen name hname, fun _ => hbounded.isClosed name hname⟩

/-- A log that is opened, written once under a check that sees everything, and
closed with a message of two bytes. -/
theorem log_files_bounded_small :
    ((runCalls "t".toList (.start fun _ => [])
      [⟨0, none, ⟨-1, true⟩⟩, ⟨1, some "a".toList, ⟨0, true⟩⟩,
        ⟨2, some "bc".toList, ⟨1, true⟩⟩]).disk "ENGINE_t_0_log.txt".toList).length ≤
      maxLogSize + 0 + 2 * 2 := by
  refine (log_files_bounded "t".toList (fun _ => []) 2 0
    [⟨0, none, ⟨-1, true⟩⟩, ⟨1, some "a".toList, ⟨0, true⟩⟩, ⟨2, some "bc".toList, ⟨1, true⟩⟩]
    (by decide) (by decide) ?_ "ENGINE_t_0_log.txt".toList (by decide)).2 (by decide)
  intro pre c post hsplit
  match pre, hsplit with
  | [], hsplit => cases hsplit; intro h; exact absurd rfl h
  | [_], hsplit => cases hsplit; intro _; decide
  | [_, _], hsplit => cases hsplit; intro _; decide
  | _ :: _ :: _ :: pre, hsplit =>
    have := congrArg List.length hsplit
    simp at this

end EngineLog
