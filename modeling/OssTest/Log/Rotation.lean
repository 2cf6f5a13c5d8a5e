import OssTest.Log.Basic
import Mathlib.Data.List.Nodup

/-!
# Rotation: the log files are one append-only log

Whatever sizes the check observes, the log files put together say what a single
append-only log would: the messages of the calls made while the log is open.

* `segCall` is a call on a log kept in segments and `openMessages` what the
  single log holds; `entries_segRun` says that cutting into segments loses
  nothing.
* `Refines` ties the files to the segments, `makeLogFile_refines` is the step and
  `runCalls_refines` the run.
* The file index is an `int`: it counts the files while there are at most
  `2 ^ 31` of them (`intact_iff`), and `index_overflow` is a run with one more.
-/

namespace EngineLog

open Cpp SegLog

/-! ## The log in segments -/

/-- A call on the segmented log. -/
def segCall (g : SegLog Text) (c : Call) : SegLog Text :=
  let g := if opens g.current.isSome c.mode c.os then g.start else g
  let g := g.push (msgText c.msg)
  if c.mode = 2 then g.close else g

/-- A sequence of calls on the segmented log. -/
def segRun (g : SegLog Text) (calls : List Call) : SegLog Text := calls.foldl segCall g

/-- The messages of the calls made while the log is open: from a mode-0 call
that opens it up to and including the next mode-2 call. -/
def openMessages : Bool → List Call → List Text
  | _, [] => []
  | isOpen, c :: cs =>
      let isOpen := isOpen || c.mode == 0
      (if isOpen then [msgText c.msg] else []) ++ openMessages (isOpen && c.mode != 2) cs

theorem segCall_entries (g : SegLog Text) (c : Call) :
    (segCall g c).entries =
      g.entries ++ if g.current.isSome || c.mode == 0 then [msgText c.msg] else [] := by
  have hclose : (segCall g c).entries =
      ((if opens g.current.isSome c.mode c.os then g.start else g).push
        (msgText c.msg)).entries := by
    unfold segCall
    dsimp only
    split <;> simp
  rw [hclose]
  cases hcur : g.current.isSome with
  | true =>
    split
    · rw [entries_push (by rfl)]
      simp
    · rw [entries_push hcur]
      simp
  | false =>
    by_cases hmode : c.mode = 0
    · rw [if_pos (by simp [opens, hmode]), entries_push (by rfl)]
      simp [hmode]
    · rw [if_neg (by simp [opens, hmode]), push_of_closed (by simpa using hcur)]
      simp [hmode]

theorem segCall_isOpen (g : SegLog Text) (c : Call) :
    (segCall g c).current.isSome = ((g.current.isSome || c.mode == 0) && c.mode != 2) := by
  unfold segCall
  dsimp only
  by_cases h2 : c.mode = 2
  · simp [h2, close]
  · rw [if_neg h2, current_isSome_push]
    cases hcur : g.current.isSome with
    | true => split <;> simp [h2, hcur, start]
    | false =>
      by_cases h0 : c.mode = 0
      · simp [opens, h0, start]
      · simp [opens, h0, hcur]

/-- **Cutting the log into segments loses nothing and adds nothing.** -/
theorem entries_segRun (g : SegLog Text) (calls : List Call) :
    (segRun g calls).entries = g.entries ++ openMessages g.current.isSome calls := by
  induction calls generalizing g with
  | nil => simp [segRun, openMessages]
  | cons c cs ih =>
    have hrun : segRun g (c :: cs) = segRun (segCall g c) cs := rfl
    rw [hrun, ih, segCall_entries, segCall_isOpen, List.append_assoc]
    rfl

theorem segments_segCall (g : SegLog Text) (c : Call) :
    (segCall g c).segments.length =
      g.segments.length + if opens g.current.isSome c.mode c.os then 1 else 0 := by
  unfold segCall
  dsimp only
  split <;> split <;> simp

/-! ## The files refine the segments -/

/-- The files and the state of `makeLogFile` show the segmented log: segment `i`
is the file whose index is `i`, converted to an `int`. -/
structure Refines (mTimeInfo : Text) (g : SegLog Text) (s : LogFile) : Prop where
  idxlog : s.idxlog = toInt g.segments.length
  sizecheckcnt : s.sizecheckcnt = 0
  opened : s.opened =
    (List.range g.segments.length).map fun i : ℕ => lognameOf mTimeInfo (toInt i)
  fpLog : s.fpLog = g.current.map fun _ => lognameOf mTimeInfo (toInt g.sealed.length)
  /-- While an `int` tells the indices apart, a file holds the messages of its segment. -/
  disk : g.segments.length ≤ 2 ^ 32 → ∀ i (hi : i < g.segments.length),
    s.disk (lognameOf mTimeInfo (toInt i)) = g.segments[i].flatten

theorem refines_start (mTimeInfo : Text) (disk : Text → Text) :
    Refines mTimeInfo SegLog.empty (.start disk) where
  idxlog := toInt_zero.symm
  sizecheckcnt := rfl
  opened := rfl
  fpLog := rfl
  disk := fun _ i hi => absurd hi (Nat.not_lt_zero i)

section Step

variable {mTimeInfo : Text} {g : SegLog Text} {s : LogFile}

theorem Refines.isOpen (h : Refines mTimeInfo g s) : s.fpLog.isSome = g.current.isSome := by
  rw [h.fpLog, Option.isSome_map]

/-- Different segments lie in different files while an `int` tells them apart. -/
theorem logname_ne {i j : ℕ} (hi : i < 2 ^ 32) (hj : j < 2 ^ 32) (hij : i ≠ j) :
    lognameOf mTimeInfo (toInt i) ≠ lognameOf mTimeInfo (toInt j) := fun h =>
  hij (toInt_natCast_injOn hi hj (lognameOf_injective h))

/-- Opening the next file begins the next segment. -/
theorem Refines.openLog (h : Refines mTimeInfo g s) {os : Observed} (hok : os.fopenOk = true) :
    Refines mTimeInfo g.start (openLog mTimeInfo os s) where
  idxlog := by
    simp only [EngineLog.openLog, hok, if_true, h.idxlog, toInt_toInt_add_one, segments_start,
      List.length_append, List.length_singleton, Nat.cast_add, Nat.cast_one]
  sizecheckcnt := by rw [openLog_sizecheckcnt, h.sizecheckcnt]
  opened := by
    simp [EngineLog.openLog, hok, h.opened, h.idxlog, List.range_succ]
  fpLog := by
    rw [openLog_fpLog hok, h.idxlog]
    rfl
  disk := by
    intro hfew i hi
    rw [segments_start, List.length_append, List.length_singleton] at hfew hi
    simp only [EngineLog.openLog, hok, if_true, h.idxlog, segments_start]
    by_cases hlast : i = g.segments.length
    · subst hlast
      simp
    · have hi' : i < g.segments.length := by omega
      rw [Function.update_of_ne (logname_ne (by omega) (by omega) hlast),
        h.disk (by omega) i hi', List.getElem_append_left hi']

/-- What `fwrite` does to the open file. -/
theorem appendMsg_of_open {msg : Option Text} {name : Text} (hfp : s.fpLog = some name) :
    appendMsg msg s =
      { s with disk := Function.update s.disk name (s.disk name ++ msgText msg) } := by
  simp only [appendMsg, hfp]
  split
  · rfl
  · rename_i hempty
    have hnil : msgText msg = [] := by
      cases msg with
      | none => rfl
      | some m => simpa using hempty
    rw [hnil, List.append_nil, Function.update_eq_self, ← hfp]

theorem appendMsg_of_closed {msg : Option Text} (hfp : s.fpLog = none) : appendMsg msg s = s := by
  simp [appendMsg, hfp]

/-- Writing a message adds it to the segment being written. -/
theorem Refines.appendMsg (h : Refines mTimeInfo g s) (msg : Option Text) :
    Refines mTimeInfo (g.push (msgText msg)) (appendMsg msg s) := by
  cases hcur : g.current with
  | none =>
    rw [push_of_closed hcur, appendMsg_of_closed (by rw [h.fpLog, hcur]; rfl)]
    exact h
  | some xs =>
    have hfp : s.fpLog = some (lognameOf mTimeInfo (toInt g.sealed.length)) := by
      rw [h.fpLog, hcur]
      rfl
    have hseg := segments_of_open hcur
    have hpush := segments_push hcur (msgText msg)
    rw [appendMsg_of_open hfp]
    exact
      { idxlog := by rw [length_segments_push]; exact h.idxlog
        sizecheckcnt := h.sizecheckcnt
        opened := by rw [length_segments_push]; exact h.opened
        fpLog := by simp [hfp, push, hcur]
        disk := by
          intro hfew i hi
          rw [length_segments_push] at hfew hi
          have hlen : g.segments.length = g.sealed.length + 1 := by simp [hseg]
          simp only [hpush]
          have hold := h.disk hfew i hi
          simp only [hseg] at hold
          by_cases hlast : i = g.sealed.length
          · subst hlast
            simp only [List.getElem_concat_length] at hold ⊢
            rw [Function.update_self, hold]
            simp
          · have hi' : i < g.sealed.length := by omega
            rw [Function.update_of_ne (logname_ne (by omega) (by omega) hlast), hold]
            simp [List.getElem_append_left hi'] }

/-- Closing the file seals its segment. -/
theorem Refines.closeLog (h : Refines mTimeInfo g s) (mode : Int) :
    Refines mTimeInfo (if mode = 2 then g.close else g) (closeLog mode s) := by
  unfold EngineLog.closeLog
  split
  · exact
      { idxlog := by rw [segments_close]; exact h.idxlog
        sizecheckcnt := h.sizecheckcnt
        opened := by rw [segments_close]; exact h.opened
        fpLog := rfl
        disk := by
          intro hfew i hi
          rw [segments_close] at hfew hi
          simpa only [segments_close] using h.disk hfew i hi }
  · exact h

/-- **One call.**  When `fopen` succeeds, `makeLogFile` does to the files what the
call does to the segments. -/
theorem makeLogFile_refines (h : Refines mTimeInfo g s) (c : Call) (hok : c.os.fopenOk = true) :
    Refines mTimeInfo (segCall g c) (makeLogFile mTimeInfo c.mode c.msg c.os s).1 := by
  rw [makeLogFile_eq h.sizecheckcnt, h.isOpen, segCall, if_pos hok]
  by_cases hopens : opens g.current.isSome c.mode c.os = true
  · rw [if_pos hopens, if_pos hopens]
    exact ((h.openLog hok).appendMsg c.msg).closeLog c.mode
  · rw [if_neg hopens, if_neg hopens]
    exact (h.appendMsg c.msg).closeLog c.mode

/-- **A run of calls.** -/
theorem runCalls_refines (h : Refines mTimeInfo g s) (calls : List Call)
    (hok : ∀ c ∈ calls, c.os.fopenOk = true) :
    Refines mTimeInfo (segRun g calls) (runCalls mTimeInfo s calls) := by
  induction calls generalizing g s with
  | nil => exact h
  | cons c cs ih =>
    exact ih (makeLogFile_refines h c (hok c (List.mem_cons_self ..)))
      fun c' hc' => hok c' (List.mem_cons_of_mem _ hc')

end Step

/-! ## The log files together -/

/-- The log files say what the calls logged while the log was open. -/
structure Intact (mTimeInfo : Text) (calls : List Call) (s : LogFile) : Prop where
  /-- The files are numbered 0, 1, 2 and so on in the order in which they were opened. -/
  numbered : s.opened = (List.range s.opened.length).map fun i : ℕ => lognameOf mTimeInfo i
  /-- No file is opened, and so truncated, twice. -/
  once : s.opened.Nodup
  /-- Put together in index order they hold the messages in call order. -/
  concat : ((List.range s.opened.length).flatMap fun i : ℕ => s.disk (lognameOf mTimeInfo i)) =
    (openMessages false calls).flatten
  /-- Every message lies in one file: a file holds whole messages. -/
  whole : ∃ files : List (List Text), files.flatten = openMessages false calls ∧
    files.length = s.opened.length ∧
    ∀ i (hi : i < files.length), s.disk (lognameOf mTimeInfo i) = files[i].flatten

/-- The log files together, in the order in which they were opened. -/
def LogFile.text (s : LogFile) : Text := s.opened.flatMap s.disk

/-- **The log files together hold the log**, while an `int` tells their indices apart. -/
theorem Refines.text {mTimeInfo : Text} {g : SegLog Text} {s : LogFile} (h : Refines mTimeInfo g s)
    (hfew : s.opened.length ≤ 2 ^ 32) : s.text = g.entries.flatten := by
  have hlen : s.opened.length = g.segments.length := by simp [h.opened]
  have hdisk := h.disk (hlen ▸ hfew)
  have hfiles : s.opened.map s.disk = g.segments.map List.flatten := by
    apply List.ext_getElem (by simp [hlen])
    intro i h1 h2
    have hi : i < g.segments.length := by simpa using h2
    simp only [List.getElem_map, h.opened, List.getElem_range]
    exact hdisk i hi
  rw [LogFile.text, List.flatMap_def, hfiles, SegLog.entries, List.flatten_flatten]

/-- The files the calls open. -/
def openedFiles (calls : List Call) : ℕ := (segRun SegLog.empty calls).segments.length

/-- While the index is an `int` that counts, the files are intact. -/
theorem intact_of_refines {mTimeInfo : Text} {calls : List Call} {s : LogFile}
    (h : Refines mTimeInfo (segRun SegLog.empty calls) s) (hfew : openedFiles calls ≤ 2 ^ 31) :
    Intact mTimeInfo calls s := by
  have hentries : (segRun SegLog.empty calls).entries = openMessages false calls := by
    rw [entries_segRun]
    rfl
  unfold openedFiles at hfew
  unfold SegLog.entries at hentries
  have hdisk := h.disk (by omega)
  have hopened := h.opened
  generalize (segRun SegLog.empty calls).segments = segs at hfew hentries hdisk hopened
  have hint : ∀ i < segs.length, toInt (i : ℕ) = i := fun i hi => toInt_natCast_of_lt (by omega)
  have hlen : s.opened.length = segs.length := by simp [hopened]
  have hnames : s.opened = (List.range segs.length).map fun i : ℕ => lognameOf mTimeInfo i := by
    rw [hopened]
    exact List.map_congr_left fun i hi => by rw [hint i (List.mem_range.1 hi)]
  have hfile : ∀ i (hi : i < segs.length), s.disk (lognameOf mTimeInfo i) = segs[i].flatten :=
    fun i hi => by rw [← hint i hi]; exact hdisk i hi
  refine ⟨by rw [hlen]; exact hnames, ?_, ?_, segs, hentries, hlen.symm, hfile⟩
  · rw [hnames]
    refine List.Nodup.map ?_ List.nodup_range
    intro i j hij
    exact_mod_cast lognameOf_injective hij
  · rw [hlen, ← hentries, List.flatMap_def]
    have hmap : ((List.range segs.length).map fun i : ℕ => s.disk (lognameOf mTimeInfo i)) =
        segs.map List.flatten := by
      apply List.ext_getElem (by simp)
      intro i h1 h2
      simp only [List.getElem_map, List.getElem_range]
      exact hfile i (by simpa using h2)
    rw [hmap, List.flatten_flatten]

/-- Past that, the index of some file is no longer its number. -/
theorem few_of_intact {mTimeInfo : Text} {calls : List Call} {s : LogFile}
    (h : Refines mTimeInfo (segRun SegLog.empty calls) s) (hint : Intact mTimeInfo calls s) :
    openedFiles calls ≤ 2 ^ 31 := by
  by_contra hmany
  unfold openedFiles at hmany
  have hnum := hint.numbered
  rw [h.opened, List.length_map, List.length_range] at hnum
  have hname := List.map_inj_left.1 hnum (2 ^ 31) (List.mem_range.2 (by omega))
  exact absurd (toInt_natCast_eq_iff.1 (lognameOf_injective hname)) (by omega)

/-- **Rotation loses and duplicates nothing** as long as the calls open at most
`2 ^ 31` files, and only then. -/
theorem intact_iff (mTimeInfo : Text) (disk : Text → Text) (calls : List Call)
    (hok : ∀ c ∈ calls, c.os.fopenOk = true) :
    Intact mTimeInfo calls (runCalls mTimeInfo (.start disk) calls) ↔
      openedFiles calls ≤ 2 ^ 31 := by
  have h := runCalls_refines (refines_start mTimeInfo disk) calls hok
  exact ⟨few_of_intact h, intact_of_refines h⟩

/-- A log of three calls that is rotated by the second, which finds no file to
measure. -/
theorem intact_rotated :
    Intact "t".toList
      [⟨0, none, ⟨-1, true⟩⟩, ⟨1, some "a".toList, ⟨-1, true⟩⟩, ⟨2, some "b".toList, ⟨-1, true⟩⟩]
      (runCalls "t".toList (.start fun _ => [])
        [⟨0, none, ⟨-1, true⟩⟩, ⟨1, some "a".toList, ⟨-1, true⟩⟩,
          ⟨2, some "b".toList, ⟨-1, true⟩⟩]) :=
  (intact_iff _ _ _ (by decide)).2 (by decide)

/-! ### One file too many -/

/-- Open the log, write one byte, close it; `n` times. -/
def reopened (n : ℕ) : List Call :=
  (List.replicate n [⟨0, some ['a'], ⟨-1, true⟩⟩, ⟨2, none, ⟨-1, true⟩⟩]).flatten

theorem fopenOk_of_mem_reopened {n : ℕ} {c : Call} (h : c ∈ reopened n) :
    c.os.fopenOk = true := by
  simp only [reopened, List.mem_flatten, List.mem_replicate] at h
  obtain ⟨l, ⟨-, rfl⟩, hc⟩ := h
  simp only [List.mem_cons, List.not_mem_nil, or_false] at hc
  rcases hc with rfl | rfl <;> rfl

theorem segments_segRun_reopened (n : ℕ) (g : SegLog Text) (hclosed : g.current = none) :
    (segRun g (reopened n)).segments.length = g.segments.length + n := by
  induction n generalizing g with
  | zero => rfl
  | succ n ih =>
    have hrun : segRun g (reopened (n + 1)) =
        segRun (segCall (segCall g ⟨0, some ['a'], ⟨-1, true⟩⟩) ⟨2, none, ⟨-1, true⟩⟩)
          (reopened n) := rfl
    rw [hrun, ih _ (by simp [segCall, close]), segments_segCall, segments_segCall, segCall_isOpen]
    simp [opens, hclosed]
    omega

/-- The log is opened `2 ^ 31 + 1` times, and the file opened last is number
`-2 ^ 31`: its message is in none of the files 0, 1, 2 and so on. -/
theorem index_overflow :
    (∀ c ∈ reopened (2 ^ 31 + 1), c.os.fopenOk = true) ∧
      ¬ Intact [] (reopened (2 ^ 31 + 1))
        (runCalls [] (.start fun _ => []) (reopened (2 ^ 31 + 1))) := by
  refine ⟨fun c hc => fopenOk_of_mem_reopened hc, ?_⟩
  intro hint
  have hrefines := runCalls_refines (refines_start [] fun _ => []) (reopened (2 ^ 31 + 1))
    fun c hc => fopenOk_of_mem_reopened hc
  have hfew := few_of_intact hrefines hint
  rw [openedFiles, segments_segRun_reopened _ _ rfl, segments_empty, List.length_nil] at hfew
  omega

end EngineLog
