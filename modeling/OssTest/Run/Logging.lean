import OssTest.Log.Rotation
import OssTest.Run.MsgLog
import OssTest.Run.Speech

/-!
# Every line is logged once

A worker prints the record of its line into `msgLog`, which all threads share, and logs
it in another step.  `logged_once_of_run` says that the log files hold one record for
every text the engine was told to speak, as long as nobody prints over a record that
waits there; `record_overwritten` is a run of two workers in which one does.

* `Written` — the log files hold these entries.
* `Logging` — the records written are those of the texts spoken, the sessions that
  failed and the lines on their way to the engine.
-/

namespace Engine

/-- The channel and the number under which a text is given to the engine. -/
def SynthCall.uttered (c : SynthCall) : Multiset (ℕ × Int × Cpp.Text) :=
  if c.frameflag = 0 then {(c.threadNum, c.curIdx, c.line)} else 0

/-- The channel and the number under which a text is lost with its session. -/
def SynthCall.lost (c : SynthCall) : Multiset (ℕ × Int × Cpp.Text) :=
  if c.frameflag = -1 ∧ c.rc < 0 then {(c.threadNum, c.curIdx, c.line)} else 0

end Engine

namespace Run

open Cpp UtilBox Exceptions EngineLog Engine Steps Pool

/-! ## The log files -/

/-- The log files hold these entries. -/
def Written (env : Env) (g : Shared) (isOpen : Bool) (entries : List Entry) : Prop :=
  ∃ seg : SegLog Text, Refines env.mTimeInfo seg g.log ∧ seg.entries = entries.map Entry.text ∧
    seg.current.isSome = isOpen

/-- The files together hold the messages, one after the other. -/
theorem Written.text {env : Env} {g : Shared} {isOpen : Bool} {entries : List Entry}
    (h : Written env g isOpen entries) (hfew : g.log.opened.length ≤ 2 ^ 32) :
    g.log.text = texts entries := by
  obtain ⟨seg, hseg, hentries, -⟩ := h
  rw [hseg.text hfew, hentries]
  rfl

/-- **One call of `makeLogFile`** adds its message while the log is open. -/
theorem Written.logged {env : Env} {g : Shared} {isOpen : Bool} {entries : List Entry}
    (h : Written env g isOpen entries) {os : Observed} (hok : os.fopenOk = true) (t : Tid)
    {mode : Int} {msg : Option Text} {e : Entry} (he : e.text = msgText msg) :
    Written env (g.logged env t mode msg os) ((isOpen || mode == 0) && mode != 2)
      (entries ++ if isOpen || mode == 0 then [e] else []) := by
  obtain ⟨seg, hseg, hentries, hopen⟩ := h
  refine ⟨segCall seg ⟨mode, msg, os⟩, makeLogFile_refines hseg ⟨mode, msg, os⟩ hok, ?_, ?_⟩
  · rw [segCall_entries, hentries, hopen, List.map_append]
    split
    · rw [List.map_singleton, he]
    · rfl
  · rw [segCall_isOpen, hopen]

/-! ## The account of the records -/

/-- What a record is about: the channel, the number and the text. -/
def Record.key (r : Record) : ℕ × Int × Text := (r.threadNum, r.curIdx, r.strSynthText)

/-- The keys of the records of a log. -/
def keys (entries : List Entry) : Multiset (ℕ × Int × Text) := (recordsIn entries).map Record.key

/-- The texts the engine was told to speak, each under its name. -/
abbrev utterances (trace : List Event) : Multiset (ℕ × Int × Text) :=
  total (Event.worth SynthCall.uttered) trace

/-- The texts lost with their sessions, each under its name. -/
abbrev losses (trace : List Event) : Multiset (ℕ × Int × Text) :=
  total (Event.worth SynthCall.lost) trace

/-- The text of worker `n` that is logged and not yet handed to the engine. -/
def WorkerPc.announced (n : ℕ) : WorkerPc → Multiset (ℕ × Int × Text)
  | .init k t | .malloc k t _ => {(n, k, t)}
  | .synth k t _ frameflag => if frameflag = 0 then {(n, k, t)} else 0
  | _ => 0

/-- The text worker `n` is about to log. -/
def WorkerPc.logging (n : ℕ) : WorkerPc → Multiset (ℕ × Int × Text)
  | .log k t => {(n, k, t)}
  | _ => 0

/-- The text a worker has on its way to the log is one line. -/
def WorkerPc.OneLine : WorkerPc → Prop
  | .trim _ l => '\n' ∉ l
  | .sprintf _ t | .log _ t => '\n' ∉ t
  | _ => True

theorem keys_append (us vs : List Entry) : keys (us ++ vs) = keys us + keys vs := by
  rw [keys, recordsIn, List.filterMap_append, List.map_append, ← Multiset.coe_add]
  rfl

/-- **A call with another message** leaves the records alone. -/
theorem Written.logged_plain {env : Env} {g : Shared} {isOpen : Bool} {entries : List Entry}
    (h : Written env g isOpen entries) {os : Observed} (hok : os.fopenOk = true) (t : Tid)
    (mode : Int) {msg : Option Text} (hplain : Plain (msgText msg)) :
    ∃ entries', Written env (g.logged env t mode msg os) ((isOpen || mode == 0) && mode != 2)
      entries' ∧ keys entries' = keys entries := by
  have he : (Entry.plain _ hplain).text = msgText msg := rfl
  refine ⟨_, h.logged hok t he, ?_⟩
  rw [keys_append]
  split <;> exact add_zero _

section Moves

variable {env : Env} {i n : ℕ} {o : Outcome} {g g' : Shared} {pc pc' : WorkerPc}

/-- A text that was logged reaches the engine, or is lost with its session. -/
theorem WorkerMove.announced (h : WorkerMove env i n o g pc g' pc') (hflag : pc.FlagOk) :
    (utterances g'.trace + losses g'.trace) + pc'.announced n =
      (utterances g.trace + losses g.trace) + pc.announced n + pc.logging n := by
  cases h with
  | fetch hfree heof hget =>
    split <;> simp [WorkerPc.announced, WorkerPc.logging]
  | initFails hres hrc =>
    simp [WorkerPc.announced, WorkerPc.logging, SynthCall.uttered, SynthCall.lost, hrc]
    abel
  | init hres hrc =>
    simp [WorkerPc.announced, WorkerPc.logging, SynthCall.uttered, SynthCall.lost, not_lt.2 hrc]
  | synthFails | synthMore | synthLast =>
    rcases hflag with rfl | rfl <;>
      simp [WorkerPc.announced, WorkerPc.logging, SynthCall.uttered, SynthCall.lost]
    all_goals abel
  | _ => simp [WorkerPc.announced, WorkerPc.logging]

theorem WorkerMove.oneLine (h : WorkerMove env i n o g pc g' pc') (hpc : pc.OneLine) :
    pc'.OneLine := by
  cases h with
  | @fetch hfree heof l mTextin hget =>
    have hline : '\n' ∉ l := by
      have h := IfStream.newline_not_mem_getline g.mTextin
      rwa [hget] at h
    split
    · trivial
    · exact hline
  | trimThrows htrim => exact hpc
  | trim htrim ht => exact fun hmem => hpc (mem_of_mem_trim htrim (mem_dropCr.1 hmem).1)
  | sprintf => exact hpc
  | _ => trivial

end Moves

/-- **The account of the log.** -/
structure Logging (env : Env) (s : Sys) : Prop where
  flags : ∀ w ∈ s.workers, w.pc.FlagOk
  oneLine : ∀ w ∈ s.workers, w.pc.OneLine
  pending : Pending s
  /-- The records are those of the texts spoken, lost and announced. -/
  written : ∃ entries, Written env s.g s.main.logOpen entries ∧
    (utterances s.g.trace + losses s.g.trace) +
      total (fun w => w.pc.announced w.threadNum) s.workers = keys entries

section Step

variable {env : Env} {s s' : Sys} {a : Act} {g' : Shared} {i n : ℕ} {pc pc' : WorkerPc}

/-- The log after a step of a worker: it has grown by the record the worker was about
to log. -/
theorem WorkerMove.written (h : WorkerMove env i n a.o s.g pc g' pc')
    (hi : s.workers[i]? = some ⟨n, pc⟩) (hok : a.o.os.fopenOk = true)
    (hopen : s.main.logOpen = true) (hs : Logging env s) {entries : List Entry}
    (hw : Written env s.g s.main.logOpen entries) :
    ∃ entries', Written env g' s.main.logOpen entries' ∧
      keys entries' = keys entries + pc.logging n := by
  have hmem : (⟨n, pc⟩ : Worker) ∈ s.workers := List.mem_of_getElem? hi
  rw [hopen] at hw ⊢
  cases h.writes with
  | record hmsg hlog => exact ⟨entries, by rw [Written, hlog]; exact hw, (add_zero _).symm⟩
  | error hmsg hlog => exact ⟨entries, by rw [Written, hlog]; exact hw, (add_zero _).symm⟩
  | @logs k t hlog =>
    have hmsg : s.g.msgLog = recordMsg n k t := hs.pending.record _ hmem k t rfl
    have he : (Entry.record ⟨n, k, t, hs.oneLine _ hmem⟩).text = msgText (some s.g.msgLog) :=
      hmsg.symm
    rw [hlog]
    exact ⟨_, hw.logged hok (.worker i) he, keys_append ..⟩
  | @logsError buf hlog =>
    have hplain : Plain (msgText (some s.g.msgLog)) := by
      apply hs.pending.plain
      simp only [Sys.plainWaits, Bool.or_eq_true, List.any_eq_true]
      exact Or.inl (Or.inl ⟨_, hmem, rfl⟩)
    obtain ⟨entries', hw', hkeys⟩ := hw.logged_plain hok (.worker i) 1 hplain
    rw [hlog]
    exact ⟨entries', hw', hkeys.trans (add_zero _).symm⟩
  | nothing hpc hrec herr hmsg hlog =>
    refine ⟨entries, by rw [Written, hlog]; exact hw, ?_⟩
    cases pc with
    | log => cases hpc
    | _ => exact (add_zero _).symm

/-- **A step of a worker keeps the account.** -/
theorem WorkerMove.logging (h : WorkerMove env i n a.o s.g pc g' pc') (htid : a.tid = .worker i)
    (hi : s.workers[i]? = some ⟨n, pc⟩) (hok : a.o.os.fopenOk = true) (hund : Undisturbed s a)
    (hopen : s.main.logOpen = true) (hs : Logging env s) :
    Logging env { s with g := g', workers := s.workers.set i ⟨n, pc'⟩ } := by
  have hmem : (⟨n, pc⟩ : Worker) ∈ s.workers := List.mem_of_getElem? hi
  have hflag : pc.FlagOk := hs.flags _ hmem
  obtain ⟨entries, hw, hsum⟩ := hs.written
  obtain ⟨entries', hw', hkeys⟩ := h.written hi hok hopen hs hw
  have hline : pc'.OneLine := h.oneLine (hs.oneLine _ hmem)
  refine ⟨forall_set hs.flags (h.flagOk hflag), forall_set hs.oneLine hline,
    h.pending htid hi hund hs.pending, entries', hw', conserve hi ?_ hsum⟩
  rw [hkeys, h.announced hflag]
  abel

theorem CpuMove.logging {pc' : CpuPc} (h : CpuMove env a.o s.g s.cpu g' pc')
    (htid : a.tid = .cpu) (hok : a.o.os.fopenOk = true) (hund : Undisturbed s a)
    (hs : Logging env s) : Logging env { s with g := g', cpu := pc' } := by
  have hpending := h.pending htid hund hs.pending
  obtain ⟨-, -, -, htrace, -⟩ := h.frame
  obtain ⟨entries, hw, hsum⟩ := hs.written
  refine ⟨hs.flags, hs.oneLine, hpending, ?_⟩
  rw [← htrace] at hsum
  generalize hpc : s.cpu = pc at h
  cases h with
  | log hfree =>
    have hplain : Plain (msgText (some s.g.msgLog)) :=
      hs.pending.plain (by simp [Sys.plainWaits, hpc])
    obtain ⟨entries', hw', hkeys⟩ := hw.logged_plain hok .cpu 1 hplain
    exact ⟨entries', by simpa using hw', by rw [hkeys]; exact hsum⟩
  | _ => exact ⟨entries, hw, hsum⟩

/-- `main` adds no record. -/
theorem MainMove.written {pc : MainPc} (h : MainMove env a.o s pc s') (hpc : s.main = pc)
    (hok : a.o.os.fopenOk = true) (hp : Pending s) {entries : List Entry}
    (hw : Written env s.g pc.logOpen entries) :
    ∃ entries', Written env s'.g s'.main.logOpen entries' ∧ keys entries' = keys entries := by
  cases h.writes with
  | prints hpc' hmsg hlog hopen => exact ⟨entries, by rw [Written, hlog, hopen]; exact hw, rfl⟩
  | @logs mode msg hlog hplain hopen hpc' =>
    have hplain' : Plain (msgText msg) := by
      rcases hplain with ⟨hres, rfl⟩ | hplain
      · exact hp.plain (by simp [Sys.plainWaits, hpc, hres])
      · exact hplain
    rw [hlog, hopen]
    exact hw.logged_plain hok .main mode hplain'
  | nothing hmsg hlog hopen hpc' => exact ⟨entries, by rw [Written, hlog, hopen]; exact hw, rfl⟩

theorem MainMove.logging (h : MainMove env a.o s s.main s') (htid : a.tid = .main)
    (hok : a.o.os.fopenOk = true) (hund : Undisturbed s a) (hs : Logging env s) :
    Logging env s' := by
  have hstart : ∀ {P : WorkerPc → Prop}, (∀ w ∈ s.workers, P w.pc) → P .start →
      ∀ w ∈ s'.workers, P w.pc := fun hP hnew w hw =>
    (h.mem_workers w hw).elim (hP w) fun hpc => hpc ▸ hnew
  obtain ⟨entries, hw, hsum⟩ := hs.written
  obtain ⟨entries', hw', hkeys⟩ := h.written rfl hok hs.pending hw
  refine ⟨hstart hs.flags trivial, hstart hs.oneLine trivial, h.pending htid hund hs.pending,
    entries', hw', ?_⟩
  have hspoken : utterances s'.g.trace + losses s'.g.trace =
      utterances s.g.trace + losses s.g.trace := by
    obtain htrace | ⟨e, he, htrace⟩ := h.trace
    · rw [htrace]
    · rw [htrace, utterances, losses, total_concat_quiet he, total_concat_quiet he]
  rw [hkeys, ← hsum, hspoken]
  obtain hws | ⟨k, -, -, -, hws⟩ := h.workers
  · rw [hws]
  · simp [hws, WorkerPc.announced]

end Step

/-! ## Runs -/

/-- While a worker is at work the log is open. -/
theorem logOpen_of_worker {env : Env} {disk : Text → Text} {s : Sys}
    (h : Reaches (step env) (.start disk) s) {w : Worker} (hw : w ∈ s.workers)
    (hpc : ∀ ret, w.pc ≠ .returned ret) : s.main.logOpen = true := by
  obtain ⟨acts, hrun⟩ := h
  obtain hs | hs | ⟨-, post, s₀, script, -, -, -, -, h₀, hpost⟩ := start_cases hrun
  · rw [hs.workers] at hw
    cases hw
  · rw [hs.workers] at hw
    cases hw
  · have hjoin : Joining env s := joining_of_run h₀ hpost
    cases hmain : s.main with
    | logStart =>
      have hlate := hjoin.late
      rw [hmain] at hlate
      exact hlate.elim
    | returned success =>
      have hcomplete := hjoin.complete (by rw [hmain]; rfl) (by rw [hmain]; rfl)
      obtain ⟨ret, hret⟩ := hcomplete.2 w hw
      exact absurd hret (hpc ret)
    | _ => rfl

theorem logging_start (env : Env) (disk : Text → Text) : Logging env (.start disk) where
  flags := nofun
  oneLine := nofun
  pending := ⟨nofun, nofun⟩
  written := ⟨[], ⟨SegLog.empty, refines_start env.mTimeInfo disk, rfl, rfl⟩, rfl⟩

/-- **The account of the log along a run** in which no `fopen` fails and nobody prints
over a record that waits. -/
theorem logging_of_run {env : Env} {disk : Text → Text} {acts : List Act} {s : Sys}
    (hrun : run env (.start disk) acts = some s) (hfopen : ∀ a ∈ acts, a.o.os.fopenOk = true)
    (hund : Along (step env) Undisturbed (.start disk) acts) : Logging env s := by
  have hstep : ∀ t a t', (Reaches (step env) (.start disk) t ∧ Logging env t) →
      (a.o.os.fopenOk = true ∧ Undisturbed t a) → step env t a = some t' →
      Reaches (step env) (.start disk) t' ∧ Logging env t' := by
    rintro t a t' ⟨hreach, ht⟩ ⟨hok, hund⟩ hmove
    refine ⟨hreach.trans (.single a hmove), ?_⟩
    cases step_move hmove with
    | main htid h => exact h.logging htid hok hund ht
    | cpu htid h => exact h.logging htid hok hund ht
    | worker htid hi h =>
      have hopen := logOpen_of_worker hreach (List.mem_of_getElem? hi) h.not_returned
      exact h.logging htid hi hok hund hopen ht
  have halong := Along.and (along_of_forall fun a ha _ => hfopen a ha) hund
  exact (Along.invariant hstep halong hrun ⟨.refl _, logging_start env disk⟩).2

/-! ## Every line once -/

/-- **Every text that reached the engine is logged once, under its own name**, with
the text when it has at most `MAX_LOGSIZE - 50` bytes; and there is no other record. -/
structure LoggedOnce (s : Sys) : Prop where
  once : ∀ c, Event.synth true c ∈ s.g.trace → c.frameflag = 0 →
    recordsNamed c.threadNum c.curIdx s.g.log.text = [recordLine c.threadNum c.curIdx c.line]
  /-- A text that is logged whole is what the engine got. -/
  whole : ∀ c, Event.synth true c ∈ s.g.trace → c.frameflag = 0 →
    c.line.length ≤ maxLogsize - 50 → c.ttsText = some c.line
  noOther : ∀ n k, (∀ c, Event.synth true c ∈ s.g.trace → c.frameflag = 0 →
    ¬ (c.threadNum = n ∧ c.curIdx = k)) → recordsNamed n k s.g.log.text = []

/-- No two lines that are to be spoken have the same number as an `int`. -/
def DistinctNumbers (vecExceptionList lines : List Text) : Prop :=
  ∀ (j k : ℕ) (l m : Text), lines[j]? = some l → lines[k]? = some m →
    dispatch vecExceptionList l ≠ none → dispatch vecExceptionList m ≠ none →
    toInt j = toInt k → j = k

/-- No text that is logged whole has a NUL in it. -/
def NulFree (vecExceptionList lines : List Text) : Prop :=
  ∀ l ∈ lines, ∀ t, dispatch vecExceptionList l = some t → t.length ≤ maxLogsize - 50 →
    '\x00' ∉ t

theorem dispatched_eq_coe (num : ℕ → Int) (vecExceptionList lines : List Text) :
    dispatched num vecExceptionList lines =
      (lines.zipIdx.filterMap fun lk =>
        (dispatch vecExceptionList lk.1).map fun t => (num lk.2, t) : List (Int × Text)) := by
  rw [dispatched]
  induction lines.zipIdx with
  | nil => rfl
  | cons lk lks ih =>
    have hcons : ∀ f : Text × ℕ → Multiset (Int × Text), total f (lk :: lks) = f lk + total f lks :=
      fun _ => rfl
    rw [hcons, ih]
    cases hd : dispatch vecExceptionList lk.1 with
    | none => simp [hd]
    | some t => simp [hd]

/-- The numbers of the lines that are spoken are different. -/
theorem nodup_dispatched {vecExceptionList lines : List Text}
    (h : DistinctNumbers vecExceptionList lines) :
    ((dispatched (fun k => toInt k) vecExceptionList lines).map Prod.fst).Nodup := by
  rw [dispatched_eq_coe, Multiset.map_coe, Multiset.coe_nodup, List.Nodup, List.pairwise_map,
    List.pairwise_filterMap]
  have hlt : lines.zipIdx.Pairwise fun a b => a.2 < b.2 := by
    rw [← List.pairwise_map, List.zipIdx_map_snd]
    exact List.pairwise_lt_range'
  apply hlt.imp_of_mem
  intro a b ha hb hab x hx y hy hxy
  obtain ⟨t, ht, rfl⟩ := Option.map_eq_some_iff.1 hx
  obtain ⟨u, hu, rfl⟩ := Option.map_eq_some_iff.1 hy
  dsimp only at hxy
  have heq := h a.2 b.2 a.1 b.1 (List.mk_mem_zipIdx_iff_getElem?.1 ha)
    (List.mk_mem_zipIdx_iff_getElem?.1 hb) (by simp [ht]) (by simp [hu]) hxy
  omega

theorem mem_utterances {trace : List Event} {n : ℕ} {k : Int} {t : Text} :
    (n, k, t) ∈ utterances trace ↔ ∃ c, Event.synth true c ∈ trace ∧ c.frameflag = 0 ∧
      c.threadNum = n ∧ c.curIdx = k ∧ c.line = t := by
  rw [utterances, mem_total_worth]
  refine exists_congr fun c => and_congr_right ?_
  intro _
  by_cases hflag : c.frameflag = 0 <;> simp [SynthCall.uttered, hflag, eq_comm]

/-- Without their channels, the texts uttered are those given to the engine, -/
theorem map_utterances (trace : List Event) : (utterances trace).map Prod.snd = voiced trace := by
  have hcall : (fun c : SynthCall => c.uttered.map Prod.snd) = SynthCall.voiced := by
    funext c
    by_cases hflag : c.frameflag = 0 <;> simp [SynthCall.uttered, SynthCall.voiced, hflag]
  rw [utterances, map_total_worth, hcall]

/-- and the texts lost those of the sessions that failed. -/
theorem map_losses (trace : List Event) : (losses trace).map Prod.snd = failures trace := by
  have hcall : (fun c : SynthCall => c.lost.map Prod.snd) = SynthCall.failure := by
    funext c
    by_cases hfail : c.frameflag = -1 ∧ c.rc < 0 <;>
      simp [SynthCall.lost, SynthCall.failure, hfail]
  rw [losses, map_total_worth, hcall]

/-- What is given to the engine in a run belongs to the script, and is handed to it. -/
theorem voiced_of_run {env : Env} {content : Text} {disk : Text → Text} {acts : List Act}
    {s : Sys} (hscript : env.script = some (.ofContent content))
    (hrun : run env (.start disk) acts = some s) :
    voiced s.g.trace ≤ dispatched (fun k => toInt k) env.vecExceptionList (linesOf content) ∧
      HandsText s.g.trace := by
  have hquiet : (∀ e ∈ s.g.trace, e.Quiet) →
      voiced s.g.trace ≤ dispatched (fun k => toInt k) env.vecExceptionList (linesOf content) ∧
        HandsText s.g.trace := by
    intro hq
    rw [voiced, total_quiet hq]
    exact ⟨Multiset.zero_le _, handsText_of_quiet hq⟩
  obtain hs | hs | ⟨-, post, s₀, script, -, -, hscript', -, h₀, hpost⟩ := start_cases hrun
  · exact hquiet hs.quiet
  · exact hquiet hs.quiet
  · obtain rfl : script = .ofContent content := Option.some.inj (hscript'.symm.trans hscript)
    have hl := (ledger_of_run h₀ hpost).2
    exact ⟨hl.voiced_le.trans hl.sessions_le, hl.handed⟩

/-- Once all workers have returned and no session has failed, the records are those of
the texts spoken. -/
theorem Logging.keys_eq {env : Env} {s : Sys} (hs : Logging env s)
    (hret : ∀ w ∈ s.workers, ∃ ret, w.pc = .returned ret) (hinit : NoInitFails s.g.trace) :
    ∃ entries, Written env s.g s.main.logOpen entries ∧ keys entries = utterances s.g.trace := by
  obtain ⟨entries, hw, hsum⟩ := hs.written
  have hnone : total (fun w => w.pc.announced w.threadNum) s.workers = 0 := by
    apply total_eq_zero
    intro w hw
    obtain ⟨ret, hpc⟩ := hret w hw
    rw [hpc]
    rfl
  have hlost : losses s.g.trace = 0 := by
    rw [← Multiset.map_eq_zero (f := Prod.snd), map_losses]
    exact failures_eq_zero_iff.2 hinit
  rw [hnone, hlost, add_zero, add_zero] at hsum
  exact ⟨entries, hw, hsum.symm⟩

/-- **Every line is logged once where nobody prints over a record that waits.**  In
every run in which no `fopen` fails, no step prints over what waits in `msgLog`, and all
workers have returned, the log files hold one record for every text the engine was told
to speak and no other, as long as no opening call has failed, the lines have
different numbers, no text has a NUL in it and the files different names. -/
theorem logged_once_of_run (env : Env) (content : Text) (disk : Text → Text) (acts : List Act)
    (s : Sys) (hscript : env.script = some (.ofContent content))
    (hrun : run env (.start disk) acts = some s) (hfopen : ∀ a ∈ acts, a.o.os.fopenOk = true)
    (hret : ∀ w ∈ s.workers, ∃ ret, w.pc = .returned ret)
    (hund : Along (step env) Undisturbed (.start disk) acts) (hinit : NoInitFails s.g.trace)
    (hnumbers : DistinctNumbers env.vecExceptionList (linesOf content))
    (hnul : NulFree env.vecExceptionList (linesOf content))
    (hfiles : s.g.log.opened.length ≤ 2 ^ 32) : LoggedOnce s := by
  obtain ⟨entries, hw, hkeys⟩ := (logging_of_run hrun hfopen hund).keys_eq hret hinit
  obtain ⟨hvoiced, hhanded⟩ := voiced_of_run hscript hrun
  have hnodup : ((recordsIn entries).map Record.curIdx).Nodup := by
    have hle : (keys entries).map (fun x => x.2.1) ≤
        (dispatched (fun k => toInt k) env.vecExceptionList (linesOf content)).map Prod.fst := by
      rw [hkeys, ← Function.comp_def Prod.fst Prod.snd, ← Multiset.map_map, map_utterances]
      exact Multiset.map_le_map hvoiced
    have hn := Multiset.nodup_of_le hle (nodup_dispatched hnumbers)
    rwa [keys, Multiset.map_coe, Multiset.coe_nodup, List.map_map] at hn
  have hnulOf : ∀ c, Event.synth true c ∈ s.g.trace → c.frameflag = 0 →
      c.line.length ≤ maxLogsize - 50 → '\x00' ∉ c.line := by
    intro c hc hflag hshort
    obtain ⟨j, l, hl, hd, -⟩ := mem_dispatched.1 (Multiset.mem_of_le hvoiced
      (mem_voiced.2 ⟨c, hc, hflag, rfl, rfl⟩))
    exact hnul l (List.mem_of_getElem? hl) _ hd hshort
  refine ⟨?_, ?_, ?_⟩
  · intro c hc hflag
    have hmem : (c.threadNum, c.curIdx, c.line) ∈ keys entries := by
      rw [hkeys]
      exact mem_utterances.2 ⟨c, hc, hflag, rfl, rfl, rfl⟩
    obtain ⟨r, hr, hkey⟩ := List.mem_map.1 hmem
    obtain ⟨hn, hk, ht⟩ : r.threadNum = c.threadNum ∧ r.curIdx = c.curIdx ∧
        r.strSynthText = c.line := by
      simpa [Record.key] using hkey
    have hline : r.line = recordLine c.threadNum c.curIdx c.line := by
      rw [← hn, ← hk, ← ht]
      exact Record.line_eq fun hshort => ht ▸ hnulOf c hc hflag (ht ▸ hshort)
    rw [hw.text hfiles, ← hn, ← hk, recordsNamed_of_mem hnodup hr, hline, hn, hk]
  · intro c hc hflag hshort
    rw [hhanded c hc hflag, cstr_eq_self_iff.2 (hnulOf c hc hflag hshort)]
  · intro n k hno
    rw [hw.text hfiles]
    apply recordsNamed_of_not_mem
    intro r hr hname
    have hmem : r.key ∈ keys entries := List.mem_map_of_mem hr
    rw [hkeys] at hmem
    obtain ⟨c, hc, hflag, hn, hk, -⟩ := mem_utterances.1 hmem
    exact hno c hc hflag ⟨hn.trans hname.1, hk.trans hname.2⟩

/-- The lines of two workers that take turns are logged once. -/
theorem logged_once_ab :
    ∃ s, run (twoWorkers "a\nb".toList) (.start fun _ => []) upToResult = some s ∧
      recordsNamed 0 0 s.g.log.text ≠ [] ∧ recordsNamed 1 1 s.g.log.text ≠ [] ∧ LoggedOnce s := by
  have hcheck : (run (twoWorkers "a\nb".toList) (.start fun _ => []) upToResult).any (fun s =>
      s.workers = [⟨0, .returned true⟩, ⟨1, .returned true⟩] && (NoInitFails s.g.trace &&
        (s.g.log.opened.length = 1 && (recordsNamed 0 0 s.g.log.text ≠ [] &&
          recordsNamed 1 1 s.g.log.text ≠ [])))) = true := by decide +kernel
  obtain ⟨s, hrun, hs⟩ := (Option.any_eq_true _ _).1 hcheck
  simp only [Bool.and_eq_true, decide_eq_true_eq] at hs
  obtain ⟨hws, hinit, hfiles, hrecord₀, hrecord₁⟩ := hs
  have hlines : (linesOf "a\nb".toList).length = 2 := by decide
  have hnul : ∀ x ∈ dispatched (fun k => toInt k) [] (linesOf "a\nb".toList), '\x00' ∉ x.2 := by
    decide +kernel
  refine ⟨s, hrun, hrecord₀, hrecord₁, logged_once_of_run (twoWorkers "a\nb".toList)
    "a\nb".toList _ upToResult s rfl hrun (by decide) (by simp [hws]) (by decide +kernel) hinit
    ?_ ?_ (by omega)⟩
  · intro j k l m hl hm _ _ hjk
    have hj := (List.getElem?_eq_some_iff.1 hl).1
    have hk := (List.getElem?_eq_some_iff.1 hm).1
    rw [toInt_natCast_eq_iff.2 (by omega), toInt_natCast_eq_iff.2 (by omega)] at hjk
    exact_mod_cast hjk
  · intro l hl t hd _
    exact forall_dispatched (P := fun t => '\x00' ∉ t).1 hnul l hl t hd

/-! ### A record that is lost -/

/-- Both workers take a line and print its record before either of them logs. -/
def overlapping : List Act :=
  List.replicate 9 ⟨.main, smooth 0⟩ ++ List.replicate 5 ⟨.worker 0, smooth 0⟩ ++
    List.replicate 5 ⟨.worker 1, smooth 0⟩ ++
    [⟨.worker 0, smooth 0⟩, ⟨.worker 1, smooth 0⟩, ⟨.worker 0, smooth 0⟩, ⟨.worker 1, smooth 0⟩] ++
    speaking 0 ++ speaking 1

/-- The second worker prints over the record of the first: both lines are spoken, and the
record of the first is not in the log. -/
theorem record_overwritten :
    ∃ s, run (twoWorkers "a\nb".toList) (.start fun _ => []) overlapping = some s ∧
      (∀ a ∈ overlapping, a.o.os.fopenOk = true) ∧
      (∀ w ∈ s.workers, ∃ ret, w.pc = .returned ret) ∧ ¬ LoggedOnce s := by
  have hcheck : (run (twoWorkers "a\nb".toList) (.start fun _ => []) overlapping).any (fun s =>
      s.workers = [⟨0, .returned true⟩, ⟨1, .returned true⟩] &&
        (Event.synth true ⟨0, 0, some ['a'], 1, 0, 0, ['a'], 1, 0⟩ ∈ s.g.trace &&
          recordsNamed 0 0 s.g.log.text = [])) = true := by decide +kernel
  obtain ⟨s, hrun, hs⟩ := (Option.any_eq_true _ _).1 hcheck
  simp only [Bool.and_eq_true, decide_eq_true_eq] at hs
  obtain ⟨hws, hspoken, hnone⟩ := hs
  refine ⟨s, hrun, by decide, by simp [hws], ?_⟩
  intro hlogged
  have hrecord := hlogged.once _ hspoken rfl
  rw [hnone] at hrecord
  cases hrecord

end Run
