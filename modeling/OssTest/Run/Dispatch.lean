import OssTest.Lib.Pool
import OssTest.Run.Join

/-!
# Who gets which line

The workers take the lines of the script from one stream under the mutex and go
on with them outside.  What is conserved, over all interleavings, is the account of
`Ledger`: the sessions started so far and the lines waiting for theirs are together
what the lines read so far are worth; and the texts given to the engine, the
sessions that failed and the sessions opened but not yet spoken are together the
sessions started.  Of a text that is given to it the engine hears what stands in
front of the first NUL.

* `Ledger.step` — every step keeps the account.
* `sessions_of_complete` — a complete run in which no session fails starts exactly
  one session for every line that is to be spoken.
-/

namespace Engine

open Pool

/-! ## What the calls are worth -/

/-- What the event is worth: what a call that was made is, and nothing else. -/
def Event.worth {β : Type*} (f : SynthCall → Multiset β) : Event → Multiset β
  | .synth true c => f c
  | _ => 0

section Worth

variable {β γ : Type*} (f : SynthCall → Multiset β)

@[simp] theorem worth_synth (c : SynthCall) : (Event.synth true c).worth f = f c := rfl

@[simp] theorem worth_null (c : SynthCall) : (Event.synth false c).worth f = 0 := rfl

@[simp] theorem worth_malloc (n size buf : ℕ) : (Event.malloc n size buf).worth f = 0 := rfl

@[simp] theorem worth_free (n buf : ℕ) : (Event.free n buf).worth f = 0 := rfl

theorem worth_quiet {e : Event} (h : e.Quiet) : e.worth f = 0 := by
  cases e <;> first | rfl | exact h.elim

theorem mem_worth {e : Event} {x : β} :
    x ∈ e.worth f ↔ ∃ c, e = .synth true c ∧ x ∈ f c := by
  constructor
  · intro hx
    cases e with
    | synth resolved c =>
      cases resolved with
      | false => cases hx
      | true => exact ⟨c, rfl, hx⟩
    | _ => cases hx
  · rintro ⟨c, rfl, hx⟩
    exact hx

theorem map_worth (h : β → γ) (e : Event) :
    (e.worth f).map h = e.worth fun c => (f c).map h := by
  cases e with
  | synth resolved c => cases resolved <;> rfl
  | _ => rfl

variable {f}

/-- A trace is worth what the calls in it are. -/
theorem mem_total_worth {trace : List Event} {x : β} :
    x ∈ total (Event.worth f) trace ↔ ∃ c, Event.synth true c ∈ trace ∧ x ∈ f c := by
  rw [mem_total]
  constructor
  · rintro ⟨e, he, hx⟩
    obtain ⟨c, rfl, hc⟩ := (mem_worth f).1 hx
    exact ⟨c, he, hc⟩
  · rintro ⟨c, hc, hx⟩
    exact ⟨_, hc, hx⟩

theorem map_total_worth (h : β → γ) (trace : List Event) :
    (total (Event.worth f) trace).map h = total (Event.worth fun c => (f c).map h) trace := by
  rw [map_total]
  exact total_congr fun e _ => map_worth f h e

/-- A quiet trace is worth nothing, -/
theorem total_quiet {trace : List Event} (h : ∀ e ∈ trace, e.Quiet) :
    total (Event.worth f) trace = 0 :=
  total_eq_zero fun e he => worth_quiet f (h e he)

/-- and a quiet event adds nothing. -/
theorem total_concat_quiet {trace : List Event} {e : Event} (he : e.Quiet) :
    total (Event.worth f) (trace ++ [e]) = total (Event.worth f) trace := by
  rw [total_append, total_singleton, worth_quiet f he, add_zero]

end Worth

/-- The number and the text for which the call starts a session. -/
def SynthCall.session (c : SynthCall) : Multiset (Int × Cpp.Text) :=
  if c.frameflag = -1 then {(c.curIdx, c.line)} else 0

/-- The number and the text whose session cannot be started. -/
def SynthCall.failure (c : SynthCall) : Multiset (Int × Cpp.Text) :=
  if c.frameflag = -1 ∧ c.rc < 0 then {(c.curIdx, c.line)} else 0

/-- The number and the text that are given to the engine to be spoken. -/
def SynthCall.voiced (c : SynthCall) : Multiset (Int × Cpp.Text) :=
  if c.frameflag = 0 then {(c.curIdx, c.line)} else 0

/-- The number of the line, and the text the engine is told to speak. -/
def SynthCall.spoken (c : SynthCall) : Multiset (Int × Cpp.Text) :=
  if c.frameflag = 0 then {(c.curIdx, c.ttsText.getD [])} else 0

/-- What the engine hears of a numbered text: it is handed the `c_str()`. -/
def heard (x : Int × Cpp.Text) : Int × Cpp.Text := (x.1, Cpp.cstr x.2)

/-- The calls that speak are handed the `c_str()` of the text the worker holds. -/
def HandsText (trace : List Event) : Prop :=
  ∀ c, Event.synth true c ∈ trace → c.frameflag = 0 → c.ttsText = some (Cpp.cstr c.line)

theorem handsText_of_quiet {trace : List Event} (h : ∀ e ∈ trace, e.Quiet) : HandsText trace :=
  fun _ hc => (h _ hc).elim

theorem HandsText.concat {trace : List Event} (h : HandsText trace) {e : Event}
    (he : ∀ c, e = .synth true c → c.frameflag = 0 → c.ttsText = some (Cpp.cstr c.line)) :
    HandsText (trace ++ [e]) := by
  intro c hc
  obtain hc | hc := List.mem_append.1 hc
  · exact h c hc
  · exact he c (List.mem_singleton.1 hc).symm

theorem HandsText.concat_quiet {trace : List Event} (h : HandsText trace) {e : Event}
    (he : e.Quiet) : HandsText (trace ++ [e]) :=
  h.concat fun c hc => (hc ▸ he : (Event.synth true c).Quiet).elim

/-- **What the engine hears** is what is given to it, up to the first NUL. -/
theorem HandsText.spoken {trace : List Event} (h : HandsText trace) :
    total (Event.worth SynthCall.spoken) trace =
      (total (Event.worth SynthCall.voiced) trace).map heard := by
  rw [map_total_worth]
  apply total_congr
  intro e he
  cases e with
  | synth resolved c =>
    cases resolved with
    | false => rfl
    | true =>
      rw [worth_synth, worth_synth]
      by_cases hflag : c.frameflag = 0
      · simp [SynthCall.spoken, SynthCall.voiced, hflag, heard, h c he hflag]
      · simp [SynthCall.spoken, SynthCall.voiced, hflag]
  | _ => rfl

end Engine

namespace Run

open Cpp UtilBox Exceptions EngineLog Engine Steps Pool

/-! ## What a line is worth -/

/-- What lines 993 to 996 leave of a line, if anything. -/
def cleaned : Except StdException Text → Option Text
  | .ok strSynthText => if strSynthText = [] then none else some (dropCr strSynthText)
  | .error _ => none

/-- The text `doSynthesize` makes of a line of the script, if it is to be spoken. -/
def dispatch (vecExceptionList : List Text) (l : Text) : Option Text :=
  if isExceptionalText vecExceptionList l then none else cleaned (UtilBox.trim l)

/-- A line is spoken when it is not exceptional and `trim` leaves something of it;
then without its `'\r'`s. -/
theorem dispatch_eq_some_iff {vecExceptionList : List Text} {l t : Text} :
    dispatch vecExceptionList l = some t ↔
      isExceptionalText vecExceptionList l = false ∧
        ∃ u, UtilBox.trim l = .ok u ∧ u ≠ [] ∧ t = dropCr u := by
  unfold dispatch
  cases hexc : isExceptionalText vecExceptionList l with
  | true => simp
  | false =>
    cases htrim : UtilBox.trim l with
    | error e => simp [cleaned]
    | ok u =>
      by_cases hu : u = []
      · simp [cleaned, hu]
      · simp [cleaned, hu, eq_comm]

/-- A numbered text, if there is one. -/
def entry (curIdx : Int) : Option Text → Multiset (Int × Text)
  | none => 0
  | some t => {(curIdx, t)}

@[simp] theorem entry_none (k : Int) : entry k none = 0 := rfl

@[simp] theorem entry_some (k : Int) (t : Text) : entry k (some t) = {(k, t)} := rfl

/-- The texts the lines are worth, each under the number `num` gives to the line. -/
def dispatched (num : ℕ → Int) (vecExceptionList : List Text) (lines : List Text) :
    Multiset (Int × Text) :=
  total (fun lk => entry (num lk.2) (dispatch vecExceptionList lk.1)) lines.zipIdx

/-- One more line. -/
theorem dispatched_take_succ {num : ℕ → Int} {vecExceptionList lines : List Text} {p : ℕ}
    (hp : p < lines.length) :
    dispatched num vecExceptionList (lines.take (p + 1)) =
      dispatched num vecExceptionList (lines.take p) +
        entry (num p) (dispatch vecExceptionList lines[p]) := by
  have hlen : (lines.take p).length = p := by simp [hp.le]
  rw [List.take_succ_eq_append_getElem hp, dispatched, List.zipIdx_append, total_append, hlen]
  simp [dispatched]

/-! ## What the workers hold -/

/-- The line a worker holds that waits for its session. -/
def WorkerPc.waiting : WorkerPc → Multiset (Int × Text)
  | .trim k l => entry k (cleaned (UtilBox.trim l))
  | .sprintf k t | .log k t | .init k t => {(k, t)}
  | _ => 0

theorem waiting_trim_empty {k : Int} {l : Text} (htrim : UtilBox.trim l = .ok []) :
    (WorkerPc.trim k l).waiting = 0 := by
  rw [WorkerPc.waiting, htrim]
  rfl

theorem waiting_trim {k : Int} {l t : Text} (htrim : UtilBox.trim l = .ok t) (ht : t ≠ []) :
    (WorkerPc.trim k l).waiting = {(k, dropCr t)} := by
  rw [WorkerPc.waiting, htrim, cleaned, if_neg ht, entry_some]

/-- The text of the session a worker has opened and not yet asked to be spoken. -/
def WorkerPc.unspoken : WorkerPc → Multiset (Int × Text)
  | .malloc k t _ => {(k, t)}
  | .synth k t _ frameflag => if frameflag = 0 then {(k, t)} else 0
  | _ => 0

/-- In the `do` loop `frameflag` is 0 or 1. -/
def WorkerPc.FlagOk : WorkerPc → Prop
  | .synth _ _ _ frameflag => frameflag = 0 ∨ frameflag = 1
  | _ => True

/-- The sessions started. -/
abbrev sessions (trace : List Event) : Multiset (Int × Text) :=
  total (Event.worth SynthCall.session) trace

/-- The sessions that could not be started. -/
abbrev failures (trace : List Event) : Multiset (Int × Text) :=
  total (Event.worth SynthCall.failure) trace

/-- The texts that were given to the engine. -/
abbrev voiced (trace : List Event) : Multiset (Int × Text) :=
  total (Event.worth SynthCall.voiced) trace

/-- What the engine was told to speak. -/
abbrev speech (trace : List Event) : Multiset (Int × Text) :=
  total (Event.worth SynthCall.spoken) trace

section Moves

variable {env : Env} {i n : ℕ} {o : Outcome} {g g' : Shared} {pc pc' : WorkerPc}

theorem WorkerMove.flagOk (h : WorkerMove env i n o g pc g' pc') (hpc : pc.FlagOk) :
    pc'.FlagOk := by
  cases h with
  | fetch => split <;> trivial
  | synthNull => exact hpc
  | synthMore =>
    rcases hpc with rfl | rfl
    · exact Or.inr rfl
    · exact Or.inr rfl
  | malloc => exact Or.inl rfl
  | _ => trivial

theorem WorkerMove.vec (h : WorkerMove env i n o g pc g' pc') :
    g'.mVecExceptionList = g.mVecExceptionList := by
  cases h <;> rfl

/-- A line waits until its session starts, in every step that takes no new one. -/
theorem WorkerMove.waiting (h : WorkerMove env i n o g pc g' pc') (hflag : pc.FlagOk)
    (hpc : pc = .fetch → g.mTextin.eofbit = true) :
    g'.mTextin = g.mTextin ∧ g'.mCurTextIdx = g.mCurTextIdx ∧
      sessions g'.trace + pc'.waiting = sessions g.trace + pc.waiting := by
  cases h with
  | fetch hfree heof hget => rw [hpc rfl] at heof; cases heof
  | trimThrows htrim => exact ⟨rfl, rfl, rfl⟩
  | trimEmpty htrim => exact ⟨rfl, rfl, by rw [waiting_trim_empty htrim]; rfl⟩
  | trim htrim ht => exact ⟨rfl, rfl, by rw [waiting_trim htrim ht]; rfl⟩
  | synthNull => exact ⟨rfl, rfl, by simp [WorkerPc.waiting]⟩
  | synthFails | synthMore | synthLast =>
    refine ⟨rfl, rfl, ?_⟩
    rcases hflag with rfl | rfl <;> simp [WorkerPc.waiting, SynthCall.session]
  | _ => exact ⟨rfl, rfl, by simp [WorkerPc.waiting, SynthCall.session]⟩

/-- A session that was started is spoken, has failed, or is open. -/
theorem WorkerMove.unspoken (h : WorkerMove env i n o g pc g' pc') (hflag : pc.FlagOk) :
    (voiced g'.trace + failures g'.trace) + pc'.unspoken + sessions g.trace =
      (voiced g.trace + failures g.trace) + pc.unspoken + sessions g'.trace := by
  cases h with
  | fetch hfree heof hget =>
    split <;> rfl
  | initFails hres hrc =>
    simp [WorkerPc.unspoken, SynthCall.session, SynthCall.voiced, SynthCall.failure, hrc]
    abel
  | init hres hrc =>
    simp [WorkerPc.unspoken, SynthCall.session, SynthCall.voiced, SynthCall.failure, not_lt.2 hrc]
    abel
  | synthFails | synthMore | synthLast =>
    rcases hflag with rfl | rfl <;>
      simp [WorkerPc.unspoken, SynthCall.session, SynthCall.voiced, SynthCall.failure]
    all_goals abel
  | _ => simp [WorkerPc.unspoken]

/-- A call that speaks is handed the text the worker holds. -/
theorem WorkerMove.handsText (h : WorkerMove env i n o g pc g' pc') (hg : HandsText g.trace) :
    HandsText g'.trace := by
  cases h with
  | initFails | init => exact hg.concat fun c hc hflag => by cases hc; cases hflag
  | synthFails | synthMore | synthLast => exact hg.concat fun c hc _ => by cases hc; rfl
  | initNull | malloc | synthNull | free => exact hg.concat fun c hc => by cases hc
  | _ => exact hg

end Moves

/-! ## The account -/

/-- **The account of the lines**, over a script with these lines. -/
structure Ledger (vecExceptionList lines : List Text) (g : Shared) (ws : List Worker) : Prop where
  vec : g.mVecExceptionList = vecExceptionList
  isOpen : g.mTextin.isOpen = true
  flags : ∀ w ∈ ws, w.pc.FlagOk
  /-- The sessions started and the lines waiting are worth the lines read. -/
  taken : ∃ p, g.mTextin.At lines p ∧ g.mCurTextIdx = toInt p ∧
    sessions g.trace + total (fun w => w.pc.waiting) ws =
      dispatched (fun k => toInt k) vecExceptionList (lines.take p)
  /-- The sessions voiced, failed and open are the sessions started. -/
  started : (voiced g.trace + failures g.trace) + total (fun w => w.pc.unspoken) ws =
    sessions g.trace
  handed : HandsText g.trace
  /-- A worker that ended well has seen the end of the file. -/
  ended : ∀ w ∈ ws, w.pc = .returned true → g.mTextin.eofbit = true
  /-- A worker that gave up has lost its line. -/
  lost : ∀ w ∈ ws, w.pc = .returned false → failures g.trace ≠ 0

section Step

variable {vecExceptionList lines : List Text} {env : Env} {i n : ℕ} {o : Outcome}
  {g g' : Shared} {ws : List Worker} {pc pc' : WorkerPc}

/-- A step that leaves the stream and the channels alone keeps the account. -/
theorem Ledger.frame (h : Ledger vecExceptionList lines g ws)
    (hvec : g'.mVecExceptionList = g.mVecExceptionList) (hin : g'.mTextin = g.mTextin)
    (hidx : g'.mCurTextIdx = g.mCurTextIdx) (hsess : sessions g'.trace = sessions g.trace)
    (hfail : failures g'.trace = failures g.trace) (hvoiced : voiced g'.trace = voiced g.trace)
    (hhanded : HandsText g'.trace) : Ledger vecExceptionList lines g' ws where
  vec := hvec ▸ h.vec
  isOpen := hin ▸ h.isOpen
  flags := h.flags
  taken := by
    rw [hin, hidx, hsess]
    exact h.taken
  started := by
    rw [hsess, hfail, hvoiced]
    exact h.started
  handed := hhanded
  ended := hin ▸ h.ended
  lost := by
    rw [hfail]
    exact h.lost

/-- What ends a worker: the end of the file, or a session that fails. -/
theorem WorkerMove.ending (h : WorkerMove env i n o g pc g' pc')
    (hopen : g.mTextin.isOpen = true) :
    (pc' = .returned true → g'.mTextin.eofbit = true) ∧
      (pc' = .returned false → failures g'.trace ≠ 0) := by
  cases h with
  | notOpen hno => rw [hopen] at hno; cases hno
  | loopEof heof => exact ⟨fun _ => heof, nofun⟩
  | fetchEof hfree heof => exact ⟨fun _ => heof, nofun⟩
  | fetch hfree heof hget => split <;> exact ⟨nofun, nofun⟩
  | initFails hres hrc => simp [SynthCall.failure, hrc]
  | _ => exact ⟨nofun, nofun⟩

/-- The end of the file stays reached. -/
theorem WorkerMove.eof_mono (h : WorkerMove env i n o g pc g' pc')
    (heof : g.mTextin.eofbit = true) : g'.mTextin.eofbit = true := by
  cases h with
  | fetch hfree hno hget => rw [hno] at heof; cases heof
  | _ => exact heof

/-- A failed session stays in the trace. -/
theorem WorkerMove.failures_mono (h : WorkerMove env i n o g pc g' pc')
    (hfail : failures g.trace ≠ 0) : failures g'.trace ≠ 0 := by
  have hgrow : ∃ es, g'.trace = g.trace ++ es := by
    cases h with
    | initNull | initFails | init | malloc | synthNull | synthFails | synthMore | synthLast
    | free =>
      exact ⟨_, rfl⟩
    | _ => exact ⟨[], (List.append_nil _).symm⟩
  obtain ⟨es, hes⟩ := hgrow
  intro hzero
  rw [hes, failures, total_append] at hzero
  exact hfail (add_eq_zero.1 hzero).1

/-- **The section that fetches a line moves the next line from the stream to the
worker.** -/
theorem taken_fetch {mTextin : IfStream} {l : Text} {p : ℕ} (hi : ws[i]? = some ⟨n, .fetch⟩)
    (hvec : g.mVecExceptionList = vecExceptionList) (hopen : g.mTextin.isOpen = true)
    (hat : g.mTextin.At lines p) (hidx : g.mCurTextIdx = toInt p)
    (htaken : sessions g.trace + total (fun w => w.pc.waiting) ws =
      dispatched (fun k => toInt k) vecExceptionList (lines.take p))
    (heof : g.mTextin.eofbit = false) (hget : g.mTextin.getline [] = (l, mTextin)) :
    mTextin.isOpen = true ∧ mTextin.At lines (p + 1) ∧
      toInt (g.mCurTextIdx + 1) = toInt (p + 1 : ℕ) ∧
      sessions g.trace + total (fun w => w.pc.waiting) (ws.set i ⟨n,
          if isExceptionalText g.mVecExceptionList l then .loop else .trim g.mCurTextIdx l⟩) =
        dispatched (fun k => toInt k) vecExceptionList (lines.take (p + 1)) := by
  have hp := hat.lt_of_not_eof heof
  obtain ⟨s', hget', hat', hopen'⟩ := IfStream.getline_spec hat heof hp
  obtain ⟨rfl, rfl⟩ := Prod.mk.inj (hget'.symm.trans hget)
  refine ⟨hopen'.trans hopen, hat', ?_, ?_⟩
  · rw [hidx, toInt_toInt_add_one]
    push_cast
    rfl
  · rw [dispatched_take_succ hp]
    refine conserve hi ?_ htaken
    have hworth : (if isExceptionalText g.mVecExceptionList lines[p] then WorkerPc.loop
        else .trim g.mCurTextIdx lines[p]).waiting =
          entry (toInt p) (dispatch vecExceptionList lines[p]) := by
      rw [hvec, hidx, dispatch]
      split <;> rfl
    have hnone : (⟨n, .fetch⟩ : Worker).pc.waiting = 0 := rfl
    rw [hworth, hnone, add_zero]
    abel

/-- **A step of a worker keeps the account.** -/
theorem WorkerMove.ledger (h : WorkerMove env i n o g pc g' pc') (hi : ws[i]? = some ⟨n, pc⟩)
    (hl : Ledger vecExceptionList lines g ws) :
    Ledger vecExceptionList lines g' (ws.set i ⟨n, pc'⟩) := by
  have hmem : (⟨n, pc⟩ : Worker) ∈ ws := List.mem_of_getElem? hi
  have hflag : pc.FlagOk := hl.flags _ hmem
  obtain ⟨hend, hlost⟩ := h.ending hl.isOpen
  obtain ⟨p, hat, hidx, htaken⟩ := hl.taken
  have htaken' : g'.mTextin.isOpen = true ∧
      ∃ q, g'.mTextin.At lines q ∧ g'.mCurTextIdx = toInt q ∧
        sessions g'.trace + total (fun w => w.pc.waiting) (ws.set i ⟨n, pc'⟩) =
          dispatched (fun k => toInt k) vecExceptionList (lines.take q) := by
    by_cases hfetch : pc = .fetch ∧ g.mTextin.eofbit = false
    · obtain ⟨rfl, heof⟩ := hfetch
      cases h with
      | fetchEof hfree hno => rw [heof] at hno; cases hno
      | fetch hfree heof hget =>
        obtain ⟨hopen', hrest⟩ := taken_fetch hi hl.vec hl.isOpen hat hidx htaken heof hget
        exact ⟨hopen', p + 1, hrest⟩
    · have hno : pc = .fetch → g.mTextin.eofbit = true := fun hpc => by
        simpa [hpc] using hfetch
      obtain ⟨hin, hidx', hwait⟩ := h.waiting hflag hno
      rw [hin, hidx']
      refine ⟨hl.isOpen, p, hat, hidx, conserve hi ?_ htaken⟩
      rw [hwait]
  exact
    { vec := h.vec.trans hl.vec
      isOpen := htaken'.1
      flags := forall_set hl.flags (h.flagOk hflag)
      taken := htaken'.2
      started := conserve hi (h.unspoken hflag) hl.started
      handed := h.handsText hl.handed
      ended := forall_set (fun w hw hret => h.eof_mono (hl.ended w hw hret)) hend
      lost := forall_set (fun w hw hret => h.failures_mono (hl.lost w hw hret)) hlost }

end Step

/-! ## Runs -/

/-- **A step of `main` that starts or joins threads keeps the account.** -/
theorem MainMove.ledger {vecExceptionList lines : List Text} {env : Env} {o : Outcome}
    {s s' : Sys} {pc : MainPc} (h : MainMove env o s pc s') (hpc : pc.Late)
    (hl : Ledger vecExceptionList lines s.g s.workers) :
    Ledger vecExceptionList lines s'.g s'.workers := by
  obtain ⟨-, hvec, hin, hidx, -⟩ := h.late hpc
  have hframe : Ledger vecExceptionList lines s'.g s.workers := by
    obtain htrace | ⟨e, he, htrace⟩ := h.trace
    · exact hl.frame hvec hin hidx (by rw [htrace]) (by rw [htrace]) (by rw [htrace])
        (htrace ▸ hl.handed)
    · exact hl.frame hvec hin hidx (by rw [htrace, sessions, total_concat_quiet he])
        (by rw [htrace, failures, total_concat_quiet he])
        (by rw [htrace, voiced, total_concat_quiet he])
        (htrace ▸ hl.handed.concat_quiet he)
  obtain hws | ⟨k, -, -, -, hws⟩ := h.workers
  · rw [hws]
    exact hframe
  · -- the new worker holds nothing
    have hnew : ∀ {P : Worker → Prop}, (∀ w ∈ s.workers, P w) → P ⟨k, .start⟩ →
        ∀ w ∈ s.workers ++ [⟨k, .start⟩], P w := by
      intro P hP hk w hw
      rcases List.mem_append.1 hw with hw | hw
      · exact hP w hw
      · rw [List.mem_singleton.1 hw]
        exact hk
    rw [hws]
    exact
      { vec := hframe.vec
        isOpen := hframe.isOpen
        flags := hnew hframe.flags trivial
        taken := by simpa [WorkerPc.waiting] using hframe.taken
        started := by simpa [WorkerPc.unspoken] using hframe.started
        handed := hframe.handed
        ended := hnew hframe.ended nofun
        lost := hnew hframe.lost nofun }

/-- **Every step keeps the account.** -/
theorem Ledger.step {vecExceptionList lines : List Text} {env : Env} {a : Act} {s s' : Sys}
    (hl : Ledger vecExceptionList lines s.g s.workers) (hpc : s.main.Late)
    (h : Move env s a s') :
    s'.main.Late ∧ Ledger vecExceptionList lines s'.g s'.workers := by
  cases h with
  | main _ h => exact ⟨(h.late hpc).1, h.ledger hpc hl⟩
  | cpu _ h =>
    obtain ⟨hvec, hin, hidx, htrace, -⟩ := h.frame
    exact ⟨hpc, hl.frame hvec hin hidx (by rw [htrace]) (by rw [htrace]) (by rw [htrace])
      (htrace ▸ hl.handed)⟩
  | worker _ hi h => exact ⟨hpc, h.ledger hi hl⟩

theorem Launch.ledger {vecExceptionList : List Text} {content : Text} {s : Sys}
    (h : Launch vecExceptionList (.ofContent content) s) :
    Ledger vecExceptionList (linesOf content) s.g s.workers := by
  have hsess : sessions s.g.trace = 0 := total_quiet h.quiet
  have hfail : failures s.g.trace = 0 := total_quiet h.quiet
  have hvoiced : voiced s.g.trace = 0 := total_quiet h.quiet
  rw [h.workers]
  exact
    { vec := h.vec
      isOpen := by rw [h.mTextin]; rfl
      flags := nofun
      taken := by
        refine ⟨0, ?_, ?_, ?_⟩
        · rw [h.mTextin]
          exact IfStream.at_ofContent content
        · rw [h.mCurTextIdx, Nat.cast_zero, toInt_zero]
        · rw [hsess]
          rfl
      started := by rw [hsess, hfail, hvoiced]; rfl
      handed := handsText_of_quiet h.quiet
      ended := nofun
      lost := nofun }

/-- **The account holds in every state a launch leads to.** -/
theorem ledger_of_run {vecExceptionList : List Text} {content : Text} {env : Env} {s₀ s : Sys}
    {acts : List Act} (h₀ : Launch vecExceptionList (.ofContent content) s₀)
    (h : run env s₀ acts = some s) :
    s.main.Late ∧ Ledger vecExceptionList (linesOf content) s.g s.workers := by
  have hstep : ∀ t a t', (t.main.Late ∧ Ledger vecExceptionList (linesOf content) t.g t.workers) →
      step env t a = some t' →
      t'.main.Late ∧ Ledger vecExceptionList (linesOf content) t'.g t'.workers :=
    fun t a t' ht hmove => ht.2.step ht.1 (step_move hmove)
  exact runFrom_invariant hstep h ⟨by rw [h₀.main]; trivial, h₀.ledger⟩

/-! ## Complete runs -/

/-- What all workers have returned from, they no longer hold. -/
theorem total_returned {f : WorkerPc → Multiset (Int × Text)} {ws : List Worker}
    (hf : ∀ ret, f (.returned ret) = 0) (h : ∀ w ∈ ws, ∃ ret, w.pc = .returned ret) :
    total (fun w => f w.pc) ws = 0 := by
  apply total_eq_zero
  intro w hw
  obtain ⟨ret, hret⟩ := h w hw
  rw [hret, hf]

/-- The engine has heard of each text given to it what stands in front of its first NUL. -/
theorem Ledger.heard {vecExceptionList lines : List Text} {g : Shared} {ws : List Worker}
    (hl : Ledger vecExceptionList lines g ws) :
    speech g.trace = (voiced g.trace).map heard :=
  hl.handed.spoken

/-- Once every worker has returned, the texts given to the engine and the sessions
lost are the sessions started. -/
theorem Ledger.voiced_of_returned {vecExceptionList lines : List Text} {g : Shared}
    {ws : List Worker} (hl : Ledger vecExceptionList lines g ws)
    (hret : ∀ w ∈ ws, ∃ ret, w.pc = .returned ret) :
    voiced g.trace + failures g.trace = sessions g.trace := by
  have hstarted := hl.started
  rwa [total_returned (fun _ => rfl) hret, add_zero] at hstarted

/-- **Where no session was lost, every line of the script has been taken, once.** -/
theorem Ledger.sessions_of_returned {vecExceptionList lines : List Text} {g : Shared}
    {ws : List Worker} (hl : Ledger vecExceptionList lines g ws) (hne : ws ≠ [])
    (hret : ∀ w ∈ ws, ∃ ret, w.pc = .returned ret) (hfail : failures g.trace = 0) :
    sessions g.trace = dispatched (fun k => toInt k) vecExceptionList lines := by
  obtain ⟨p, hat, -, htaken⟩ := hl.taken
  rw [total_returned (fun _ => rfl) hret, add_zero] at htaken
  obtain ⟨w, hw⟩ := List.exists_mem_of_ne_nil ws hne
  obtain ⟨ret, hwret⟩ := hret w hw
  have heof : g.mTextin.eofbit = true := by
    cases ret with
    | true => exact hl.ended w hw hwret
    | false => exact absurd hfail (hl.lost w hw hwret)
  rw [htaken, hat.eq_of_eof heof, List.take_length]

end Run
