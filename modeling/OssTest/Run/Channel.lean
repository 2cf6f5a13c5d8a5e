import OssTest.Run.Speech

/-!
# The protocol of a channel

Every worker speaks to the engine on a channel of its own, in sessions: a call that
opens the channel, a buffer, calls that speak one text into it until one of them
returns something other than 0, and the buffer is given back.  `channels_of_run` says
that at any time a channel has seen some complete sessions (`Session`, a structure
that carries what makes it one) and the beginning of another (`Unfinished`), which
is the last of them when its opening call failed.
-/

namespace Engine

open Cpp

/-- The channel on which something happens: that of a call that was made, or of the
buffer it speaks into. -/
def Event.channel : Event → Option ℕ
  | .synth true c => some c.threadNum
  | .malloc threadNum _ _ => some threadNum
  | .free threadNum _ => some threadNum
  | _ => none

/-- What happens on channel `n`. -/
def channel (n : ℕ) (trace : List Event) : List Event :=
  trace.filter fun e => e.channel = some n

/-- A call by worker `n` that opens its channel. -/
structure Opens (n : ℕ) (c : SynthCall) : Prop where
  caller : c.caller = n
  threadNum : c.threadNum = n
  frameflag : c.frameflag = -1
  ttsText : c.ttsText = none

/-- Calls by worker `n` that speak `text` into `framebuf`, from its beginning. -/
structure Speaks (n : ℕ) (text : Text) (framebuf : ℕ) (calls : List SynthCall) : Prop where
  caller : ∀ c ∈ calls, c.caller = n
  threadNum : ∀ c ∈ calls, c.threadNum = n
  /-- `c_str()`: the engine sees the text up to its first NUL. -/
  ttsText : ∀ c ∈ calls, c.ttsText = some (cstr text)
  outputBuff : ∀ c ∈ calls, c.outputBuff = framebuf
  /-- The first call begins the text, the others continue it. -/
  frameflag : ∀ j c, calls[j]? = some c → c.frameflag = if j = 0 then 0 else 1

/-- The events of a session up to the last call made so far. -/
def sessionEvents (n : ℕ) (opening : SynthCall) (framebuf : ℕ) (calls : List SynthCall) :
    List Event :=
  [.synth true opening, .malloc n (toSize opening.nFramesize) framebuf] ++
    calls.map (.synth true)

/-- A complete session on channel `n`. -/
structure Session (n : ℕ) where
  /-- The call that opens the channel. -/
  opening : SynthCall
  framebuf : ℕ
  /-- The calls after which the text goes on. -/
  goingOn : List SynthCall
  /-- The call that ends the session. -/
  last : SynthCall
  opens : Opens n opening
  opened : 0 ≤ opening.rc
  speaks : Speaks n opening.line framebuf (goingOn ++ [last])
  goesOn : ∀ c ∈ goingOn, c.rc = 0
  ends : last.rc ≠ 0

/-- What a session leaves in the trace; its buffer is freed once, at its end. -/
def Session.events {n : ℕ} (s : Session n) : List Event :=
  sessionEvents n s.opening s.framebuf (s.goingOn ++ [s.last]) ++ [.free n s.framebuf]

theorem channel_concat {n : ℕ} {trace : List Event} {e : Event} (h : e.channel = some n) :
    channel n (trace ++ [e]) = channel n trace ++ [e] := by
  simp [channel, h]

theorem speaks_nil (n : ℕ) (text : Text) (framebuf : ℕ) : Speaks n text framebuf [] :=
  ⟨nofun, nofun, nofun, nofun, nofun⟩

/-- One more call that speaks the text. -/
theorem Speaks.concat {n : ℕ} {text : Text} {framebuf : ℕ} {calls : List SynthCall}
    (h : Speaks n text framebuf calls) {c : SynthCall} (hcaller : c.caller = n)
    (hthread : c.threadNum = n) (htext : c.ttsText = some (cstr text))
    (hbuff : c.outputBuff = framebuf) (hflag : c.frameflag = if calls = [] then 0 else 1) :
    Speaks n text framebuf (calls ++ [c]) := by
  obtain ⟨h₁, h₂, h₃, h₄, h₅⟩ := h
  refine ⟨?_, ?_, ?_, ?_, ?_⟩
  · exact List.forall_mem_append.2 ⟨h₁, List.forall_mem_singleton.2 hcaller⟩
  · exact List.forall_mem_append.2 ⟨h₂, List.forall_mem_singleton.2 hthread⟩
  · exact List.forall_mem_append.2 ⟨h₃, List.forall_mem_singleton.2 htext⟩
  · exact List.forall_mem_append.2 ⟨h₄, List.forall_mem_singleton.2 hbuff⟩
  · intro j d hj
    by_cases hlt : j < calls.length
    · rw [List.getElem?_append_left hlt] at hj
      exact h₅ j d hj
    · rw [List.getElem?_append_right (by omega), List.getElem?_singleton] at hj
      split_ifs at hj with hlast
      cases hj
      have hj : j = calls.length := by omega
      rw [hflag, hj]
      simp

end Engine

namespace Run

open Cpp UtilBox Exceptions EngineLog Engine Steps

/-- What channel `n` has seen since its last complete session, by where its worker stands. -/
def WorkerPc.Since (n : ℕ) : WorkerPc → List Event → Prop
  | .returned false, rest => ∃ c, Opens n c ∧ c.rc < 0 ∧ rest = [.synth true c]
  | .malloc _ t nFramesize, rest =>
      ∃ c, Opens n c ∧ 0 ≤ c.rc ∧ c.line = t ∧ c.nFramesize = nFramesize ∧ rest = [.synth true c]
  | .synth _ t framebuf frameflag, rest =>
      ∃ c calls, Opens n c ∧ 0 ≤ c.rc ∧ c.line = t ∧ Speaks n t framebuf calls ∧
        (∀ d ∈ calls, d.rc = 0) ∧ (frameflag = if calls = [] then 0 else 1) ∧
        rest = sessionEvents n c framebuf calls
  | .sprintfErr _ framebuf, rest | .logErr framebuf, rest | .free framebuf, rest =>
      ∃ c calls last, Opens n c ∧ 0 ≤ c.rc ∧ Speaks n c.line framebuf (calls ++ [last]) ∧
        (∀ d ∈ calls, d.rc = 0) ∧ last.rc ≠ 0 ∧
        rest = sessionEvents n c framebuf (calls ++ [last])
  | _, rest => rest = []

/-- What channel `n` has seen, with its worker at this point. -/
def Seen (n : ℕ) (pc : WorkerPc) (events : List Event) : Prop :=
  ∃ (sessions : List (Session n)) (rest : List Event),
    events = sessions.flatMap Session.events ++ rest ∧ pc.Since n rest

section Step

variable {env : Env} {i n : ℕ} {o : Outcome} {g g' : Shared} {pc pc' : WorkerPc}

/-- A step that appends one event to what was seen since the last session. -/
theorem Seen.append {events : List Event} {e : Event} (h : Seen n pc events)
    (hsince : ∀ rest, pc.Since n rest → pc'.Since n (rest ++ [e])) :
    Seen n pc' (events ++ [e]) := by
  obtain ⟨sessions, rest, rfl, hrest⟩ := h
  exact ⟨sessions, rest ++ [e], List.append_assoc .., hsince rest hrest⟩

/-- A step that appends nothing. -/
theorem Seen.keep {events : List Event} (h : Seen n pc events)
    (hsince : ∀ rest, pc.Since n rest → pc'.Since n rest) : Seen n pc' events := by
  obtain ⟨sessions, rest, rfl, hrest⟩ := h
  exact ⟨sessions, rest, rfl, hsince rest hrest⟩

/-- The end of a session. -/
theorem Seen.free {framebuf : ℕ} {events : List Event} (h : Seen n (.free framebuf) events) :
    Seen n .loop (events ++ [.free n framebuf]) := by
  obtain ⟨sessions, rest, rfl, c, calls, last, hopens, hrc, hspeaks, hgoes, hends, rfl⟩ := h
  refine ⟨sessions ++ [⟨c, framebuf, calls, last, hopens, hrc, hspeaks, hgoes, hends⟩], [], ?_, rfl⟩
  simp [Session.events]

/-- The call that ends a session. -/
theorem WorkerPc.Since.speak {k : Int} {t : Text} {framebuf : ℕ} {frameflag : Int}
    {rest : List Event} (h : (WorkerPc.synth k t framebuf frameflag).Since n rest) {rc size : Int}
    (hrc : rc ≠ 0) :
    ∃ c calls last, Opens n c ∧ 0 ≤ c.rc ∧ Speaks n c.line framebuf (calls ++ [last]) ∧
      (∀ d ∈ calls, d.rc = 0) ∧ last.rc ≠ 0 ∧
      rest ++ [.synth true ⟨n, k, some (cstr t), framebuf, frameflag, n, t, rc, size⟩] =
        sessionEvents n c framebuf (calls ++ [last]) := by
  obtain ⟨c, calls, hopens, hrc', rfl, hspeaks, hgoes, hflag, rfl⟩ := h
  exact ⟨c, calls, ⟨n, k, some (cstr c.line), framebuf, frameflag, n, c.line, rc, size⟩, hopens,
    hrc', hspeaks.concat rfl rfl rfl rfl hflag, hgoes, hrc, by simp [sessionEvents]⟩

/-- **A step of worker `n` follows the protocol of channel `n`.** -/
theorem WorkerMove.seen (h : WorkerMove env n n o g pc g' pc')
    (hseen : Seen n pc (channel n g.trace)) : Seen n pc' (channel n g'.trace) := by
  cases h with
  | fetch =>
    apply hseen.keep
    intro rest hrest
    split <;> exact hrest
  | initNull | synthNull =>
    simpa [channel, Event.channel] using hseen
  | initFails hres hrc =>
    rw [emit_trace, channel_concat rfl]
    apply hseen.append
    intro rest hrest
    cases hrest
    exact ⟨_, ⟨rfl, rfl, rfl, rfl⟩, hrc, rfl⟩
  | init hres hrc =>
    rw [emit_trace, channel_concat rfl]
    apply hseen.append
    intro rest hrest
    cases hrest
    exact ⟨_, ⟨rfl, rfl, rfl, rfl⟩, hrc, rfl, rfl, rfl⟩
  | malloc =>
    rw [emit_trace, channel_concat rfl]
    apply hseen.append
    intro rest hrest
    obtain ⟨c, hopens, hrc, hline, hsize, rfl⟩ := hrest
    exact ⟨c, [], hopens, hrc, hline, speaks_nil .., nofun, rfl, by rw [← hsize]; rfl⟩
  | synthFails hres hrc =>
    rw [emit_trace, channel_concat rfl]
    exact hseen.append fun rest hrest => hrest.speak hrc.ne
  | @synthMore k t buf flag hres hrc =>
    rw [emit_trace, channel_concat rfl]
    apply hseen.append
    intro rest hrest
    obtain ⟨c, calls, hopens, hrc', hline, hspeaks, hgoes, hflag, rfl⟩ := hrest
    refine ⟨c, calls ++ [⟨n, k, some (cstr t), buf, flag, n, t, o.rc, o.nFramesize⟩], hopens, hrc',
      hline, hspeaks.concat rfl rfl rfl rfl hflag,
      List.forall_mem_append.2 ⟨hgoes, List.forall_mem_singleton.2 hrc⟩, ?_, by
        simp [sessionEvents]⟩
    rw [hflag]
    split <;> simp
  | synthLast hres hrc =>
    rw [emit_trace, channel_concat rfl]
    exact hseen.append fun rest hrest => hrest.speak hrc.ne'
  | free =>
    rw [emit_trace, channel_concat rfl]
    exact hseen.free
  | _ => exact hseen.keep fun rest hrest => hrest

/-- A step of worker `n` leaves the other channels alone. -/
theorem WorkerMove.channel_of_ne (h : WorkerMove env i n o g pc g' pc') {m : ℕ} (hm : m ≠ n) :
    channel m g'.trace = channel m g.trace := by
  cases h <;> simp [channel, Event.channel, hm.symm]

end Step

/-- Every worker has the channel of its own number, which has seen what it should;
the channels nobody has yet have seen nothing. -/
structure Channels (s : Sys) : Prop where
  early : ¬ s.main.Late → s.workers = []
  spawned : ∀ k, s.main = .spawn k → s.workers.length = k
  seen : ∀ i w, s.workers[i]? = some w → w.threadNum = i ∧ Seen i w.pc (channel i s.g.trace)
  unused : ∀ n, s.workers.length ≤ n → channel n s.g.trace = []

theorem seen_nil (n : ℕ) : Seen n .start [] := ⟨[], [], rfl, rfl⟩

theorem quiet_channel {e : Event} (h : e.Quiet) (n : ℕ) : e.channel ≠ some n := by
  cases e <;> first | exact h.elim | simp [Event.channel]

theorem MainMove.channel {env : Env} {o : Outcome} {s s' : Sys} {pc : MainPc}
    (h : MainMove env o s pc s') (n : ℕ) : channel n s'.g.trace = channel n s.g.trace := by
  obtain htrace | ⟨e, he, htrace⟩ := h.trace
  · rw [htrace]
  · simp [htrace, Engine.channel, quiet_channel he n]

/-- `main` comes to start its first worker with none there, and its next ones one by
one. -/
theorem MainMove.length_of_spawn {env : Env} {o : Outcome} {s s' : Sys} (hs : Channels s)
    (h : MainMove env o s s.main s') (k : ℕ) (hk : s'.main = .spawn k) :
    s'.workers.length = k := by
  obtain hws | ⟨j, hj, -, hj', hws⟩ := h.workers
  · rw [hws]
    generalize hpc : s.main = pc at h
    cases h with
    | loadTTS hres hlen =>
      cases hk
      rw [hs.early (by rw [hpc]; exact id), List.length_nil]
    | spawn hj => exact absurd (congrArg List.length hws) (by simp)
    | _ => cases hk
  · rw [hws, List.length_append, hs.spawned j hj, List.length_singleton]
    rw [hj'] at hk
    exact MainPc.spawn.inj hk

theorem MainMove.channels {env : Env} {o : Outcome} {s s' : Sys} (hs : Channels s)
    (h : MainMove env o s s.main s') : Channels s' := by
  have hspawned := MainMove.length_of_spawn hs h
  have hearly : ¬ s'.main.Late → s'.workers = [] := by
    intro hl
    have hl' : ¬ s.main.Late := fun hlate => hl (h.late hlate).1
    obtain hws | ⟨j, hj, -⟩ := h.workers
    · rw [hws, hs.early hl']
    · rw [hj] at hl'
      exact absurd trivial hl'
  refine ⟨hearly, hspawned, ?_, ?_⟩
  · intro i w hi
    rw [h.channel]
    obtain hws | ⟨j, hj, -, -, hws⟩ := h.workers
    · rw [hws] at hi
      exact hs.seen i w hi
    · -- the new worker finds its channel untouched
      have hlen := hs.spawned j hj
      rw [hws, List.getElem?_append] at hi
      split_ifs at hi with hlt
      · exact hs.seen i w hi
      · rw [List.getElem?_singleton] at hi
        split_ifs at hi with hzero
        cases hi
        have hij : j = i := by omega
        refine ⟨hij, ?_⟩
        rw [hs.unused i (by omega)]
        exact seen_nil i
  · intro n hn
    rw [h.channel]
    refine hs.unused n (le_trans ?_ hn)
    obtain hws | ⟨j, -, -, -, hws⟩ := h.workers <;> rw [hws]
    rw [List.length_append]
    exact Nat.le_add_right _ _

/-- **Every step follows the protocol of every channel.** -/
theorem Channels.step {env : Env} {s s' : Sys} {a : Act} (hs : Channels s)
    (h : Move env s a s') : Channels s' := by
  cases h with
  | main _ h => exact h.channels hs
  | cpu _ h =>
    have htrace := h.frame.2.2.2.1
    exact ⟨hs.early, hs.spawned, by rw [htrace]; exact hs.seen, by rw [htrace]; exact hs.unused⟩
  | @worker i n pc g' pc' _ hi h =>
    obtain ⟨hn, hseen⟩ := hs.seen i _ hi
    obtain rfl : n = i := hn
    have hlt : n < s.workers.length := (List.getElem?_eq_some_iff.1 hi).1
    refine ⟨?_, ?_, ?_, ?_⟩
    · intro hl
      rw [hs.early hl] at hlt
      exact absurd hlt (Nat.not_lt_zero n)
    · intro k hk
      rw [List.length_set]
      exact hs.spawned k hk
    · intro j w hj
      by_cases hjn : j = n
      · subst hjn
        rw [List.getElem?_set_self hlt, Option.some.injEq] at hj
        subst hj
        exact ⟨rfl, h.seen hseen⟩
      · rw [List.getElem?_set_ne (Ne.symm hjn)] at hj
        rw [h.channel_of_ne hjn]
        exact hs.seen j w hj
    · intro m hm
      rw [List.length_set] at hm
      rw [h.channel_of_ne (by omega)]
      exact hs.unused m hm

theorem channels_start (disk : Text → Text) : Channels (.start disk) :=
  ⟨fun _ => rfl, nofun, nofun, fun _ _ => rfl⟩

end Run
