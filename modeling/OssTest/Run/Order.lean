import OssTest.Run.Channel
import OssTest.Run.Sizes

/-!
# The order of the lines

The workers overtake one another, but not far.  A worker gets the lines it speaks in the
order of the script, and what keeps the others from going ahead of a line is only that
some worker still holds it.

* `openings_ascend` — the numbers on one channel ascend.
* `in_order_of_run` — and no line is started while as many lines before it as there are
  workers are still waiting.
-/

namespace Engine

/-- The number under which the event opens its channel. -/
def Event.opening : Event → Option Int
  | .synth true c => if c.frameflag = -1 then some c.curIdx else none
  | _ => none

/-- The numbers under which channel `n` was opened. -/
def openings (n : ℕ) (trace : List Event) : List Int := (channel n trace).filterMap Event.opening

end Engine

namespace Run

open Cpp UtilBox Exceptions EngineLog Engine Steps Pool

/-! ## Ascending numbers -/

/-- The numbers ascend, and `next` is above them all. -/
structure Ascending (next : Int) (ks : List Int) : Prop where
  pairwise : ks.Pairwise (· < ·)
  below : ∀ k ∈ ks, k < next

section Ascending

variable {next : Int} {ks ls : List Int}

theorem ascending_nil : Ascending next [] := ⟨.nil, nofun⟩

theorem Ascending.sublist (h : Ascending next ks) (hl : ls.Sublist ks) : Ascending next ls :=
  ⟨h.pairwise.sublist hl, fun k hk => h.below k (hl.subset hk)⟩

theorem Ascending.mono (h : Ascending next ks) {next' : Int} (hle : next ≤ next') :
    Ascending next' ks :=
  ⟨h.pairwise, fun k hk => (h.below k hk).trans_le hle⟩

/-- The next number is taken. -/
theorem Ascending.concat (h : Ascending next ks) : Ascending (next + 1) (ks ++ [next]) := by
  constructor
  · exact List.pairwise_append.2 ⟨h.pairwise, List.pairwise_singleton .., by simpa using h.below⟩
  · intro k hk
    rcases List.mem_append.1 hk with hk | hk
    · exact (h.below k hk).trans (lt_add_one next)
    · rw [List.mem_singleton.1 hk]
      exact lt_add_one next

end Ascending

/-! ## One worker -/

/-- The number of the line a worker holds that waits for its session. -/
def WorkerPc.held : WorkerPc → List Int
  | .trim k _ | .sprintf k _ | .log k _ | .init k _ => [k]
  | _ => []

/-- What a worker holds is at most one line, under the number that is held. -/
theorem waiting_cases (pc : WorkerPc) :
    pc.waiting = 0 ∨ ∃ k t, pc.waiting = {(k, t)} ∧ pc.held = [k] := by
  cases pc with
  | trim k l =>
    cases hclean : cleaned (UtilBox.trim l) with
    | none => exact Or.inl (by simp [WorkerPc.waiting, hclean])
    | some t => exact Or.inr ⟨k, t, by simp [WorkerPc.waiting, hclean], rfl⟩
  | sprintf k t | log k t | init k t => exact Or.inr ⟨k, t, rfl, rfl⟩
  | _ => exact Or.inl rfl

section Step

variable {env : Env} {i n : ℕ} {o : Outcome} {g g' : Shared} {pc pc' : WorkerPc}

theorem openings_of_ne (h : WorkerMove env i n o g pc g' pc') {m : ℕ} (hm : m ≠ n) :
    openings m g'.trace = openings m g.trace := by
  rw [openings, h.channel_of_ne hm, openings]

/-- **A line that waits is dropped or opens the channel**, in every step that takes no
new one. -/
theorem WorkerMove.held (h : WorkerMove env i n o g pc g' pc') (hflag : pc.FlagOk)
    (hpc : pc = .fetch → g.mTextin.eofbit = true) :
    (openings n g'.trace ++ pc'.held).Sublist (openings n g.trace ++ pc.held) := by
  cases h with
  | fetch hfree heof hget => rw [hpc rfl] at heof; cases heof
  | trimEmpty => simp [WorkerPc.held]
  | initFails | init | malloc | free =>
    simp [openings, channel, Event.channel, Event.opening, WorkerPc.held]
  | synthFails | synthMore | synthLast =>
    rcases hflag with rfl | rfl <;>
      simp [openings, channel, Event.channel, Event.opening, WorkerPc.held]
  | initNull | synthNull => simp [openings, channel, Event.channel, WorkerPc.held]
  | _ => exact List.Sublist.refl _

end Step

/-! ## All workers -/

/-- Every worker has opened its channel, and holds its line, under ascending numbers that
are below that of the next line of the stream. -/
structure Handed (lines : List Text) (p : ℕ) (s : Sys) : Prop where
  stream : s.g.mTextin.At lines p
  mCurTextIdx : s.g.mCurTextIdx = toInt p
  ascending : ∀ n w, s.workers[n]? = some w →
    Ascending p (openings n s.g.trace ++ w.pc.held)

section Step

variable {lines : List Text} {p : ℕ} {env : Env} {s s' : Sys} {a : Act}

/-- A step that leaves the stream alone and gives no worker a number. -/
theorem Handed.frame (hs : Handed lines p s) (hin : s'.g.mTextin = s.g.mTextin)
    (hidx : s'.g.mCurTextIdx = s.g.mCurTextIdx)
    (hws : ∀ n w', s'.workers[n]? = some w' → openings n s'.g.trace ++ w'.pc.held = [] ∨
      ∃ w, s.workers[n]? = some w ∧ (openings n s'.g.trace ++ w'.pc.held).Sublist
        (openings n s.g.trace ++ w.pc.held)) : Handed lines p s' := by
  refine ⟨by rw [hin]; exact hs.stream, by rw [hidx]; exact hs.mCurTextIdx, ?_⟩
  intro n w' hn
  obtain hnil | ⟨w, hw, hsub⟩ := hws n w' hn
  · rw [hnil]
    exact ascending_nil
  · exact (hs.ascending n w hw).sublist hsub

/-- `main` starts its workers with nothing to do. -/
theorem MainMove.handed {o : Outcome} (hs : Handed lines p s) (hc : Channels s)
    (hlate : s.main.Late) (h : MainMove env o s s.main s') : Handed lines p s' := by
  obtain ⟨-, -, hin, hidx, -⟩ := h.late hlate
  refine hs.frame hin hidx ?_
  intro n w' hn
  rw [openings, h.channel]
  obtain hws | ⟨k, -, -, -, hws⟩ := h.workers
  · rw [hws] at hn
    exact Or.inr ⟨w', hn, List.Sublist.refl _⟩
  · rw [hws, List.getElem?_append] at hn
    split_ifs at hn with hlt
    · exact Or.inr ⟨w', hn, List.Sublist.refl _⟩
    · rw [List.getElem?_singleton] at hn
      split_ifs at hn
      cases hn
      rw [hc.unused n (by omega)]
      exact Or.inl rfl

/-- **The section that fetches a line gives the worker the next number.** -/
theorem Handed.fetch {i : ℕ} {l : Text} {mTextin : IfStream} (hs : Handed lines p s)
    (hlen : lines.length ≤ 2 ^ 31) (hi : s.workers[i]? = some ⟨i, .fetch⟩)
    (heof : s.g.mTextin.eofbit = false) (hget : s.g.mTextin.getline [] = (l, mTextin)) :
    Handed lines (p + 1) { s with
      g := s.g.advance mTextin
      workers := s.workers.set i ⟨i,
        if isExceptionalText s.g.mVecExceptionList l then .loop else .trim s.g.mCurTextIdx l⟩ } := by
  have hp := hs.stream.lt_of_not_eof heof
  obtain ⟨mTextin', hget', hat', -⟩ := IfStream.getline_spec hs.stream heof hp
  obtain ⟨rfl, rfl⟩ := Prod.mk.inj (hget'.symm.trans hget)
  have hnum : s.g.mCurTextIdx = p := by
    rw [hs.mCurTextIdx]
    exact toInt_natCast_eq_iff.2 (by omega)
  refine ⟨hat', ?_, ?_⟩
  · show toInt (s.g.mCurTextIdx + 1) = toInt (p + 1 : ℕ)
    rw [hnum]
    rfl
  · intro n w hn
    show Ascending ((p + 1 : ℕ) : Int) (openings n s.g.trace ++ w.pc.held)
    push_cast
    by_cases hni : n = i
    · subst hni
      have hold : Ascending p (openings n s.g.trace) := by
        simpa [WorkerPc.held] using hs.ascending n _ hi
      rw [List.getElem?_set_self (List.getElem?_eq_some_iff.1 hi).1, Option.some.injEq] at hn
      subst hn
      dsimp only
      split
      · simpa [WorkerPc.held] using hold.mono (by omega)
      · rw [hnum]
        exact hold.concat
    · rw [List.getElem?_set_ne (Ne.symm hni)] at hn
      exact (hs.ascending n w hn).mono (by omega)

/-- **Every step hands out the lines in their order.** -/
theorem Handed.step (hs : Handed lines p s) (hlen : lines.length ≤ 2 ^ 31) (hc : Channels s)
    (hlate : s.main.Late) (hflags : ∀ w ∈ s.workers, w.pc.FlagOk) (h : Move env s a s') :
    ∃ q, Handed lines q s' := by
  cases h with
  | main _ h => exact ⟨p, h.handed hs hc hlate⟩
  | cpu _ h =>
    obtain ⟨-, hin, hidx, htrace, -⟩ := h.frame
    refine ⟨p, hs.frame hin hidx fun n w hn => Or.inr ⟨w, hn, ?_⟩⟩
    dsimp only
    rw [htrace]
  | @worker i n pc g' pc' _ hi h =>
    obtain rfl : n = i := (hc.seen i _ hi).1
    by_cases hfetch : pc = .fetch ∧ s.g.mTextin.eofbit = false
    · obtain ⟨rfl, heof⟩ := hfetch
      cases h with
      | fetchEof hfree hno => rw [heof] at hno; cases hno
      | fetch hfree heof hget => exact ⟨p + 1, hs.fetch hlen hi heof hget⟩
    · have hflag := hflags _ (List.mem_of_getElem? hi)
      have hno : pc = .fetch → s.g.mTextin.eofbit = true := fun hpc => by
        simpa [hpc] using hfetch
      obtain ⟨hin, hidx, -⟩ := h.waiting hflag hno
      refine ⟨p, hs.frame hin hidx fun m w hm => Or.inr ?_⟩
      by_cases hmn : m = n
      · subst hmn
        rw [List.getElem?_set_self (List.getElem?_eq_some_iff.1 hi).1, Option.some.injEq] at hm
        subst hm
        exact ⟨_, hi, h.held hflag hno⟩
      · rw [List.getElem?_set_ne (Ne.symm hmn)] at hm
        refine ⟨w, hm, ?_⟩
        dsimp only
        rw [openings_of_ne h hmn]

end Step

theorem channels_hold {env : Env} {disk : Text → Text} {acts : List Act} {s : Sys}
    (hrun : run env (.start disk) acts = some s) : Channels s := by
  have hstep : ∀ t a t', Channels t → step env t a = some t' → Channels t' :=
    fun t a t' ht hmove => ht.step (step_move hmove)
  exact runFrom_invariant hstep hrun (channels_start disk)

theorem handed_of_run {env : Env} {disk : Text → Text} {vecExceptionList : List Text}
    {content : Text} {pre post : List Act} {s₀ s : Sys}
    (hpre : run env (.start disk) pre = some s₀)
    (h₀ : Launch vecExceptionList (.ofContent content) s₀) (hpost : run env s₀ post = some s)
    (hlen : (linesOf content).length ≤ 2 ^ 31) : ∃ p, Handed (linesOf content) p s := by
  have hstep : ∀ as t a t', run env s₀ as = some t → (∃ p, Handed (linesOf content) p t) →
      step env t a = some t' → ∃ p, Handed (linesOf content) p t' := by
    rintro as t a t' has ⟨p, ht⟩ hmove
    have hc := channels_hold (runFrom_append_eq_some.2 ⟨s₀, hpre, has⟩)
    obtain ⟨hlate, hledger⟩ := ledger_of_run h₀ has
    exact ht.step hlen hc hlate hledger.flags (step_move hmove)
  have hnil : ∃ p, Handed (linesOf content) p s₀ := by
    refine ⟨0, ?_, ?_, ?_⟩
    · rw [h₀.mTextin]
      exact IfStream.at_ofContent content
    · rw [h₀.mCurTextIdx, Nat.cast_zero, toInt_zero]
    · rw [h₀.workers]
      nofun
  exact runFrom_history (P := fun _ t => ∃ p, Handed (linesOf content) p t) hnil hstep hpost

/-! ## How far the workers overtake one another -/

/-- What is handed out before line `k` has a number below `k`. -/
theorem lt_of_mem_dispatched_take {vecExceptionList lines : List Text} {k : ℕ} {j : Int} {t : Text}
    (h : (j, t) ∈ dispatched (fun k => (k : Int)) vecExceptionList (lines.take k)) : j < k := by
  obtain ⟨i, l, hi, -, rfl⟩ := mem_dispatched.1 h
  have hlt := (List.getElem?_eq_some_iff.1 hi).1
  rw [List.length_take] at hlt
  omega

theorem dispatched_append (num : ℕ → Int) (vecExceptionList lines lines' : List Text) :
    dispatched num vecExceptionList lines ≤ dispatched num vecExceptionList (lines ++ lines') := by
  rw [dispatched, dispatched, List.zipIdx_append, total_append]
  exact Multiset.le_add_right ..

/-- The worker that has opened its channel for line `k` holds no line before it. -/
theorem Ascending.not_waiting {next k : Int} {ks : List Int} {pc : WorkerPc}
    (h : Ascending next (ks ++ pc.held)) (hk : k ∈ ks) :
    pc.waiting.filter (fun x => x.1 < k) = 0 := by
  obtain hnone | ⟨j, t, hwait, hheld⟩ := waiting_cases pc
  · rw [hnone, Multiset.filter_zero]
  · rw [hheld] at h
    have hlt : k < j := (List.pairwise_append.1 h.pairwise).2.2 k hk j (List.mem_singleton_self j)
    rw [hwait, Multiset.filter_singleton, if_neg (by simpa using hlt.le)]
    rfl

theorem mem_openings_of_session {trace : List Event} {k : Int} {t : Text}
    (h : (k, t) ∈ sessions trace) : ∃ n, k ∈ openings n trace := by
  obtain ⟨c, hc, hsession⟩ := mem_total_worth.1 h
  rw [SynthCall.session] at hsession
  split at hsession
  · rename_i hflag
    obtain ⟨rfl, -⟩ := Prod.mk.inj (Multiset.mem_singleton.1 hsession)
    refine ⟨c.threadNum, List.mem_filterMap.2 ⟨.synth true c, ?_, by simp [Event.opening, hflag]⟩⟩
    exact List.mem_filter.2 ⟨hc, by simp [Event.channel]⟩
  · cases hsession

/-- What is taken out of `a + b` and not in `a` is in `b`. -/
theorem card_sub_le {β : Type*} [DecidableEq β] {p : β → Prop} [DecidablePred p]
    {a b d : Multiset β} (hd : d ≤ a + b) (hp : ∀ x ∈ d, p x) :
    Multiset.card (d - a) ≤ Multiset.card (b.filter p) := by
  apply Multiset.card_le_card
  have hall : (d - a).filter p = d - a :=
    Multiset.filter_eq_self.2 fun x hx => hp x (Multiset.mem_of_le (Multiset.sub_le_self d a) hx)
  rw [← hall]
  exact Multiset.filter_le_filter p (tsub_le_iff_left.2 hd)

/-- What comes before a line that was started was started itself or waits. -/
theorem Ledger.before_le {vecExceptionList lines : List Text} {g : Shared} {ws : List Worker}
    (h : Ledger vecExceptionList lines g ws) (hlen : lines.length ≤ 2 ^ 31) {k : ℕ} {t : Text}
    (hk : ((k : Int), t) ∈ sessions g.trace) :
    dispatched (fun k => (k : Int)) vecExceptionList (lines.take k) ≤
      sessions g.trace + total (fun w => w.pc.waiting) ws := by
  obtain ⟨q, -, -, htaken⟩ := h.taken
  have hnum : dispatched (fun k => toInt k) vecExceptionList (lines.take q) =
      dispatched (fun k => k) vecExceptionList (lines.take q) := by
    refine dispatched_toInt_iff.2 fun j l hj _ => ?_
    have hlt := (List.getElem?_eq_some_iff.1 hj).1
    rw [List.length_take] at hlt
    omega
  rw [hnum] at htaken
  have hmem : ((k : Int), t) ∈ dispatched (fun k => (k : Int)) vecExceptionList (lines.take q) :=
    htaken ▸ Multiset.mem_add.2 (Or.inl hk)
  have hkq : k ≤ q := by
    have := lt_of_mem_dispatched_take hmem
    omega
  have htake : lines.take k = (lines.take q).take k := by
    rw [List.take_take, min_eq_left hkq]
  calc dispatched (fun k => (k : Int)) vecExceptionList (lines.take k)
      ≤ dispatched (fun k => (k : Int)) vecExceptionList
          ((lines.take q).take k ++ (lines.take q).drop k) := by
        rw [htake]
        exact dispatched_append ..
    _ = sessions g.trace + total (fun w => w.pc.waiting) ws := by
        rw [List.take_append_drop, htaken]

section Handed

variable {lines : List Text} {p : ℕ} {s : Sys}

/-- The numbers on a channel ascend. -/
theorem Handed.openings_ascend (hs : Handed lines p s) (hc : Channels s) (n : ℕ) :
    (openings n s.g.trace).Pairwise (· < ·) := by
  by_cases hn : n < s.workers.length
  · have hall := (hs.ascending n s.workers[n] (by simp [hn])).pairwise
    exact hall.sublist (List.sublist_append_left ..)
  · rw [openings, hc.unused n (by omega)]
    exact .nil

/-- The worker that started a line does not hold one before it, and every other worker
holds one at most. -/
theorem Handed.waiting_before_lt (hs : Handed lines p s) (hc : Channels s) {k : Int} {t : Text}
    (hk : (k, t) ∈ sessions s.g.trace) :
    Multiset.card ((total (fun w : Worker => w.pc.waiting) s.workers).filter fun x => x.1 < k) <
      s.workers.length := by
  obtain ⟨n, hopen⟩ := mem_openings_of_session hk
  have hn : n < s.workers.length := by
    by_contra hge
    rw [openings, hc.unused n (by omega)] at hopen
    cases hopen
  rw [filter_total, card_total]
  refine total_lt_length (fun w _ => ?_) (List.getElem_mem hn) ?_
  · obtain hnone | ⟨j, u, hwait, -⟩ := waiting_cases w.pc
    · simp [hnone]
    · rw [hwait]
      exact (Multiset.card_le_card (Multiset.filter_le _ _)).trans (by simp)
  · rw [(hs.ascending n s.workers[n] (by simp [hn])).not_waiting hopen, Multiset.card_zero]

end Handed

/-- **In the order of the script, but for what other workers hold.**  In every run over a
script of at most `2 ^ 31` lines the numbers under which a channel is opened ascend; and of
the lines before one that was started, fewer than there are workers to start are not started
themselves. -/
theorem in_order_of_run (env : Env) (disk : Text → Text) (acts : List Act) (s : Sys)
    (content : Text) (hscript : env.script = some (.ofContent content))
    (hlen : (linesOf content).length ≤ 2 ^ 31) (hrun : run env (.start disk) acts = some s) :
    (∀ n, (openings n s.g.trace).Pairwise (· < ·)) ∧
      ∀ (k : ℕ) t, ((k : Int), t) ∈ sessions s.g.trace →
        Multiset.card (dispatched (fun k => k) env.vecExceptionList ((linesOf content).take k) -
          sessions s.g.trace) < env.maxthreadcnt := by
  have hc := channels_hold hrun
  have hquiet : s.workers = [] → (∀ e ∈ s.g.trace, e.Quiet) →
      (∀ n, (openings n s.g.trace).Pairwise (· < ·)) ∧
      ∀ (k : ℕ) t, ((k : Int), t) ∈ sessions s.g.trace →
        Multiset.card (dispatched (fun k => k) env.vecExceptionList ((linesOf content).take k) -
          sessions s.g.trace) < env.maxthreadcnt := by
    intro hws h
    refine ⟨fun n => ?_, fun k t hk => ?_⟩
    · rw [openings, hc.unused n (by simp [hws])]
      exact .nil
    · rw [sessions, total_quiet h] at hk
      cases hk
  obtain hs | hs | ⟨pre, post, s₀, script, -, hpre, hscript', -, h₀, hpost⟩ := start_cases hrun
  · exact hquiet hs.workers hs.quiet
  · exact hquiet hs.workers hs.quiet
  · obtain rfl : script = .ofContent content := Option.some.inj (hscript'.symm.trans hscript)
    obtain ⟨p, hs⟩ := handed_of_run hpre h₀ hpost hlen
    refine ⟨hs.openings_ascend hc, fun k t hk => ?_⟩
    have hle := (ledger_of_run h₀ hpost).2.before_le hlen hk
    have hfew := card_sub_le hle fun x hx => lt_of_mem_dispatched_take hx
    exact (hfew.trans_lt (hs.waiting_before_lt hc hk)).trans_le (workers_length_le hrun)

/-- The first worker takes a line, and the second one overtakes it. -/
def overtaking : List Act :=
  List.replicate 9 ⟨.main, smooth 0⟩ ++ List.replicate 4 ⟨.worker 0, smooth 0⟩ ++
    List.replicate 8 ⟨.worker 1, smooth 0⟩

/-- The second line is started before the first, and only one line waits before it. -/
theorem in_order_overtaking :
    ∃ s, run (twoWorkers "a\nb".toList) (.start fun _ => []) overtaking = some s ∧
      sessions s.g.trace = {(1, ['b'])} ∧
      Multiset.card (dispatched (fun k => k) [] ((linesOf "a\nb".toList).take 1) -
        sessions s.g.trace) < 2 := by
  have hcheck : (run (twoWorkers "a\nb".toList) (.start fun _ => []) overtaking).any (fun s =>
      sessions s.g.trace = {(1, ['b'])}) = true := by decide +kernel
  obtain ⟨s, hrun, hsess⟩ := (Option.any_eq_true _ _).1 hcheck
  have hsess := of_decide_eq_true hsess
  have hlen : (linesOf "a\nb".toList).length ≤ 2 ^ 31 :=
    le_trans (show (linesOf "a\nb".toList).length ≤ 2 by decide) (by decide)
  have horder := (in_order_of_run (twoWorkers "a\nb".toList) _ overtaking s _ rfl hlen hrun).2
  exact ⟨s, hrun, hsess, horder 1 ['b'] (by rw [hsess]; exact Multiset.mem_singleton_self _)⟩

end Run
