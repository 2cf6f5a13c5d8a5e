import OssTest.Run.ExactlyOnce
import OssTest.Run.Logging
import OssTest.Run.Speech

/-!
# What a failing engine costs

A worker whose call that opens the channel fails gives up: it has lost its line, and
leaves the rest of the script to the others.

* `gaveUp_of_run` — the sessions lost are as many as the workers that gave up.
* `lost_lines_of_complete` — so a complete run loses at most one line for each worker, and
  reads the script to its end as soon as one worker is left.
-/

namespace Run

open Cpp UtilBox Exceptions EngineLog Engine Steps Pool

/-- Has the worker given up? -/
def WorkerPc.gaveUp : WorkerPc → ℕ
  | .returned false => 1
  | _ => 0

/-- The workers that have given up. -/
def Sys.gaveUp (s : Sys) : ℕ := s.workers.countP fun w => w.pc = .returned false

theorem total_gaveUp (ws : List Worker) :
    total (fun w => w.pc.gaveUp) ws = ws.countP fun w => w.pc = .returned false := by
  induction ws with
  | nil => rfl
  | cons w ws ih =>
    have hcons : total (fun w => w.pc.gaveUp) (w :: ws) =
        w.pc.gaveUp + total (fun w => w.pc.gaveUp) ws := rfl
    obtain ⟨n, pc⟩ := w
    rw [hcons, ih, List.countP_cons, add_comm]
    cases pc with
    | returned ret => cases ret <;> rfl
    | _ => rfl

section Step

variable {env : Env} {s s' : Sys} {a : Act}

/-- **A worker gives up when its session fails**, and then only. -/
theorem WorkerMove.gaveUp {i n : ℕ} {o : Outcome} {g g' : Shared} {pc pc' : WorkerPc}
    (h : WorkerMove env i n o g pc g' pc') (hflag : pc.FlagOk) :
    pc'.gaveUp + Multiset.card (failures g.trace) =
      pc.gaveUp + Multiset.card (failures g'.trace) := by
  cases h with
  | fetch => split <;> rfl
  | initFails hres hrc =>
    simp [WorkerPc.gaveUp, SynthCall.failure, hrc, add_comm]
  | init hres hrc => simp [WorkerPc.gaveUp, SynthCall.failure, not_lt.2 hrc]
  | synthFails | synthMore | synthLast =>
    rcases hflag with rfl | rfl <;> simp [WorkerPc.gaveUp, SynthCall.failure]
  | _ => simp [WorkerPc.gaveUp]

theorem Move.gaveUp (h : Move env s a s') (hflags : ∀ w ∈ s.workers, w.pc.FlagOk)
    (hs : total (fun w => w.pc.gaveUp) s.workers = Multiset.card (failures s.g.trace)) :
    total (fun w => w.pc.gaveUp) s'.workers = Multiset.card (failures s'.g.trace) := by
  cases h with
  | main _ h =>
    have hws : total (fun w => w.pc.gaveUp) s'.workers =
        total (fun w => w.pc.gaveUp) s.workers := by
      obtain hws | ⟨k, -, -, -, hws⟩ := h.workers
      · rw [hws]
      · rw [hws, total_append, total_singleton]
        rfl
    rw [hws, hs]
    obtain htrace | ⟨e, he, htrace⟩ := h.trace
    · rw [htrace]
    · rw [htrace, failures, failures, total_concat_quiet he]
  | cpu _ h =>
    rw [h.frame.2.2.2.1]
    exact hs
  | @worker i n pc g' pc' _ hi h =>
    have hmove := h.gaveUp (hflags _ (List.mem_of_getElem? hi))
    have hset := total_set (fun w : Worker => w.pc.gaveUp) hi ⟨n, pc'⟩
    dsimp only at hset ⊢
    omega

end Step

/-- **Every session lost is a worker that gave up.** -/
theorem gaveUp_of_run {vecExceptionList : List Text} {content : Text} {env : Env} {s₀ s : Sys}
    {acts : List Act} (h₀ : Launch vecExceptionList (.ofContent content) s₀)
    (hrun : run env s₀ acts = some s) : Multiset.card (failures s.g.trace) = s.gaveUp := by
  have hstep : ∀ as t a t', run env s₀ as = some t →
      total (fun w => w.pc.gaveUp) t.workers = Multiset.card (failures t.g.trace) →
      step env t a = some t' →
      total (fun w => w.pc.gaveUp) t'.workers = Multiset.card (failures t'.g.trace) :=
    fun as t a t' has ht hmove => (step_move hmove).gaveUp (ledger_of_run h₀ has).2.flags ht
  have hnil : total (fun w => w.pc.gaveUp) s₀.workers = Multiset.card (failures s₀.g.trace) := by
    rw [h₀.workers, failures, total_quiet h₀.quiet]
    rfl
  have hall := runFrom_history (P := fun _ t =>
    total (fun w => w.pc.gaveUp) t.workers = Multiset.card (failures t.g.trace)) hnil hstep hrun
  rw [← hall, total_gaveUp]
  rfl

/-- **What a failing engine costs.**  In every complete run over a readable script the lines
whose session failed are as many as the workers that gave up.  They and the lines given to
the engine, of which it hears what stands in front of the first NUL, are what the lines read
are worth, and these are all the lines of the script unless every worker gave up. -/
theorem lost_lines_of_complete (env : Env) (disk : Text → Text) (acts : List Act) (s : Sys)
    (content : Text) (hscript : env.script = some (.ofContent content))
    (hrun : run env (.start disk) acts = some s) (hcomplete : Complete env s) :
    Multiset.card (failures s.g.trace) = s.gaveUp ∧ s.gaveUp ≤ env.maxthreadcnt ∧
      speech s.g.trace = (voiced s.g.trace).map heard ∧ ∃ p ≤ (linesOf content).length,
        voiced s.g.trace + failures s.g.trace =
          dispatched (fun k => toInt k) env.vecExceptionList ((linesOf content).take p) ∧
        (s.gaveUp < env.maxthreadcnt → p = (linesOf content).length) := by
  obtain ⟨-, post, s₀, script, -, -, hscript', -, h₀, hpost⟩ := hcomplete.launched hrun
  obtain rfl : script = .ofContent content := Option.some.inj (hscript'.symm.trans hscript)
  have hl := (ledger_of_run h₀ hpost).2
  have hle : s.gaveUp ≤ env.maxthreadcnt := hcomplete.1 ▸ List.countP_le_length
  obtain ⟨p, hat, -, htaken⟩ := hl.taken
  rw [total_returned (fun _ => rfl) hcomplete.2, add_zero] at htaken
  have hp : p ≤ (linesOf content).length := by
    obtain ⟨-, -, ⟨-, -, hlt, -⟩ | ⟨-, hend⟩⟩ := hat
    · exact hlt.le
    · exact hend.le
  refine ⟨gaveUp_of_run h₀ hpost, hle, hl.heard, p, hp, ?_, fun hlt => ?_⟩
  · rw [hl.voiced_of_returned hcomplete.2, htaken]
  · -- one worker has seen the end of the file
    have hsome : ∃ w ∈ s.workers, w.pc = .returned true := by
      by_contra hno
      have hall : s.gaveUp = s.workers.length := by
        refine List.countP_eq_length.2 fun w hw => ?_
        obtain ⟨ret, hret⟩ := hcomplete.2 w hw
        cases ret with
        | true => exact absurd ⟨w, hw, hret⟩ hno
        | false => simp [hret]
      have hlen := hcomplete.1
      omega
    obtain ⟨w, hw, hret⟩ := hsome
    exact hat.eq_of_eof (hl.ended w hw hret)

/-- The first worker loses its line, and the second one speaks the other. -/
def oneFails : List Act :=
  List.replicate 9 ⟨.main, smooth 0⟩ ++ List.replicate 7 ⟨.worker 0, smooth 0⟩ ++
    [⟨.worker 0, smooth (-1)⟩] ++ List.replicate 9 ⟨.worker 1, smooth 0⟩ ++
    [smooth 1, smooth 0, smooth 0].map fun o => ⟨.worker 1, o⟩

/-- The script is read to its end all the same. -/
theorem lost_lines_one :
    ∃ s, run (twoWorkers "a\nb".toList) (.start fun _ => []) oneFails = some s ∧
      Multiset.card (failures s.g.trace) = 1 ∧
      voiced s.g.trace + failures s.g.trace =
        dispatched (fun k => toInt k) [] (linesOf "a\nb".toList) := by
  have hcheck : (run (twoWorkers "a\nb".toList) (.start fun _ => []) oneFails).any (fun s =>
      s.workers = [⟨0, .returned false⟩, ⟨1, .returned true⟩]) = true := by decide +kernel
  obtain ⟨s, hrun, hws⟩ := (Option.any_eq_true _ _).1 hcheck
  have hws := of_decide_eq_true hws
  have hcomplete : Complete (twoWorkers "a\nb".toList) s := by
    rw [Complete, hws]
    exact ⟨by decide, by simp⟩
  obtain ⟨hcard, -, -, p, -, hvoiced, hall⟩ :=
    lost_lines_of_complete (twoWorkers "a\nb".toList) _ oneFails s _ rfl hrun hcomplete
  have hone : s.gaveUp = 1 := by
    rw [Sys.gaveUp, hws]
    decide
  have hp := hall (by rw [hone]; decide)
  rw [hp, List.take_length] at hvoiced
  exact ⟨s, hrun, hcard.trans hone, hvoiced⟩

end Run
