import OssTest.Run.Basic

/-!
# Reading the log

Someone who looks for what happened to a line reads the log files line by line and
looks for records that begin with the line's name, `[threadNum,curIdx]`.  A log that
was written as a list of `Entry` is read back in this way: `recordsNamed_texts` finds
the records of this name in it, in their order, and nothing else.
-/

namespace Run

open Cpp EngineLog

/-! ## Names and lines -/

/-- The name under which line `curIdx` is logged. -/
def recordName (threadNum : ℕ) (curIdx : Int) : Text :=
  '[' :: (fmtD threadNum ++ ',' :: (fmtD curIdx ++ [']']))

/-- The line of the log that a text leaves under its name: the text when it has at
most `MAX_LOGSIZE - 50` bytes. -/
def recordLine (threadNum : ℕ) (curIdx : Int) (strSynthText : Text) : Text :=
  recordName threadNum curIdx ++
    (if strSynthText.length ≤ maxLogsize - 50 then ' ' :: strSynthText else []) ++ ['\r']

/-- The lines of a log that begin with this name. -/
def recordsNamed (threadNum : ℕ) (curIdx : Int) (text : Text) : List Text :=
  (text.splitOn '\n').filter fun line => (recordName threadNum curIdx).isPrefixOf line

@[simp] theorem recordsNamed_nil (n : ℕ) (k : Int) : recordsNamed n k [] = [] := by
  simp [recordsNamed, recordName]

/-- **The log is read line by line.** -/
theorem recordsNamed_append_newline (n : ℕ) (k : Int) (u v : Text) :
    recordsNamed n k (u ++ '\n' :: v) = recordsNamed n k u ++ recordsNamed n k v := by
  unfold recordsNamed
  rw [List.splitOn_append_cons_self, List.filter_append]

theorem recordsNamed_line {n : ℕ} {k : Int} {line : Text} (h : '\n' ∉ line) :
    recordsNamed n k (line ++ ['\n']) =
      if recordName n k <+: line then [line] else [] := by
  rw [recordsNamed_append_newline, recordsNamed_nil, List.append_nil, recordsNamed,
    List.splitOn_eq_singleton h]
  by_cases hpre : recordName n k <+: line
  · have hbool := List.isPrefixOf_iff_prefix.2 hpre
    simp [hpre, hbool]
  · have hbool := mt List.isPrefixOf_iff_prefix.1 hpre
    simp [hpre, hbool]

/-- Two texts that begin alike agree up to the first occurrence of a character. -/
theorem prefix_of_append_cons {c : Char} {u v x y : Text} (hu : c ∉ u) (hv : c ∉ v)
    (h : u ++ c :: x <+: v ++ c :: y) : u = v ∧ x <+: y := by
  induction u generalizing v with
  | nil =>
    cases v with
    | nil => exact ⟨rfl, (List.cons_prefix_cons.1 h).2⟩
    | cons d ds => exact absurd (List.cons_prefix_cons.1 h).1 fun hd => hv (hd ▸ List.mem_cons_self)
  | cons b bs ih =>
    cases v with
    | nil => exact absurd (List.cons_prefix_cons.1 h).1 fun hb => hu (hb ▸ List.mem_cons_self)
    | cons d ds =>
      obtain ⟨rfl, htail⟩ := List.cons_prefix_cons.1 h
      obtain ⟨rfl, hrest⟩ := ih (fun hm => hu (List.mem_cons_of_mem _ hm))
        (fun hm => hv (List.mem_cons_of_mem _ hm)) htail
      exact ⟨rfl, hrest⟩

/-- **A line carries one name.** -/
theorem recordName_prefix_iff {n n' : ℕ} {k k' : Int} {rest : Text} :
    recordName n k <+: recordName n' k' ++ rest ↔ n' = n ∧ k' = k := by
  have hcomma : ∀ j : Int, ',' ∉ fmtD j := fun j => not_mem_fmtD (by decide) (by decide)
  have hclose : ∀ j : Int, ']' ∉ fmtD j := fun j => not_mem_fmtD (by decide) (by decide)
  constructor
  · intro h
    simp only [recordName, List.cons_append, List.append_assoc] at h
    obtain ⟨hn, h⟩ := prefix_of_append_cons (hcomma _) (hcomma _) (List.cons_prefix_cons.1 h).2
    obtain ⟨hk, -⟩ := prefix_of_append_cons (hclose _) (hclose _) h
    exact ⟨(Int.ofNat_inj.1 (fmtD_injective hn)).symm, (fmtD_injective hk).symm⟩
  · rintro ⟨rfl, rfl⟩
    exact List.prefix_append ..

/-! ## The messages -/

/-- A text that can be logged as a record: it has no line break, and no NUL where it
is printed. -/
structure Record where
  threadNum : ℕ
  curIdx : Int
  strSynthText : Text
  oneLine : '\n' ∉ strSynthText

/-- The line a record leaves in the log. -/
def Record.line (r : Record) : Text :=
  recordName r.threadNum r.curIdx ++
    (if r.strSynthText.length ≤ maxLogsize - 50 then ' ' :: cstr r.strSynthText else []) ++ ['\r']

theorem recordMsg_eq (r : Record) :
    recordMsg r.threadNum r.curIdx r.strSynthText = r.line ++ ['\n'] := by
  unfold recordMsg Record.line recordName
  by_cases hlong : maxLogsize - 50 < r.strSynthText.length
  · rw [if_pos hlong, if_neg (by omega)]
    simp
  · rw [if_neg hlong, if_pos (by omega)]
    simp

theorem newline_not_mem_fmtD (j : Int) : '\n' ∉ fmtD j := not_mem_fmtD (by decide) (by decide)

theorem newline_not_mem_line (r : Record) : '\n' ∉ r.line := by
  have htext : '\n' ∉ cstr r.strSynthText := fun h =>
    r.oneLine ((List.takeWhile_prefix _).subset h)
  unfold Record.line recordName
  split <;> simp [newline_not_mem_fmtD, htext]

/-- Where the text has no NUL, it is logged as it is. -/
theorem Record.line_eq {r : Record}
    (h : r.strSynthText.length ≤ maxLogsize - 50 → '\x00' ∉ r.strSynthText) :
    r.line = recordLine r.threadNum r.curIdx r.strSynthText := by
  unfold Record.line recordLine
  split
  · rename_i hshort
    rw [cstr_eq_self_iff.2 (h hshort)]
  · rfl

theorem recordsNamed_recordMsg (n : ℕ) (k : Int) (r : Record) :
    recordsNamed n k (recordMsg r.threadNum r.curIdx r.strSynthText) =
      if r.threadNum = n ∧ r.curIdx = k then [r.line] else [] := by
  rw [recordMsg_eq, recordsNamed_line (newline_not_mem_line r)]
  unfold Record.line
  simp only [List.append_assoc, recordName_prefix_iff]

/-- Could the line be a record?  What follows the bracket is a number. -/
def looksNamed : Text → Bool
  | '[' :: c :: _ => c == '-' || c.isDigit
  | _ => false

theorem looksNamed_of_prefix {n : ℕ} {k : Int} {line : Text} (h : recordName n k <+: line) :
    looksNamed line = true := by
  obtain ⟨rest, rfl⟩ := h
  obtain ⟨c, cs, hc⟩ := List.exists_cons_of_ne_nil (fmtD_ne_nil (n : Int))
  have hmem : c ∈ fmtD n := hc ▸ List.mem_cons_self
  rw [recordName, hc]
  simpa [looksNamed] using mem_fmtD hmem

/-- A message that is no record: lines of which none could be one. -/
structure Plain (msg : Text) : Prop where
  whole : msg = [] ∨ msg.getLast? = some '\n'
  unnamed : ∀ line ∈ msg.splitOn '\n', looksNamed line = false

theorem Plain.recordsNamed {msg : Text} (h : Plain msg) (n : ℕ) (k : Int) :
    recordsNamed n k msg = [] := by
  refine List.filter_eq_nil_iff.2 ?_
  intro line hline hpre
  have hnamed := looksNamed_of_prefix (List.isPrefixOf_iff_prefix.1 hpre)
  rw [h.unnamed line hline] at hnamed
  cases hnamed

/-- One line that begins with another character. -/
theorem plain_line {line : Text} (hhead : line.head? ≠ some '[') (hline : '\n' ∉ line) :
    Plain (line ++ ['\n']) := by
  refine ⟨Or.inr List.getLast?_concat, ?_⟩
  rw [List.splitOn_append_cons_self, List.splitOn_eq_singleton hline]
  cases line with
  | nil => simp [looksNamed]
  | cons c cs =>
    have hc : c ≠ '[' := fun h => hhead (by rw [h]; rfl)
    simp [looksNamed, hc]

theorem plain_nil : Plain [] := ⟨Or.inl rfl, by decide⟩

theorem plain_exceptionsMsg : Plain exceptionsMsg := ⟨Or.inr (by decide), by decide⟩

theorem plain_resultErrorMsg : Plain resultErrorMsg := ⟨Or.inr (by decide), by decide⟩

theorem plain_finishedMsg : Plain finishedMsg := ⟨Or.inr (by decide), by decide⟩

section Numbers

variable (n : ℕ) (k : Int)

theorem plain_errorMsg : Plain (errorMsg n k) := by
  apply plain_line (by simp)
  simp [newline_not_mem_fmtD]

theorem plain_memResMsg : Plain (memResMsg k) := by
  have hend : "\r\n".toList = ['\r'] ++ ['\n'] := by decide
  have hline : '\n' ∉ "memRes = ".toList ++ fmtD k ++ ['\r'] := by simp [newline_not_mem_fmtD]
  have hplain := plain_line (by simp) hline
  rwa [List.append_assoc, ← hend] at hplain

theorem plain_elapsedMsg : Plain (elapsedMsg n) := by
  apply plain_line (by simp)
  simp [fmtF2, newline_not_mem_fmtD]

theorem plain_threadsMsg : Plain (threadsMsg k) := by
  have hend : ")\n".toList = [')'] ++ ['\n'] := by decide
  have hline : '\n' ∉ "Threads Num\t(".toList ++ fmtD k ++ [')'] := by
    simp [newline_not_mem_fmtD]
  have hplain := plain_line (by simp) hline
  rwa [List.append_assoc, ← hend] at hplain

end Numbers

/-! ## The log -/

/-- What one message adds to the log. -/
inductive Entry where
  | record (r : Record)
  | plain (msg : Text) (h : Plain msg)

/-- The message. -/
def Entry.text : Entry → Text
  | .record r => recordMsg r.threadNum r.curIdx r.strSynthText
  | .plain msg _ => msg

/-- The record the message is, if it is one. -/
def Entry.record? : Entry → Option Record
  | .record r => some r
  | .plain _ _ => none

/-- The records of a log. -/
def recordsIn (entries : List Entry) : List Record := entries.filterMap Entry.record?

/-- The log as it stands in the files. -/
def texts (entries : List Entry) : Text := (entries.map Entry.text).flatten

theorem Entry.whole (e : Entry) : e.text = [] ∨ e.text.getLast? = some '\n' := by
  cases e with
  | record r => exact Or.inr (by rw [Entry.text, recordMsg_eq, List.getLast?_concat])
  | plain msg h => exact h.whole

/-- A message ends its last line: what follows begins a new one. -/
theorem recordsNamed_append {msg : Text} (h : msg = [] ∨ msg.getLast? = some '\n') (n : ℕ) (k : Int)
    (v : Text) : recordsNamed n k (msg ++ v) = recordsNamed n k msg ++ recordsNamed n k v := by
  rcases h with rfl | hlast
  · rw [recordsNamed_nil, List.nil_append, List.nil_append]
  · obtain ⟨u, rfl⟩ := List.getLast?_eq_some_iff.1 hlast
    rw [List.append_assoc, List.singleton_append, recordsNamed_append_newline,
      recordsNamed_append_newline, recordsNamed_nil, List.append_nil]

/-- **The records of a name in a log**, in their order, and nothing else. -/
theorem recordsNamed_texts (n : ℕ) (k : Int) (entries : List Entry) :
    recordsNamed n k (texts entries) =
      ((recordsIn entries).filter fun r => r.threadNum = n ∧ r.curIdx = k).map Record.line := by
  induction entries with
  | nil => exact recordsNamed_nil n k
  | cons e es ih =>
    have htexts : texts (e :: es) = e.text ++ texts es := rfl
    rw [htexts, recordsNamed_append e.whole, ih]
    cases e with
    | record r =>
      have hrecords : recordsIn (.record r :: es) = r :: recordsIn es := rfl
      rw [Entry.text, recordsNamed_recordMsg, hrecords]
      by_cases hname : r.threadNum = n ∧ r.curIdx = k
      · simp [hname]
      · simp [hname]
    | plain msg h =>
      rw [Entry.text, h.recordsNamed]
      rfl

/-- Where a function tells the members of a list apart, it picks out one. -/
theorem filter_eq_singleton {α β : Type*} {f : α → β} {p : α → Bool} {l : List α} {x : α}
    (hnodup : (l.map f).Nodup) (hx : x ∈ l) (hp : p x = true)
    (hf : ∀ y ∈ l, p y = true → f y = f x) : l.filter p = [x] := by
  induction l with
  | nil => cases hx
  | cons y ys ih =>
    obtain ⟨hy, hys⟩ := List.nodup_cons.1 hnodup
    rcases List.mem_cons.1 hx with rfl | hx
    · rw [List.filter_cons_of_pos hp, List.filter_eq_nil_iff.2]
      intro z hz hpz
      exact hy (hf z (List.mem_cons_of_mem _ hz) hpz ▸ List.mem_map_of_mem hz)
    · have hpy : ¬ p y = true := fun hpy =>
        hy (hf y List.mem_cons_self hpy ▸ List.mem_map_of_mem hx)
      rw [List.filter_cons_of_neg hpy]
      exact ih hys hx fun z hz => hf z (List.mem_cons_of_mem _ hz)

/-- **A record found once**, when the log has at most one of every number. -/
theorem recordsNamed_of_mem {entries : List Entry}
    (hnodup : ((recordsIn entries).map Record.curIdx).Nodup) {r : Record}
    (hr : r ∈ recordsIn entries) :
    recordsNamed r.threadNum r.curIdx (texts entries) = [r.line] := by
  rw [recordsNamed_texts, filter_eq_singleton hnodup hr (by simp), List.map_singleton]
  intro r' _ hname
  exact (of_decide_eq_true hname).2

theorem recordsNamed_of_not_mem {entries : List Entry} {n : ℕ} {k : Int}
    (h : ∀ r ∈ recordsIn entries, ¬ (r.threadNum = n ∧ r.curIdx = k)) :
    recordsNamed n k (texts entries) = [] := by
  rw [recordsNamed_texts, List.map_eq_nil_iff, List.filter_eq_nil_iff]
  exact fun r hr hname => h r hr (of_decide_eq_true hname)

end Run
