import Mathlib.Data.List.DropRight
import OssTest.Cpp.Stream

/-!
# The text helpers of the tool

`utils/utilbox.cpp`: `replaceText`, `trim` and `readFileLine`, as the code
computes them.  A loop takes a number of rounds it may use; `none` means that it
is still looping after them.

What the callers need is proved once, right here: deleting carriage returns is a
filter (`replaceText_cr`), `trim` takes the whitespace off both ends of a text that an
`int` can count (`trim_spec`), what it leaves of any text is blank exactly where it cuts to
a blank text (`blank_trim_iff`, and `blankCut_iff_of_short` for such a short one), and
`readFileLine` yields one entry per piece of the content (`readFileLine_ofContent`).
-/

namespace UtilBox

open Cpp Pieces

/-! ## `replaceText` -/

/-- The loop of `replaceText`; `iPos` is the position last found. -/
def replaceLoop (from' to' : Text) : ℕ → Text → Option ℕ → Option Text
  | _, text, none => some text
  | 0, _, some _ => none
  | n + 1, text, some iPos =>
      let text' := replaceAt text iPos from'.length to'
      replaceLoop from' to' n text' (find text' from' (iPos + to'.length))

/-- `replaceText(text, from, to)`: the text afterwards. -/
def replaceText (text from' to' : Text) : Option Text :=
  replaceLoop from' to' (text.length + 1) text (find text from' 0)

/-- One round: the occurrence found is replaced where it stands. -/
theorem replaceAt_append (done u from' v to' : Text) :
    replaceAt (done ++ (u ++ from' ++ v)) (u.length + done.length) from'.length to' =
      (done ++ u ++ to') ++ v := by
  have hpos : u.length + done.length = (done ++ u).length := by
    rw [List.length_append, Nat.add_comm]
  have hsplit : done ++ (u ++ from' ++ v) = (done ++ u) ++ (from' ++ v) := by
    simp only [List.append_assoc]
  rw [replaceAt, hpos, hsplit, List.take_left, ← List.drop_drop, List.drop_left, List.drop_left]

/-- The loop of `replaceText`, started behind a part that is done: what was put in is
not searched again. -/
theorem replaceLoop_pieces {from' : Text} (hfrom : from' ≠ []) (to' rest done : Text) (n : ℕ)
    (hn : occurrences from' rest ≤ n) :
    replaceLoop from' to' n (done ++ rest) (find (done ++ rest) from' done.length) =
      some (done ++ to'.intercalate (pieces from' rest)) := by
  rw [find_append]
  induction rest using pieces_induction hfrom generalizing done n with
  | last rest hno =>
    rw [cut_eq_none_iff.2 hno, Option.map_none, replaceLoop, pieces_of_no_occurrence hno,
      List.intercalate_singleton]
  | cons rest u v hcut ih =>
    rw [occurrences_of_cut hfrom hcut] at hn
    obtain ⟨n, rfl⟩ : ∃ m, n = m + 1 := ⟨n - 1, by omega⟩
    have hround : find (done ++ u ++ to' ++ v) from' (u.length + done.length + to'.length) =
        (cut from' v).map fun p => p.1.length + (done ++ u ++ to').length := by
      rw [← find_append]
      congr 1
      simp only [List.length_append]
      omega
    rw [hcut, Option.map_some, replaceLoop, eq_of_cut hcut, replaceAt_append, hround,
      ih (done ++ u ++ to') n (by omega), ← eq_of_cut hcut, pieces_of_cut hfrom hcut,
      List.intercalate_cons_of_ne_nil (pieces_ne_nil _ _)]
    simp only [List.append_assoc]

/-- **`replaceText` puts `to` between the pieces**, whatever `to` contains. -/
theorem replaceText_eq {from' : Text} (hfrom : from' ≠ []) (text to' : Text) :
    replaceText text from' to' = some (to'.intercalate (pieces from' text)) := by
  have hn : occurrences from' text ≤ text.length + 1 :=
    (occurrences_le_length hfrom text).trans (Nat.le_succ _)
  exact replaceLoop_pieces hfrom to' text [] _ hn

/-- The text without its carriage returns. -/
def dropCr (text : Text) : Text := text.filter (· != '\r')

/-- The stretches of a text without its `'\r'`s are the stretches of the text, without
theirs. -/
theorem infix_dropCr_iff {e text : Text} :
    e <:+: dropCr text ↔ ∃ u, u <:+: text ∧ dropCr u = e := by
  constructor
  · rintro ⟨pre, post, happ⟩
    obtain ⟨x, v, htext, hx, -⟩ := List.filter_eq_append_iff.1 happ.symm
    obtain ⟨y, u, rfl, -, hu⟩ := List.filter_eq_append_iff.1 hx
    exact ⟨u, ⟨y, v, htext.symm⟩, hu⟩
  · rintro ⟨u, hu, rfl⟩
    exact hu.filter _

/-- `'\r'`s are deleted in front of the first NUL and behind it. -/
theorem cstr_dropCr (text : Text) : cstr (dropCr text) = dropCr (cstr text) := by
  induction text with
  | nil => rfl
  | cons c text ih =>
    by_cases hcr : c = '\r'
    · subst hcr
      exact ih
    · by_cases hnul : c = '\x00'
      · subst hnul
        rfl
      · have hc : (c != '\r') = true := by simpa using hcr
        have hn : (c != '\x00') = true := by simpa using hnul
        have hcut : ∀ u : Text, dropCr (c :: u) = c :: dropCr u := fun u =>
          List.filter_cons_of_pos hc
        have hkept : ∀ u : Text, cstr (c :: u) = c :: cstr u := fun u =>
          List.takeWhile_cons_of_pos hn
        rw [hcut, hkept, hkept, hcut, ih]

theorem mem_dropCr {c : Char} {text : Text} : c ∈ dropCr text ↔ c ∈ text ∧ c ≠ '\r' := by
  simp [dropCr]

theorem dropCr_of_not_mem {u : Text} (h : '\r' ∉ u) : dropCr u = u := by
  rw [dropCr, List.filter_eq_self]
  intro c hc
  have hne : c ≠ '\r' := fun heq => h (heq ▸ hc)
  simpa using hne

/-- **`replaceText(text, "\r", "")` deletes the carriage returns.** -/
@[simp] theorem replaceText_cr (text : Text) :
    replaceText text ['\r'] [] = some (dropCr text) := by
  rw [replaceText_eq (List.cons_ne_nil _ _), intercalate_nil_left, flatten_pieces_singleton, dropCr]

/-! ## `trim` -/

/-- The characters `trim` takes for whitespace: `" \t\f\v\n\r"`. -/
def whitespaces : Text := [' ', '\t', '\x0c', '\x0b', '\n', '\r']

/-- Lines 204 and 205 of `trim`: cut behind the last character that counts. -/
def trimEnd (str : Text) : Except StdException Text :=
  let found := toInt (posOf (findLastNotOf str whitespaces))
  if toSize found ≠ npos then erase str (toSize (toInt (found + 1))) npos else .ok str

/-- Lines 206 and 207 of `trim`: cut before the first character that counts. -/
def trimStart (str : Text) : Except StdException Text :=
  let found := toInt (posOf (findFirstNotOf str whitespaces))
  if toSize found ≠ npos then erase str 0 (toSize found) else .ok str

/-- `trim(str)`. -/
def trim (str : Text) : Except StdException Text := do
  let str ← trimEnd str
  trimStart str

/-- A text in which `trim` finds nothing but whitespace. -/
def Blank (text : Text) : Prop := ∀ c ∈ text, c ∈ whitespaces

instance (text : Text) : Decidable (Blank text) := List.decidableBAll (· ∈ whitespaces) text

theorem blank_nil : Blank [] := by simp [Blank]

theorem toInt_npos : toInt npos = -1 := by
  rw [show toInt npos = toInt (-1) from toInt_eq_toInt_iff.2 (by unfold npos; omega)]
  exact toInt_of_bounds (by omega) (by omega)

theorem trimEnd_of_blank {text : Text} (h : Blank text) : trimEnd text = .ok text := by
  have hlast : findLastNotOf text whitespaces = none := findLastNotOf_eq_none_iff.2 h
  unfold trimEnd
  simp only [hlast, posOf, toInt_npos, toSize_neg_one, ne_eq, not_true_eq_false, if_false]

theorem trimStart_of_blank {text : Text} (h : Blank text) : trimStart text = .ok text := by
  have hfirst : findFirstNotOf text whitespaces = none := findFirstNotOf_eq_none_iff.2 h
  unfold trimStart
  simp only [hfirst, posOf, toInt_npos, toSize_neg_one, ne_eq, not_true_eq_false, if_false]

theorem trim_of_trimEnd {text str : Text} (h : trimEnd text = .ok str) :
    trim text = trimStart str := by
  rw [trim, h, show (Except.ok str : Except StdException Text) = pure str from rfl, pure_bind]

/-- `trim` adds nothing. -/
theorem mem_of_mem_trim {text t : Text} {c : Char} (h : trim text = .ok t) (hc : c ∈ t) :
    c ∈ text := by
  cases hend : trimEnd text with
  | error e =>
    rw [trim, hend] at h
    cases h
  | ok str =>
    rw [trim_of_trimEnd hend, trimStart] at h
    rw [trimEnd] at hend
    have hstr : c ∈ str := by
      split at h
      · exact mem_of_mem_erase h hc
      · cases h
        exact hc
    split at hend
    · exact mem_of_mem_erase hend hstr
    · cases hend
      exact hstr

/-- **A blank text is returned as it is**: the searches find nothing, and the
narrowed `npos` still compares equal to `npos`. -/
theorem trim_of_blank {text : Text} (h : Blank text) : trim text = .ok text := by
  rw [trim_of_trimEnd (trimEnd_of_blank h), trimStart_of_blank h]

/-- Where `trim` cuts off the end of a text in which a character counts: behind
the last one, its position taken modulo `2 ^ 32`; from `2 ^ 31 - 1` on the
position turns negative. -/
theorem trimEnd_of_last {text : Text} {i : ℕ} (hlen : text.length < 2 ^ 63)
    (hi : findLastNotOf text whitespaces = some i) :
    trimEnd text =
      if i % 2 ^ 32 = 2 ^ 32 - 1 then .ok text
      else if i % 2 ^ 32 < 2 ^ 31 - 1 then .ok (text.take (i % 2 ^ 32 + 1))
      else .error .outOfRange := by
  obtain ⟨hlt, -⟩ := findLastNotOf_spec hi
  have hfound := toSize_toInt_natCast i
  have hnext : toSize (toInt (toInt i + 1)) = if (i + 1) % 2 ^ 32 < 2 ^ 31 then
      (i + 1) % 2 ^ 32 else 2 ^ 64 - 2 ^ 32 + (i + 1) % 2 ^ 32 := by
    rw [toInt_toInt_add_one]
    exact_mod_cast toSize_toInt_natCast (i + 1)
  have hle : i % 2 ^ 32 ≤ i := Nat.mod_le _ _
  unfold trimEnd
  simp only [hi, posOf]
  by_cases hneg : i % 2 ^ 32 = 2 ^ 32 - 1
  · -- the position narrows to `-1`, which compares equal to `npos`
    rw [if_pos hneg, if_neg]
    rw [not_not, hfound, npos]
    split <;> omega
  · rw [if_neg hneg, if_pos (by rw [hfound, npos]; split <;> omega)]
    by_cases hshort : i % 2 ^ 32 < 2 ^ 31 - 1
    · -- the position fits: everything behind it goes
      rw [if_pos hshort, show toSize (toInt (toInt i + 1)) = i % 2 ^ 32 + 1 by
        rw [hnext]; split <;> omega, erase, if_neg (by omega),
        List.drop_of_length_le (by unfold npos; omega), List.append_nil]
    · -- the position turned negative: it lies far beyond the end
      have hbig : text.length < toSize (toInt (toInt i + 1)) := by
        rw [hnext]
        split <;> omega
      rw [if_neg hshort, erase, if_pos hbig]

/-- What the front cut leaves of a text in which a character counts: the part
from the first one on, its position taken modulo `2 ^ 32`; nothing where that
position turned negative. -/
theorem trimStart_of_first {text : Text} {i : ℕ} (hlen : text.length < 2 ^ 63)
    (hi : findFirstNotOf text whitespaces = some i) :
    trimStart text =
      if i % 2 ^ 32 = 2 ^ 32 - 1 then .ok text
      else if i % 2 ^ 32 < 2 ^ 31 then .ok (text.drop (i % 2 ^ 32))
      else .ok [] := by
  have hfound := toSize_toInt_natCast i
  unfold trimStart
  simp only [hi, posOf, erase_zero]
  by_cases hneg : i % 2 ^ 32 = 2 ^ 32 - 1
  · rw [if_pos hneg, if_neg]
    rw [not_not, hfound, npos]
    split <;> omega
  · rw [if_neg hneg, if_pos (by rw [hfound, npos]; split <;> omega), hfound]
    split
    · rfl
    · rw [List.drop_of_length_le (by omega)]

/-- The end cut leaves a beginning of the text, -/
theorem prefix_of_trimEnd {text str : Text} (hlen : text.length < 2 ^ 63)
    (h : trimEnd text = .ok str) : str <+: text := by
  have hle : text.length ≤ npos := by
    unfold npos
    omega
  rw [trimEnd] at h
  split at h
  · exact prefix_of_erase hle h
  · cases h
    exact List.prefix_refl _

/-- and the front cut takes nothing but whitespace from a text of which it leaves
something. -/
theorem blank_front_of_trimStart {text t : Text} (hlen : text.length < 2 ^ 63)
    (h : trimStart text = .ok t) (ht : t ≠ []) : ∃ p, text = p ++ t ∧ Blank p := by
  cases hfirst : findFirstNotOf text whitespaces with
  | none =>
    rw [trimStart_of_blank (findFirstNotOf_eq_none_iff.1 hfirst)] at h
    cases h
    exact ⟨[], rfl, blank_nil⟩
  | some i =>
    rw [trimStart_of_first hlen hfirst] at h
    split_ifs at h
    · cases h
      exact ⟨[], rfl, blank_nil⟩
    · cases h
      exact ⟨text.take (i % 2 ^ 32), (List.take_append_drop _ _).symm,
        mem_set_of_findFirstNotOf hfirst (Nat.mod_le _ _)⟩
    · cases h
      exact absurd rfl ht

/-- What `trim` leaves of a text has nothing but whitespace in front of it. -/
theorem blank_front_of_trim {text t : Text} (hlen : text.length < 2 ^ 63) (h : trim text = .ok t)
    (ht : t ≠ []) : ∃ p q, text = p ++ t ++ q ∧ Blank p := by
  cases hend : trimEnd text with
  | error e =>
    rw [trim, hend] at h
    cases h
  | ok str =>
    obtain ⟨q, rfl⟩ := prefix_of_trimEnd hlen hend
    rw [List.length_append] at hlen
    rw [trim_of_trimEnd hend] at h
    obtain ⟨p, rfl, hp⟩ := blank_front_of_trimStart (by omega) h ht
    exact ⟨p, q, rfl, hp⟩

/-- `trim` only cuts off: what it returns is a stretch of the text. -/
theorem infix_of_trim {text t : Text} (hlen : text.length < 2 ^ 63) (h : trim text = .ok t) :
    t <:+: text := by
  by_cases ht : t = []
  · rw [ht]
    exact List.nil_infix
  · obtain ⟨p, q, rfl, -⟩ := blank_front_of_trim hlen h ht
    exact ⟨p, q, rfl⟩

/-- A text that an `int` can count is trimmed without an exception. -/
theorem trim_ok_of_short {text : Text} (hlen : text.length < 2 ^ 31) :
    ∃ t, trim text = .ok t := by
  cases hlast : findLastNotOf text whitespaces with
  | none => exact ⟨text, trim_of_blank (findLastNotOf_eq_none_iff.1 hlast)⟩
  | some i =>
    obtain ⟨hi, -⟩ := findLastNotOf_spec hlast
    have hend := trimEnd_of_last (by omega) hlast
    rw [Nat.mod_eq_of_lt (by omega), if_neg (by omega), if_pos (by omega)] at hend
    rw [trim_of_trimEnd hend, trimStart]
    split
    · exact ⟨_, erase_zero _ _⟩
    · exact ⟨_, rfl⟩

/-- **`trim` takes the whitespace off both ends** of a text that an `int` can count. -/
theorem trim_of_short {pre mid post : Text} (hpre : Blank pre) (hpost : Blank post)
    (hne : mid ≠ []) (hhead : mid.head hne ∉ whitespaces)
    (hlast : mid.getLast hne ∉ whitespaces) (hlen : (pre ++ mid ++ post).length < 2 ^ 31) :
    trim (pre ++ mid ++ post) = .ok mid := by
  have hpos : 0 < mid.length := List.length_pos_iff.2 hne
  simp only [List.length_append] at hlen
  have hend := trimEnd_of_last (by simp only [List.length_append]; omega)
    (findLastNotOf_append pre hpost hne hlast)
  rw [Nat.mod_eq_of_lt (by omega), if_neg (by omega), if_pos (by omega),
    show pre.length + mid.length - 1 + 1 = (pre ++ mid).length by
      rw [List.length_append]; omega, List.take_left] at hend
  have hstart := trimStart_of_first (by simp only [List.length_append]; omega)
    (findFirstNotOf_append hpre hne hhead)
  rw [Nat.mod_eq_of_lt (by omega), if_neg (by omega), if_pos (by omega), List.drop_left] at hstart
  rw [trim_of_trimEnd hend, hstart]

theorem not_blank_iff {text : Text} : ¬ Blank text ↔ ∃ c ∈ text, c ∉ whitespaces := by
  simp [Blank]

/-- A text that is not blank, between its whitespace. -/
theorem exists_trimmed {text : Text} (h : ¬ Blank text) :
    ∃ pre mid post, text = pre ++ mid ++ post ∧ Blank pre ∧ Blank post ∧
      ∃ hne : mid ≠ [], mid.head hne ∉ whitespaces ∧ mid.getLast hne ∉ whitespaces := by
  let white : Char → Bool := fun c => whitespaces.contains c
  let body := text.dropWhile white
  have hbody : body ≠ [] := by
    rw [Ne, List.dropWhile_eq_nil_iff]
    exact fun hall => h fun c hc => by simpa [white] using hall c hc
  have hhead : white (body.head hbody) = false := List.head_dropWhile_not white hbody
  have hmid : body.rdropWhile white ≠ [] := by
    rw [Ne, List.rdropWhile_eq_nil_iff]
    intro hall
    rw [hall _ (List.head_mem hbody)] at hhead
    cases hhead
  refine ⟨text.takeWhile white, body.rdropWhile white, body.rtakeWhile white, ?_, ?_, ?_, hmid,
    ?_, ?_⟩
  · rw [List.append_assoc, List.rdropWhile_append_rtakeWhile, List.takeWhile_append_dropWhile]
  · exact fun c hc => by simpa [white] using List.mem_takeWhile_imp hc
  · exact fun c hc => by simpa [white] using List.mem_rtakeWhile_imp hc
  · rw [(List.rdropWhile_prefix white body).head hmid]
    simpa [white] using hhead
  · simpa [white] using List.rdropWhile_last_not white body hmid

/-- **What `trim` does** with a text that an `int` can count.  It throws nothing, so no
`erase` gets a position behind the end; it takes all whitespace off both ends of a text in
which a character counts; and once is enough. -/
theorem trim_spec (str : Text) (hlen : str.length < 2 ^ 31) :
    ∃ t, trim str = .ok t ∧ trim t = .ok t ∧
      ((∃ c ∈ str, c ∉ whitespaces) → ∃ p q, str = p ++ t ++ q ∧ Blank p ∧ Blank q ∧
        ∃ hne : t ≠ [], t.head hne ∉ whitespaces ∧ t.getLast hne ∉ whitespaces) := by
  by_cases hblank : Blank str
  · refine ⟨str, trim_of_blank hblank, trim_of_blank hblank, ?_⟩
    exact fun hcounts => absurd hblank (not_blank_iff.2 hcounts)
  · obtain ⟨p, t, q, rfl, hp, hq, hne, hhead, hlast⟩ := exists_trimmed hblank
    refine ⟨t, trim_of_short hp hq hne hhead hlast hlen, ?_, ?_⟩
    · have hlen' : ([] ++ t ++ []).length < 2 ^ 31 := by
        simp only [List.length_append, List.length_nil] at hlen ⊢
        omega
      simpa using trim_of_short blank_nil blank_nil hne hhead hlast hlen'
    · exact fun _ => ⟨p, q, rfl, hp, hq, hne, hhead, hlast⟩

/-- A key with a tabulator in it, between blanks. -/
theorem trim_spec_key :
    ∃ t, trim " a\tb\r\n".toList = .ok t ∧ trim t = .ok t ∧
      ((∃ c ∈ " a\tb\r\n".toList, c ∉ whitespaces) →
        ∃ p q, " a\tb\r\n".toList = p ++ t ++ q ∧ Blank p ∧ Blank q ∧
          ∃ hne : t ≠ [], t.head hne ∉ whitespaces ∧ t.getLast hne ∉ whitespaces) :=
  trim_spec " a\tb\r\n".toList (by decide)

/-! ### What `trim` can hand on -/

/-- The lines of which `trim` leaves something, but nothing that counts: those
that are blank, and those whose last character that counts stands so far back
that its position, taken modulo `2 ^ 32`, falls into a blank beginning. -/
def BlankCut (text : Text) : Prop :=
  text ≠ [] ∧
    (Blank text ∨ ∃ i, findLastNotOf text whitespaces = some i ∧ i % 2 ^ 32 < 2 ^ 31 - 1 ∧
      Blank (text.take (i % 2 ^ 32 + 1)))

/-- The front cut keeps a text from being blank. -/
theorem not_blank_of_trimStart {text t : Text} (hlen : text.length < 2 ^ 63)
    (h : trimStart text = .ok t) (hb : ¬ Blank text) (ht : t ≠ []) : ¬ Blank t := by
  obtain ⟨i, hi⟩ : ∃ i, findFirstNotOf text whitespaces = some i :=
    Option.ne_none_iff_exists'.1 fun hnone => hb (findFirstNotOf_eq_none_iff.1 hnone)
  obtain ⟨hlt, hout⟩ := findFirstNotOf_spec hi
  rw [trimStart_of_first hlen hi] at h
  split_ifs at h with hneg hpos
  · cases h
    exact hb
  · cases h
    intro hblank
    refine hout (hblank _ ?_)
    have hle : i % 2 ^ 32 ≤ i := Nat.mod_le _ _
    rw [List.mem_iff_getElem]
    refine ⟨i - i % 2 ^ 32, by rw [List.length_drop]; omega, ?_⟩
    rw [List.getElem_drop]
    congr 1
    omega
  · cases h
    exact absurd rfl ht

/-- The front cut of a text that is not blank hands on a blank text only when
that is empty. -/
theorem blank_trimStart_iff {text t : Text} (hlen : text.length < 2 ^ 63)
    (h : trimStart text = .ok t) (ht : t ≠ []) : Blank t ↔ Blank text := by
  constructor
  · intro hblank
    by_contra hb
    exact not_blank_of_trimStart hlen h hb ht hblank
  · intro hb
    rw [trimStart_of_blank hb] at h
    cases h
    exact hb

/-- **When `trim` hands on nothing but whitespace.** -/
theorem blank_trim_iff {text t : Text} (hlen : text.length < 2 ^ 63) (h : trim text = .ok t)
    (ht : t ≠ []) : Blank t ↔ BlankCut text := by
  cases hlast : findLastNotOf text whitespaces with
  | none =>
    have hb : Blank text := findLastNotOf_eq_none_iff.1 hlast
    rw [trim_of_blank hb] at h
    cases h
    exact ⟨fun _ => ⟨ht, Or.inl hb⟩, fun _ => hb⟩
  | some i =>
    obtain ⟨hi, hout⟩ := findLastNotOf_spec hlast
    have hnb : ¬ Blank text := fun hb => hout (hb _ (List.getElem_mem hi))
    have hne : text ≠ [] := by
      rintro rfl
      exact absurd hi (Nat.not_lt_zero i)
    -- only a position short enough to pass for an `int` moves the end of the text
    have hcut : BlankCut text ↔ i % 2 ^ 32 < 2 ^ 31 - 1 ∧ Blank (text.take (i % 2 ^ 32 + 1)) := by
      simp [BlankCut, hlast, hnb, hne]
    rw [hcut]
    have hend := trimEnd_of_last hlen hlast
    split_ifs at hend with hneg hshort
    · rw [trim_of_trimEnd hend] at h
      rw [blank_trimStart_iff hlen h ht]
      exact iff_of_false hnb fun hand => by omega
    · rw [trim_of_trimEnd hend] at h
      have hlen' : (text.take (i % 2 ^ 32 + 1)).length < 2 ^ 63 :=
        lt_of_le_of_lt (List.length_take_le _ _) (by omega)
      rw [blank_trimStart_iff hlen' h ht]
      exact ⟨fun hb => ⟨hshort, hb⟩, fun hand => hand.2⟩
    · rw [trim, hend] at h
      exact absurd h (by rintro ⟨⟩)

/-- `trim` leaves something of these lines. -/
theorem trim_of_blankCut {text : Text} (hlen : text.length < 2 ^ 63) (h : BlankCut text) :
    ∃ t, trim text = .ok t ∧ t ≠ [] := by
  obtain ⟨hne, hb | ⟨i, hi, hshort, hb⟩⟩ := h
  · exact ⟨text, trim_of_blank hb, hne⟩
  · have hend := trimEnd_of_last hlen hi
    rw [if_neg (by omega), if_pos hshort] at hend
    exact ⟨_, (trim_of_trimEnd hend).trans (trimStart_of_blank hb), by simpa using hne⟩

/-- Deleting `'\r'`s neither makes a text blank nor keeps it from being so. -/
theorem blank_dropCr {text : Text} : Blank (dropCr text) ↔ Blank text := by
  constructor
  · intro h c hc
    by_cases hcr : c = '\r'
    · subst hcr
      decide
    · exact h c (mem_dropCr.2 ⟨hc, hcr⟩)
  · exact fun h c hc => h c (mem_dropCr.1 hc).1

/-- For lines an `int` can count, these are just the non-empty blank lines. -/
theorem blankCut_iff_of_short {text : Text} (hlen : text.length < 2 ^ 31) :
    BlankCut text ↔ text ≠ [] ∧ Blank text := by
  constructor
  · rintro ⟨hne, hb | ⟨i, hi, -, hb⟩⟩
    · exact ⟨hne, hb⟩
    · obtain ⟨hlt, hout⟩ := findLastNotOf_spec hi
      rw [Nat.mod_eq_of_lt (by omega)] at hb
      refine absurd (hb text[i] ?_) hout
      rw [List.mem_take_iff_getElem]
      exact ⟨i, by omega, rfl⟩
  · rintro ⟨hne, hb⟩
    exact ⟨hne, Or.inl hb⟩

/-- The lines of which `trim` leaves something that has nothing that counts in front of
its first NUL. -/
def MuteCut (text : Text) : Prop :=
  BlankCut text ∨ Blank (cstr text) ∧ ∃ t, trim text = .ok t ∧ t ≠ []

theorem blank_cstr {text : Text} (h : Blank text) : Blank (cstr text) :=
  fun c hc => h c ((cstr_prefix_self text).subset hc)

/-- Whitespace in front of a text, and what stands behind it, does not count. -/
theorem blank_cstr_append_iff {p t : Text} (q : Text) (hp : Blank p) (ht : ¬ Blank t) :
    Blank (cstr (p ++ t ++ q)) ↔ Blank (cstr t) := by
  have hnul : '\x00' ∉ p := fun hmem => absurd (hp _ hmem) (by decide)
  have hfront : Blank (p ++ cstr (t ++ q)) ↔ Blank (cstr (t ++ q)) :=
    ⟨fun h c hc => h c (List.mem_append_right _ hc), fun h c hc =>
      (List.mem_append.1 hc).elim (hp c) (h c)⟩
  rw [List.append_assoc, cstr_append_of_not_mem hnul, hfront]
  by_cases hmem : '\x00' ∈ t
  · rw [cstr_append_of_mem hmem]
  · rw [cstr_append_of_not_mem hmem, cstr_eq_self_iff.2 hmem]
    exact ⟨fun h => absurd (fun c hc => h c (List.mem_append_left _ hc)) ht, fun h => absurd h ht⟩

/-- **When `trim` hands on nothing that counts in front of the first NUL.** -/
theorem blank_cstr_trim_iff {text t : Text} (hlen : text.length < 2 ^ 63) (h : trim text = .ok t)
    (ht : t ≠ []) : Blank (cstr t) ↔ MuteCut text := by
  by_cases hb : Blank t
  · exact iff_of_true (blank_cstr hb) (Or.inl ((blank_trim_iff hlen h ht).1 hb))
  · have hcut : ¬ BlankCut text := fun hcut => hb ((blank_trim_iff hlen h ht).2 hcut)
    obtain ⟨p, q, htext, hp⟩ := blank_front_of_trim hlen h ht
    have hsame : Blank (cstr text) ↔ Blank (cstr t) := by
      rw [htext]
      exact blank_cstr_append_iff q hp hb
    rw [MuteCut, ← hsame]
    exact ⟨fun hblank => Or.inr ⟨hblank, t, h, ht⟩, fun hmute =>
      hmute.elim (fun hblank => absurd hblank hcut) fun hblank => hblank.1⟩

/-- `trim` leaves something of these lines as well. -/
theorem trim_of_muteCut {text : Text} (hlen : text.length < 2 ^ 63) (h : MuteCut text) :
    ∃ t, trim text = .ok t ∧ t ≠ [] :=
  h.elim (trim_of_blankCut hlen) fun hmute => hmute.2

/-- For lines an `int` can count, these are the lines that are not empty and have
nothing but whitespace in front of their first NUL. -/
theorem muteCut_iff_of_short {text : Text} (hlen : text.length < 2 ^ 31) :
    MuteCut text ↔ text ≠ [] ∧ Blank (cstr text) := by
  rw [MuteCut, blankCut_iff_of_short hlen]
  constructor
  · rintro (⟨hne, hb⟩ | ⟨hb, t, htrim, ht⟩)
    · exact ⟨hne, blank_cstr hb⟩
    · refine ⟨?_, hb⟩
      rintro rfl
      rw [trim_of_blank blank_nil] at htrim
      exact ht (Except.ok.inj htrim).symm
  · rintro ⟨hne, hb⟩
    by_cases hblank : Blank text
    · exact Or.inl ⟨hne, hblank⟩
    · obtain ⟨p, t, q, rfl, hp, hq, ht, hhead, hlast⟩ := exists_trimmed hblank
      exact Or.inr ⟨hb, t, trim_of_short hp hq ht hhead hlast hlen, ht⟩

/-! ## `readFileLine` -/

/-- The loop of `readFileLine`. -/
def readLoop : ℕ → IfStream → List Text → Option (List Text)
  | 0, _, _ => none
  | n + 1, s, listLine =>
      if s.eofbit then some listLine
      else
        let (strLine, s') := s.getline []
        (replaceText strLine ['\r'] []).bind fun strLine => readLoop n s' (listLine ++ [strLine])

/-- `readFileLine(filename, listLine)` on the file the name leads to, if it
opens: the result and `listLine` afterwards.  A file that is read without errors
takes at most one round a byte and two more. -/
def readFileLine (file : Option IfStream) (listLine : List Text) : Option (Bool × List Text) :=
  match file with
  | none => some (false, listLine)
  | some s => (readLoop (s.rest.length + 2) s listLine).map (true, ·)

/-- The lines of a file: its content cut at every `'\n'`. -/
def linesOf (content : Text) : List Text := content.splitOn '\n'

theorem length_splitOn {α : Type*} [DecidableEq α] (a : α) (l : List α) :
    (l.splitOn a).length = l.count a + 1 := by
  rw [List.splitOn_eq_splitOnP, length_splitOnP]
  rfl

theorem readLoop_at {lines : List Text} {p : ℕ} {s : IfStream} (h : s.At lines p)
    (listLine : List Text) {n : ℕ} (hn : lines.length - p < n) :
    readLoop n s listLine = some (listLine ++ (lines.drop p).map dropCr) := by
  induction n generalizing p s listLine with
  | zero => omega
  | succ n ih =>
    rw [readLoop]
    cases heof : s.eofbit with
    | true => simp [h.eq_of_eof heof]
    | false =>
      have hp := h.lt_of_not_eof heof
      obtain ⟨s', hget, hat, -⟩ := IfStream.getline_spec h heof hp
      simp only [hget, Bool.false_eq_true, if_false, replaceText_cr, Option.bind_some]
      rw [ih hat _ (by omega), List.drop_eq_getElem_cons hp, List.map_cons, List.append_assoc,
        List.singleton_append]

/-- **`readFileLine` appends one entry per line of the file**, without its
carriage returns. -/
theorem readFileLine_ofContent (content : Text) (listLine : List Text) :
    readFileLine (some (.ofContent content)) listLine =
      some (true, listLine ++ (linesOf content).map dropCr) := by
  have hlen : (content.splitOn '\n').length - 0 < content.length + 2 := by
    have hcount : content.count '\n' ≤ content.length := List.count_le_length
    rw [length_splitOn]
    omega
  rw [readFileLine, show (IfStream.ofContent content).rest = content from rfl,
    readLoop_at (IfStream.at_ofContent content) listLine hlen]
  rfl

/-- The loop ends on a stream whose end can be reached, -/
theorem readLoop_sound {s : IfStream} (h : s.Sound) {n : ℕ} (hn : s.left < n)
    (listLine : List Text) : ∃ lines, readLoop n s listLine = some lines := by
  induction n generalizing s listLine with
  | zero => exact absurd hn (Nat.not_lt_zero _)
  | succ n ih =>
    cases heof : s.eofbit with
    | true => exact ⟨listLine, by rw [readLoop, if_pos heof]⟩
    | false =>
      obtain ⟨hsound, hleft⟩ := s.getline_sound h heof []
      rw [readLoop, if_neg (by simp [heof])]
      dsimp only
      rw [replaceText_cr, Option.bind_some]
      exact ih hsound (by omega) _

/-- and on no other. -/
theorem readLoop_doomed {s : IfStream} (h : s.Doomed) (n : ℕ) (listLine : List Text) :
    readLoop n s listLine = none := by
  induction n generalizing s listLine with
  | zero => rfl
  | succ n ih =>
    rw [readLoop, if_neg (by simp [h.1])]
    dsimp only
    rw [replaceText_cr, Option.bind_some]
    exact ih (s.getline_doomed h []) _

end UtilBox
