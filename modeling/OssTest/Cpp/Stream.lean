import OssTest.Cpp.Text

/-!
# `std::ifstream` and `getline`

An open input stream is the content still to be read together with the three
state bits.  A stream may also fail while it is read: `failAt = some n` says
that reading breaks after `n` more bytes, which sets `badbit` and never
`eofbit`.

* `getline` follows the standard library: it extracts up to and including the
  next `'\n'`, sets `eofbit` when the content runs out, and sets `failbit` when
  it extracted nothing.
* `At lines p` says where a stream that does not fail stands in its own lines;
  `getline_spec` moves it one line on.
* A stream that may fail is `Sound` as long as its end can be reached, and comes nearer to
  it with every `getline` (`getline_sound`); otherwise it is `Doomed` (`getline_doomed`).
-/

namespace Cpp

/-- An input file stream. -/
structure IfStream where
  isOpen : Bool
  /-- The content not read yet. -/
  rest : Text
  /-- After how many more bytes reading fails, if it does. -/
  failAt : Option ℕ
  eofbit : Bool
  failbit : Bool
  badbit : Bool

namespace IfStream

/-- A stream on which nothing was opened. -/
def closed : IfStream := ⟨false, [], none, false, false, false⟩

/-- A freshly opened file with this content, read without errors. -/
def ofContent (content : Text) : IfStream := ⟨true, content, none, false, false, false⟩

/-- `good()`: no state bit is set. -/
def good (s : IfStream) : Bool := !s.eofbit && !s.failbit && !s.badbit

/-- `tellg()` after `seekg(0, end)` on a regular file. -/
def tellgEnd (s : IfStream) : Int := s.rest.length

/-- Why an extraction stopped. -/
inductive Stop where
  | newline
  | eof
  | bad
  deriving DecidableEq, Repr

/-- The extraction loop of `getline`: the line, the content left, the count down
to the read failure, and why it stopped. -/
def extract : Text → Option ℕ → Text → Text × Text × Option ℕ × Stop
  | rest, some 0, line => (line, rest, some 0, .bad)
  | [], failAt, line => (line, [], failAt, .eof)
  | c :: cs, failAt, line =>
      if c = '\n' then (line, cs, failAt.map (· - 1), .newline)
      else extract cs (failAt.map (· - 1)) (line ++ [c])

/-- `getline(in, str)`: the new value of `str` and the stream afterwards. -/
def getline (s : IfStream) (str : Text) : Text × IfStream :=
  if s.good then
    match extract s.rest s.failAt [] with
    | (line, rest, failAt, .newline) => (line, { s with rest := rest, failAt := failAt })
    | (line, rest, failAt, .eof) =>
        (line, { s with rest := rest, failAt := failAt, eofbit := true, failbit := line.isEmpty })
    | (line, rest, failAt, .bad) =>
        (line, { s with rest := rest, failAt := failAt, badbit := true, failbit := line.isEmpty })
  else (str, { s with failbit := true })

/-- `ignore(max, '\n')`: what `getline` does, but nothing is kept, and nothing at the end of
the file is not a failure. -/
def ignore (s : IfStream) : IfStream :=
  if s.good then
    match extract s.rest s.failAt [] with
    | (_, rest, failAt, .newline) => { s with rest := rest, failAt := failAt }
    | (_, rest, failAt, .eof) => { s with rest := rest, failAt := failAt, eofbit := true }
    | (_, rest, failAt, .bad) => { s with rest := rest, failAt := failAt, badbit := true }
  else { s with failbit := true }

/-- `seekg(0)` on a stream of which nothing has been read yet. -/
def seekBeg (s : IfStream) : IfStream := { s with eofbit := false }

theorem newline_not_mem_extract {rest line : Text} {failAt : Option ℕ} (h : '\n' ∉ line) :
    '\n' ∉ (extract rest failAt line).1 := by
  fun_induction extract rest failAt line with
  | case1 | case2 | case3 => exact h
  | case4 c cs failAt line _ hc ih =>
    apply ih
    rw [List.mem_append, List.mem_singleton, not_or]
    exact ⟨h, Ne.symm hc⟩

/-- What `getline` hands out is one line, however the stream stands. -/
theorem newline_not_mem_getline (s : IfStream) : '\n' ∉ (s.getline []).1 := by
  have hline : '\n' ∉ (extract s.rest s.failAt []).1 := newline_not_mem_extract List.not_mem_nil
  unfold getline
  split
  · split <;> simp_all
  · exact List.not_mem_nil

theorem length_extract (rest : Text) (failAt : Option ℕ) (line : Text) :
    (extract rest failAt line).1.length + (extract rest failAt line).2.1.length ≤
      line.length + rest.length := by
  fun_induction extract rest failAt line with
  | case1 | case2 => exact le_refl _
  | case3 c cs line _ => simp
  | case4 c cs failAt line _ hc ih =>
    simp only [List.length_append, List.length_cons, List.length_nil] at ih ⊢
    omega

/-- `getline` hands out some of what was left, and leaves no more than that. -/
theorem length_getline (s : IfStream) :
    (s.getline []).1.length + (s.getline []).2.rest.length ≤ s.rest.length := by
  have hlen := length_extract s.rest s.failAt []
  rw [List.length_nil, Nat.zero_add] at hlen
  unfold getline
  split
  · split <;> simp_all
  · simp

/-- Reading does not close a stream. -/
theorem getline_isOpen (s : IfStream) (str : Text) : (s.getline str).2.isOpen = s.isOpen := by
  unfold getline
  split
  · split <;> rfl
  · rfl

/-! ## A stream that does not fail -/

theorem extract_append_newline {u v line : Text} (h : '\n' ∉ u) :
    extract (u ++ '\n' :: v) none line = (line ++ u, v, none, .newline) := by
  induction u generalizing line with
  | nil => simp [extract]
  | cons c cs ih =>
    simp only [List.mem_cons, not_or] at h
    rw [List.cons_append, extract, if_neg (Ne.symm h.1), Option.map_none, ih h.2]
    · simp
    · simp

theorem extract_no_newline {u line : Text} (h : '\n' ∉ u) :
    extract u none line = (line ++ u, [], none, .eof) := by
  induction u generalizing line with
  | nil => simp [extract]
  | cons c cs ih =>
    simp only [List.mem_cons, not_or] at h
    rw [extract, if_neg (Ne.symm h.1), Option.map_none, ih h.2]
    · simp
    · simp

/-- The stream has handed out the first `p` of `lines` and goes on with the
others; at the end of the file all of them are out. -/
def At (lines : List Text) (p : ℕ) (s : IfStream) : Prop :=
  s.failAt = none ∧ s.badbit = false ∧
    ((s.eofbit = false ∧ s.failbit = false ∧ p < lines.length ∧
        s.rest.splitOn '\n' = lines.drop p) ∨
      (s.eofbit = true ∧ p = lines.length))

theorem At.lt_of_not_eof {lines : List Text} {p : ℕ} {s : IfStream} (h : At lines p s)
    (heof : s.eofbit = false) : p < lines.length := by
  obtain ⟨-, -, ⟨-, -, hp, -⟩ | ⟨he, -⟩⟩ := h
  · exact hp
  · rw [heof] at he
    exact absurd he (by decide)

theorem At.eq_of_eof {lines : List Text} {p : ℕ} {s : IfStream} (h : At lines p s)
    (heof : s.eofbit = true) : p = lines.length := by
  obtain ⟨-, -, ⟨he, -⟩ | ⟨-, hp⟩⟩ := h
  · rw [heof] at he
    exact absurd he (by decide)
  · exact hp

/-- A freshly opened file stands before its first line. -/
theorem at_ofContent (content : Text) : At (content.splitOn '\n') 0 (ofContent content) := by
  refine ⟨rfl, rfl, Or.inl ⟨rfl, rfl, ?_, by simp [ofContent]⟩⟩
  exact List.length_pos_iff.2 (List.splitOn_ne_nil _ _)

/-- Cut a text at its first newline. -/
theorem exists_newline_split (t : Text) :
    (∃ u v, t = u ++ '\n' :: v ∧ '\n' ∉ u) ∨ '\n' ∉ t := by
  by_cases h : '\n' ∈ t
  · obtain ⟨u, v, rfl, hu⟩ := List.eq_append_cons_of_mem h
    exact Or.inl ⟨u, v, rfl, hu⟩
  · exact Or.inr h

/-- **`getline` hands out the next line.**  Reading away from the end of the
file yields the line the stream stands before, and leaves it before the one
after that. -/
theorem getline_spec {lines : List Text} {p : ℕ} {s : IfStream} (h : At lines p s)
    (heof : s.eofbit = false) (hp : p < lines.length) :
    ∃ s', getline s [] = (lines[p], s') ∧ At lines (p + 1) s' ∧ s'.isOpen = s.isOpen := by
  obtain ⟨hfail, hbad, ⟨-, hfb, -, hsplit⟩ | ⟨he, -⟩⟩ := h
  swap
  · rw [heof] at he
    exact absurd he (by decide)
  have hgood : s.good = true := by simp [good, heof, hfb, hbad]
  have hdrop : lines.drop p = lines[p] :: lines.drop (p + 1) := List.drop_eq_getElem_cons hp
  rcases exists_newline_split s.rest with ⟨u, v, hrest, hu⟩ | hno
  · -- a newline ends the line: the rest of the content gives the other lines
    rw [hrest, List.splitOn_append_cons_self_of_not_mem hu, hdrop, List.cons.injEq] at hsplit
    have hlen : p + 1 < lines.length := by
      have hv : lines.drop (p + 1) ≠ [] := hsplit.2 ▸ List.splitOn_ne_nil _ _
      rw [Ne, List.drop_eq_nil_iff] at hv
      omega
    refine ⟨{ s with rest := v, failAt := none }, ?_, ?_, rfl⟩
    · rw [← hsplit.1]
      simp [getline, hgood, hrest, hfail, extract_append_newline hu]
    · exact ⟨rfl, hbad, Or.inl ⟨heof, hfb, hlen, hsplit.2⟩⟩
  · -- the content ends: this was the last line
    rw [List.splitOn_eq_singleton hno, hdrop, List.cons.injEq] at hsplit
    have hlen : p + 1 = lines.length := by
      have := List.drop_eq_nil_iff.1 hsplit.2.symm
      omega
    refine ⟨{ s with rest := [], failAt := none, eofbit := true, failbit := s.rest.isEmpty },
      ?_, ?_, rfl⟩
    · rw [← hsplit.1]
      simp [getline, hgood, hfail, extract_no_newline hno]
    · exact ⟨rfl, hbad, Or.inr ⟨rfl, hlen⟩⟩

/-- A stream that goes on is good. -/
theorem At.good {lines : List Text} {p : ℕ} {s : IfStream} (h : At lines p s)
    (heof : s.eofbit = false) : s.good = true := by
  obtain ⟨-, hbad, ⟨-, hfail, -, -⟩ | ⟨he, -⟩⟩ := h
  · simp [IfStream.good, heof, hfail, hbad]
  · rw [heof] at he
    cases he

/-- What stood in the string before does not matter while the stream is good. -/
theorem getline_of_good {s : IfStream} (h : s.good = true) (str : Text) :
    s.getline str = s.getline [] := by
  rw [getline, getline, if_pos h, if_pos h]

/-- Where `getline` stops at a newline, `ignore` leaves the same stream. -/
theorem ignore_eq_getline {s : IfStream} (str : Text) (heof : (s.getline str).2.eofbit = false)
    (hbad : (s.getline str).2.badbit = false) : s.ignore = (s.getline str).2 := by
  unfold getline ignore at *
  split
  · rename_i hgood
    rw [if_pos hgood] at heof hbad
    rcases hx : extract s.rest s.failAt [] with ⟨line, rest, failAt, stop⟩
    rw [hx] at heof hbad
    cases stop with
    | newline => rfl
    | eof => cases heof
    | bad => cases hbad
  · rfl

/-- **`ignore` goes on to the next line** where there is one. -/
theorem ignore_spec {lines : List Text} {p : ℕ} {s : IfStream} (h : At lines p s)
    (hp : p + 1 < lines.length) : At lines (p + 1) s.ignore ∧ s.ignore.eofbit = false := by
  have heof : s.eofbit = false := by
    by_contra htrue
    have hend := h.eq_of_eof (Bool.eq_true_of_not_eq_false htrue)
    omega
  obtain ⟨s', hget, hat, -⟩ := getline_spec h heof (by omega)
  have heof' : s'.eofbit = false := by
    by_contra htrue
    have hend := hat.eq_of_eof (Bool.eq_true_of_not_eq_false htrue)
    omega
  have hsame : s.ignore = s' := by
    have hstay := ignore_eq_getline (s := s) [] (by rw [hget]; exact heof')
      (by rw [hget]; exact hat.2.1)
    rw [hstay, hget]
  rw [hsame]
  exact ⟨hat, heof'⟩

/-! ## A stream that may fail -/

/-- A freshly opened file with this content, reading which fails after `failAt` bytes. -/
def opened (content : Text) (failAt : Option ℕ) : IfStream :=
  ⟨true, content, failAt, false, false, false⟩

/-- The end of the file comes before the point at which reading fails. -/
def Readable (s : IfStream) : Prop := ∀ n, s.failAt = some n → s.rest.length < n

/-- The end of the file is reached, or the way to it is free. -/
def Sound (s : IfStream) : Prop :=
  s.eofbit = true ∨ (s.failbit = false ∧ s.badbit = false ∧ s.Readable)

/-- The end of the file is not reached and never will be. -/
def Doomed (s : IfStream) : Prop := s.eofbit = false ∧ (s.good = false ∨ ¬ s.Readable)

/-- How many calls of `getline` it takes at most. -/
def left (s : IfStream) : ℕ := if s.eofbit then 0 else s.rest.length + 1

theorem not_readable_iff {s : IfStream} :
    ¬ s.Readable ↔ ∃ n, s.failAt = some n ∧ n ≤ s.rest.length := by
  simp [Readable]

theorem sound_opened {content : Text} {failAt : Option ℕ}
    (h : (opened content failAt).Readable) : (opened content failAt).Sound :=
  Or.inr ⟨rfl, rfl, h⟩

theorem doomed_opened {content : Text} {failAt : Option ℕ}
    (h : ¬ (opened content failAt).Readable) : (opened content failAt).Doomed :=
  ⟨rfl, Or.inr h⟩

/-- Where the way to the end is free, an extraction does not fail and leaves it free. -/
theorem extract_readable {rest : Text} {failAt : Option ℕ} (line : Text)
    (h : ∀ n, failAt = some n → rest.length < n) :
    (extract rest failAt line).2.2.2 ≠ .bad ∧
      (∀ n, (extract rest failAt line).2.2.1 = some n →
        (extract rest failAt line).2.1.length < n) ∧
      ((extract rest failAt line).2.2.2 = .newline →
        (extract rest failAt line).2.1.length < rest.length) := by
  fun_induction extract rest failAt line with
  | case1 rest line => exact absurd (h 0 rfl) (Nat.not_lt_zero _)
  | case2 failAt line _ => exact ⟨nofun, h, nofun⟩
  | case3 cs failAt line _ =>
    refine ⟨nofun, ?_, fun _ => Nat.lt_succ_self _⟩
    intro n hn
    obtain ⟨m, hm, rfl⟩ := Option.map_eq_some_iff.1 hn
    have := h m hm
    rw [List.length_cons] at this
    exact Nat.lt_sub_of_add_lt this
  | case4 c cs failAt line _ _ ih =>
    obtain ⟨hbad, hway, hshort⟩ := ih (by
      intro n hn
      obtain ⟨m, hm, rfl⟩ := Option.map_eq_some_iff.1 hn
      have := h m hm
      rw [List.length_cons] at this
      exact Nat.lt_sub_of_add_lt this)
    exact ⟨hbad, hway, fun hstop => (hshort hstop).trans (Nat.lt_succ_self _)⟩

/-- Where reading fails before the end, an extraction does not get there. -/
theorem extract_failing {rest : Text} {failAt : Option ℕ} (line : Text)
    (h : ∃ n, failAt = some n ∧ n ≤ rest.length) :
    (extract rest failAt line).2.2.2 ≠ .eof ∧
      ∃ n, (extract rest failAt line).2.2.1 = some n ∧
        n ≤ (extract rest failAt line).2.1.length := by
  fun_induction extract rest failAt line with
  | case1 rest line => exact ⟨nofun, 0, rfl, Nat.zero_le _⟩
  | case2 failAt line hne =>
    obtain ⟨n, rfl, hn⟩ := h
    exact absurd (Nat.le_zero.1 hn) (by rintro rfl; exact hne rfl)
  | case3 cs failAt line hne =>
    obtain ⟨n, rfl, hn⟩ := h
    rw [List.length_cons] at hn
    exact ⟨nofun, n - 1, rfl, Nat.sub_le_of_le_add hn⟩
  | case4 c cs failAt line hne _ ih =>
    obtain ⟨n, rfl, hn⟩ := h
    rw [List.length_cons] at hn
    exact ih ⟨n - 1, rfl, Nat.sub_le_of_le_add hn⟩

/-- **A sound stream comes one line nearer to its end.** -/
theorem getline_sound {s : IfStream} (h : s.Sound) (heof : s.eofbit = false) (str : Text) :
    (s.getline str).2.Sound ∧ (s.getline str).2.left < s.left := by
  obtain heof' | ⟨hfail, hbad, hway⟩ := h
  · rw [heof] at heof'
    cases heof'
  have hgood : s.good = true := by simp [good, heof, hfail, hbad]
  obtain ⟨hstop, hway', hshort⟩ := extract_readable [] hway
  rw [getline, if_pos hgood]
  rcases hx : extract s.rest s.failAt [] with ⟨line, rest, failAt, stop⟩
  rw [hx] at hstop hway' hshort
  cases stop with
  | newline =>
    refine ⟨Or.inr ⟨hfail, hbad, hway'⟩, ?_⟩
    simp only [left, heof, Bool.false_eq_true, if_false]
    exact Nat.succ_lt_succ (hshort rfl)
  | eof =>
    refine ⟨Or.inl rfl, ?_⟩
    simp [left, heof]
  | bad => exact absurd rfl hstop

/-- **A doomed stream stays doomed.** -/
theorem getline_doomed {s : IfStream} (h : s.Doomed) (str : Text) :
    (s.getline str).2.Doomed := by
  obtain ⟨heof, hway⟩ := h
  rw [getline]
  split
  · rename_i hgood
    have hway := not_readable_iff.1 (hway.resolve_left (by simp [hgood]))
    obtain ⟨hstop, hway'⟩ := extract_failing [] hway
    rcases hx : extract s.rest s.failAt [] with ⟨line, rest, failAt, stop⟩
    rw [hx] at hstop hway'
    cases stop with
    | newline => exact ⟨heof, Or.inr (not_readable_iff.2 hway')⟩
    | eof => exact absurd rfl hstop
    | bad => exact ⟨heof, Or.inl (by simp [good])⟩
  · exact ⟨heof, Or.inl (by simp [good])⟩

end IfStream

end Cpp
