import OssTest.UtilBox

/-!
# The two line readers

`readFileLine` reads a file line by line until `eof()`, `readFileSpecificLine` skips some
lines and reads one.  Both delete the `'\r'`s of what they read.

* `readFileLine_decodes` — the lines are the content cut at every `'\n'`.
* `readers_agree` — a line that `readFileLine` yields is found by its number as well.
-/

namespace UtilBox

open Cpp

/-! ## `readFileLine` -/

theorem newline_not_mem_linesOf {content l : Text} (h : l ∈ linesOf content) : '\n' ∉ l := by
  rw [linesOf, ← Pieces.pieces_singleton] at h
  have hno := Pieces.not_infix_of_mem_pieces (List.cons_ne_nil _ _) h
  rwa [List.singleton_infix_iff] at hno

/-- The lines joined again are the content. -/
theorem intercalate_linesOf (content : Text) : ['\n'].intercalate (linesOf content) = content := by
  rw [linesOf, ← Pieces.pieces_singleton]
  exact Pieces.intercalate_cutN _ _ _

/-- The lines without their `'\r'`s joined are the content without its `'\r'`s. -/
theorem intercalate_dropCr (content : Text) :
    ['\n'].intercalate ((linesOf content).map dropCr) = dropCr content := by
  have hfilter := Pieces.filter_intercalate (· != '\r') ['\n'] (linesOf content)
  rw [intercalate_linesOf] at hfilter
  exact hfilter.symm

/-- **`readFileLine` decodes a file exactly.**  For every content it comes to an end and
returns `true`, keeps the lines that were there, and appends the pieces of the content cut
at each `'\n'`, one more than there are `'\n'`s, each without its `'\r'`s; joined again they
are the content without its `'\r'`s. -/
theorem readFileLine_decodes (content : Text) (listLine : List Text) :
    ∃ lines, readFileLine (some (.ofContent content)) listLine =
        some (true, listLine ++ lines.map dropCr) ∧
      lines.length = content.count '\n' + 1 ∧ (∀ l ∈ lines, '\n' ∉ l) ∧
      ['\n'].intercalate lines = content ∧
      ['\n'].intercalate (lines.map dropCr) = dropCr content :=
  ⟨linesOf content, readFileLine_ofContent content listLine, length_splitOn '\n' content,
    fun _ hl => newline_not_mem_linesOf hl, intercalate_linesOf content,
    intercalate_dropCr content⟩

/-! ## `readFileSpecificLine` -/

/-- The loop of `readFileSpecificLine`. -/
def ignoreLines : ℕ → IfStream → IfStream
  | 0, s => s
  | n + 1, s => ignoreLines n s.ignore

/-- `readFileSpecificLine(filename, num, line)` on the file the name leads to, if it opens:
the result and `line` afterwards. -/
def readFileSpecificLine (file : Option IfStream) (num : Int) (line : Text) :
    Option (Bool × Text) :=
  match file with
  | none => some (true, line)
  | some s =>
      let (line, _) := (ignoreLines num.toNat s.seekBeg).getline line
      (replaceText line ['\r'] []).map (true, ·)

/-- Skipping lines leads to the line behind them. -/
theorem ignoreLines_spec {lines : List Text} {p n : ℕ} {s : IfStream} (h : s.At lines p)
    (heof : s.eofbit = false) (hn : p + n < lines.length) :
    (ignoreLines n s).At lines (p + n) ∧ (ignoreLines n s).eofbit = false := by
  induction n generalizing p s with
  | zero => exact ⟨h, heof⟩
  | succ n ih =>
    obtain ⟨hat, heof'⟩ := IfStream.ignore_spec h (by omega)
    have hrest := ih hat heof' (by omega)
    rw [Nat.add_right_comm] at hrest
    exact hrest

/-- `readFileSpecificLine` hands out the line with this number. -/
theorem readFileSpecificLine_ofContent {content : Text} {n : ℕ}
    (hn : n < (linesOf content).length) (line : Text) :
    readFileSpecificLine (some (.ofContent content)) n line =
      some (true, dropCr (linesOf content)[n]) := by
  obtain ⟨hat, heof⟩ := ignoreLines_spec (IfStream.at_ofContent content) rfl
    (show 0 + n < (content.splitOn '\n').length by rwa [Nat.zero_add])
  rw [Nat.zero_add] at hat
  obtain ⟨s', hget, -, -⟩ := IfStream.getline_spec hat heof hn
  have hseek : (IfStream.ofContent content).seekBeg = .ofContent content := rfl
  rw [readFileSpecificLine]
  dsimp only
  rw [hseek, Int.toNat_natCast, IfStream.getline_of_good (hat.good heof), hget, replaceText_cr]
  rfl

/-- **The two line readers agree.**  Whatever the line ends are and whatever stood in the
list and in the string before: the `n`-th line that `readFileLine` appends is the one that
`readFileSpecificLine` reads. -/
theorem readers_agree (content : Text) (listLine : List Text) :
    ∃ items, readFileLine (some (.ofContent content)) listLine = some (true, listLine ++ items) ∧
      ∀ (n : ℕ) (hn : n < items.length) (line : Text),
        readFileSpecificLine (some (.ofContent content)) n line = some (true, items[n]) := by
  refine ⟨_, readFileLine_ofContent content listLine, ?_⟩
  intro n hn line
  rw [List.length_map] at hn
  rw [readFileSpecificLine_ofContent hn, List.getElem_map]

/-- The empty line behind the last newline has a number, too. -/
theorem readers_agree_last :
    readFileSpecificLine (some (.ofContent "a\r\nb\n".toList)) 2 "x".toList = some (true, []) := by
  obtain ⟨items, hread, hagree⟩ := readers_agree "a\r\nb\n".toList []
  have hlines : readFileLine (some (.ofContent "a\r\nb\n".toList)) [] =
      some (true, [['a'], ['b'], []]) := by decide +kernel
  obtain rfl : [['a'], ['b'], []] = items := by
    rw [hlines] at hread
    simpa using hread
  exact hagree 2 (by decide) "x".toList

end UtilBox
