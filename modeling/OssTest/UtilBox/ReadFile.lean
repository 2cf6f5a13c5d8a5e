import OssTest.UtilBox.Lines
import OssTest.UtilBox.Split

/-!
# `read_file`

`read_file` reads a file at one go: it asks `ftell` how long the file is, keeps that in an
`int`, and hands out a block from `calloc` with one byte more.  What stands in the block is
a C string, and who wants its lines has to delete the `'\r'`s and to `split` at the `'\n'`s,
which `readFileLine` does on its own.

* `cstr_fread` — the string in the block.
* `linesOf_dropCr` — the `'\r'`s may go before the lines are told apart, or behind.
* `readFile_lines_iff` — exactly when the two ways lead to the same lines.
-/

namespace UtilBox

open Cpp

/-- `fread(block, 1, n, fp)`: the first bytes of the file over those of the block. -/
def fread (content : Text) (n : ℕ) (block : Text) : Text :=
  content.take n ++ block.drop (content.take n).length

/-- `read_file(pFileName, ppBuff, size, unicode)` on the file the name leads to, if it
opens, where `calloc` has `mem` bytes to give: the result, and `*ppBuff` and `size`
afterwards.  `none` is the `memset` on a null pointer. -/
def readFile (file : Option Text) (mem : ℕ) (ppBuff : Option Text) (size : Int) :
    Option (Int × Option Text × Int) :=
  match file with
  | none => some (-1, ppBuff, size)
  | some content =>
      let size := toInt content.length
      if size ≤ 0 then some (-1, ppBuff, size)
      else
        let bytes := toSize (toInt (size + 1))
        if mem < bytes then none
        else some (size, some (fread content size.toNat (List.replicate bytes '\x00')), size)

/-! ## The block -/

/-- A zero byte ends the string. -/
theorem cstr_append_replicate (text : Text) (k : ℕ) :
    cstr (text ++ List.replicate (k + 1) '\x00') = cstr text := by
  induction text with
  | nil => rfl
  | cons c text ih =>
    unfold cstr at ih ⊢
    rw [List.cons_append, List.takeWhile_cons, List.takeWhile_cons, ih]

/-- The string in the block is the part read, up to its first zero byte. -/
theorem cstr_fread (content : Text) (n : ℕ) :
    cstr (fread content n (List.replicate (n + 1) '\x00')) = cstr (content.take n) := by
  have hlen : (content.take n).length ≤ n := List.length_take_le n content
  obtain ⟨k, hk⟩ : ∃ k, n + 1 - (content.take n).length = k + 1 :=
    ⟨n - (content.take n).length, by omega⟩
  rw [fread, List.drop_replicate, hk, cstr_append_replicate]

/-- The bytes asked for: one more than the `int`, and too many where that is the largest. -/
theorem toSize_toInt_succ {n : Int} (hn : 0 < n) (hmax : n < 2 ^ 31) :
    toSize (toInt (n + 1)) = if n < 2 ^ 31 - 1 then n.toNat + 1 else 2 ^ 64 - 2 ^ 31 := by
  split
  · rw [toInt_of_bounds (by omega) (by omega), toSize, Int.emod_eq_of_lt (by omega) (by omega)]
    omega
  · obtain rfl : n = 2 ^ 31 - 1 := by omega
    decide

/-- When `read_file` hands out a block, and which. -/
theorem readFile_eq_some_iff {content block : Text} {mem : ℕ} (hmem : mem < 2 ^ 63)
    {ppBuff : Option Text} {size n : Int} (hn : 0 < n) :
    readFile (some content) mem ppBuff size = some (n, some block, n) ↔
      n = toInt content.length ∧ n < mem ∧ n < 2 ^ 31 - 1 ∧
        block = fread content n.toNat (List.replicate (n.toNat + 1) '\x00') := by
  have hbound := (toInt_bounds content.length).2
  generalize hlen : toInt content.length = len at hbound
  unfold readFile
  simp only [hlen]
  by_cases hpos : len ≤ 0
  · rw [if_pos hpos]
    refine iff_of_false ?_ fun h => by omega
    intro h
    have hret : (-1 : Int) = n := congrArg Prod.fst (Option.some.inj h)
    omega
  rw [if_neg hpos, toSize_toInt_succ (by omega) hbound]
  by_cases hbig : len < 2 ^ 31 - 1
  · rw [if_pos hbig]
    by_cases hno : mem < len.toNat + 1
    · rw [if_pos hno]
      exact iff_of_false (Option.some_ne_none _).symm fun h => by omega
    · rw [if_neg hno, Option.some_inj, Prod.mk.injEq, Prod.mk.injEq, Option.some_inj]
      constructor
      · rintro ⟨rfl, rfl, -⟩
        exact ⟨rfl, by omega, hbig, rfl⟩
      · rintro ⟨rfl, -, -, rfl⟩
        exact ⟨rfl, rfl, rfl⟩
  · -- the one byte more is one too many for an `int`
    rw [if_neg hbig, if_pos (by omega)]
    exact iff_of_false (Option.some_ne_none _).symm fun h => by omega

/-! ## The lines -/

/-- The `'\r'`s may go before the lines are told apart, or behind. -/
theorem linesOf_dropCr (content : Text) :
    linesOf (dropCr content) = (linesOf content).map dropCr := by
  have hno : ∀ l ∈ (linesOf content).map dropCr, '\n' ∉ l := by
    intro l hl hmem
    obtain ⟨l', hl', rfl⟩ := List.mem_map.1 hl
    exact newline_not_mem_linesOf hl' (mem_dropCr.1 hmem).1
  have hne : (linesOf content).map dropCr ≠ [] := by
    rw [Ne, List.map_eq_nil_iff]
    exact List.splitOn_ne_nil '\n' content
  rw [← intercalate_dropCr, linesOf, List.splitOn_intercalate '\n' hno hne]

theorem linesOf_inj {s t : Text} : linesOf s = linesOf t ↔ s = t := by
  refine ⟨?_, congrArg linesOf⟩
  intro h
  rw [← intercalate_linesOf s, h, intercalate_linesOf]

/-- A string that ends early has the same lines if nothing but `'\r'`s is cut off. -/
theorem dropCr_cstr_take_iff {content : Text} {n : ℕ} :
    dropCr (cstr (content.take n)) = dropCr content ↔
      '\x00' ∉ content ∧ ∀ c ∈ content.drop n, c = '\r' := by
  have hsplit : dropCr content = dropCr (content.take n) ++ dropCr (content.drop n) := by
    rw [dropCr, dropCr, dropCr, ← List.filter_append, List.take_append_drop]
  have hrest : dropCr (content.drop n) = [] ↔ ∀ c ∈ content.drop n, c = '\r' := by
    simp [dropCr]
  constructor
  · intro h
    have hzero : '\x00' ∉ content := by
      intro hmem
      have hkept : '\x00' ∈ dropCr content := mem_dropCr.2 ⟨hmem, by decide⟩
      rw [← h] at hkept
      exact cstr_eq_self_iff.1 (cstr_cstr _) (mem_dropCr.1 hkept).1
    have htake : cstr (content.take n) = content.take n :=
      cstr_eq_self_iff.2 fun hmem => hzero (List.mem_of_mem_take hmem)
    rw [htake, hsplit] at h
    exact ⟨hzero, hrest.1 (List.self_eq_append_right.1 h)⟩
  · rintro ⟨hzero, hcr⟩
    have htake : cstr (content.take n) = content.take n :=
      cstr_eq_self_iff.2 fun hmem => hzero (List.mem_of_mem_take hmem)
    rw [htake, hsplit, hrest.2 hcr, List.append_nil]

/-- **`read_file` and `readFileLine` read the same lines** exactly of a file whose length,
as an `int`, is positive, not the largest, and less than the memory there is, which has no
zero byte, and of which nothing but `'\r'`s stands behind that length. -/
theorem readFile_lines_iff (content : Text) (mem : ℕ) (ppBuff : Option Text) (size : Int)
    (hmem : mem < 2 ^ 63) :
    (∃ n block text lines, 0 < n ∧
        readFile (some content) mem ppBuff size = some (n, some block, n) ∧
        replaceText (cstr block) ['\r'] [] = some text ∧ split text [] ['\n'] 1 = some lines ∧
        readFileLine (some (.ofContent content)) [] = some (true, lines)) ↔
      0 < toInt content.length ∧ toInt content.length < mem ∧
        toInt content.length < 2 ^ 31 - 1 ∧ '\x00' ∉ content ∧
        ∀ c ∈ content.drop (toInt content.length).toNat, c = '\r' := by
  have hlines (text : Text) : split text [] ['\n'] 1 = some (linesOf text) := by
    rw [split_all (List.cons_ne_nil _ _), List.nil_append, Pieces.pieces_singleton, linesOf]
  have hfile : readFileLine (some (.ofContent content)) [] =
      some (true, linesOf (dropCr content)) := by
    rw [readFileLine_ofContent, List.nil_append, linesOf_dropCr]
  constructor
  · rintro ⟨n, block, text, lines, hpos, hread, htext, hsplit, hsame⟩
    obtain ⟨hlen, hlt, hmax, hblock⟩ := (readFile_eq_some_iff hmem hpos).1 hread
    rw [hblock, replaceText_cr, cstr_fread] at htext
    cases htext
    rw [hlines] at hsplit
    cases hsplit
    rw [hfile] at hsame
    have heq := linesOf_inj.1 (Prod.mk.inj (Option.some.inj hsame)).2
    rw [← hlen]
    exact ⟨hpos, hlt, hmax, dropCr_cstr_take_iff.1 heq.symm⟩
  · rintro ⟨hpos, hlt, hmax, hrest⟩
    refine ⟨_, _, _, _, hpos, (readFile_eq_some_iff hmem hpos).2 ⟨rfl, hlt, hmax, rfl⟩,
      replaceText_cr _, hlines _, ?_⟩
    rw [hfile, cstr_fread, dropCr_cstr_take_iff.2 hrest]

/-- A short file. -/
theorem readFile_lines_short :
    (∃ n block text lines, 0 < n ∧
        readFile (some "a\r\nb".toList) 8 none 0 = some (n, some block, n) ∧
        replaceText (cstr block) ['\r'] [] = some text ∧ split text [] ['\n'] 1 = some lines ∧
        readFileLine (some (.ofContent "a\r\nb".toList)) [] = some (true, lines)) ↔
      0 < toInt "a\r\nb".toList.length ∧ toInt "a\r\nb".toList.length < (8 : ℕ) ∧
        toInt "a\r\nb".toList.length < 2 ^ 31 - 1 ∧ '\x00' ∉ "a\r\nb".toList ∧
        ∀ c ∈ "a\r\nb".toList.drop (toInt "a\r\nb".toList.length).toNat, c = '\r' :=
  readFile_lines_iff "a\r\nb".toList 8 none 0 (by decide)

end UtilBox
