import OssTest.UtilBox

/-!
# `split`

`split(strPhrase, listItems, strDiv, MaxSplitCount)` appends the pieces of a text to a
list.  It cuts at one occurrence of the delimiter after the other, at all of them or,
where `MaxSplitCount` is larger than 1, until that many pieces are there.

* `split_eq` — it is `Pieces.cutN`, so that the pieces joined again are the text.
* `replaceText_split` — `replaceText` is to split the text and join the pieces anew.
-/

namespace UtilBox

open Cpp Pieces

/-- The loop of `split`; `index` is the position last found. -/
def splitLoop (strDiv : Text) (maxSplitCount : Int) :
    ℕ → Text → Option ℕ → ℕ → List Text → Option (List Text)
  | _, strNext, none, _, listItems => some (listItems ++ [strNext])
  | 0, _, some _, _, _ => none
  | n + 1, strNext, some index, curCnt, listItems =>
      let strPre := strNext.take index
      let strNext' := strNext.drop (index + strDiv.length)
      if 1 < maxSplitCount ∧ toSize (maxSplitCount - 1) ≤ curCnt + 1 then
        some (listItems ++ [strPre] ++ [strNext'])
      else
        splitLoop strDiv maxSplitCount n strNext' (find strNext' strDiv 0) (curCnt + 1)
          (listItems ++ [strPre])

/-- `split(strPhrase, listItems, strDiv, MaxSplitCount)`: `listItems` afterwards. -/
def split (strPhrase : Text) (listItems : List Text) (strDiv : Text) (maxSplitCount : Int) :
    Option (List Text) :=
  splitLoop strDiv maxSplitCount (strPhrase.length + 1) strPhrase (find strPhrase strDiv 0) 0
    listItems

/-- How many cuts `split` makes at most. -/
def maxCuts (strDiv strPhrase : Text) (maxSplitCount : Int) : ℕ :=
  if 1 < maxSplitCount then (maxSplitCount - 1).toNat else occurrences strDiv strPhrase

/-- The loop, with `k` cuts left: those that the count still allows, or as many as
there are occurrences. -/
theorem splitLoop_cutN {strDiv : Text} (hdiv : strDiv ≠ []) {maxSplitCount : Int}
    (hmax : maxSplitCount < 2 ^ 31) (n : ℕ) (strNext : Text) (curCnt : ℕ) (listItems : List Text)
    {k : ℕ} (hn : occurrences strDiv strNext ≤ n)
    (hk : (1 < maxSplitCount ∧ 0 < k ∧ (k + curCnt : Int) = maxSplitCount - 1) ∨
      (maxSplitCount ≤ 1 ∧ occurrences strDiv strNext ≤ k)) :
    splitLoop strDiv maxSplitCount n strNext (find strNext strDiv 0) curCnt listItems =
      some (listItems ++ cutN strDiv k strNext) := by
  induction strNext using pieces_induction hdiv generalizing n curCnt listItems k with
  | last strNext hno =>
    rw [find_zero, cut_eq_none_iff.2 hno, Option.map_none, splitLoop, cutN_of_no_occurrence _ hno]
  | cons strNext u v hcut ih =>
    rw [occurrences_of_cut hdiv hcut] at hn hk
    obtain ⟨n, rfl⟩ : ∃ m, n = m + 1 := ⟨n - 1, by omega⟩
    obtain ⟨k, rfl⟩ : ∃ j, k = j + 1 := ⟨k - 1, by omega⟩
    rw [find_zero, hcut, Option.map_some, splitLoop, take_of_cut hcut, drop_add_of_cut hcut,
      cutN_of_cut k hcut]
    split
    · -- the last cut the count allows
      rename_i hlast
      have hzero : k = 0 := by
        have hsize := hlast.2
        unfold toSize at hsize
        omega
      rw [hzero, cutN, List.append_assoc]
      rfl
    · rename_i hmore
      have hk' : (1 < maxSplitCount ∧ 0 < k ∧ (k + (curCnt + 1 : ℕ) : Int) = maxSplitCount - 1) ∨
          (maxSplitCount ≤ 1 ∧ occurrences strDiv v ≤ k) := by
        rcases hk with ⟨hone, -, hsum⟩ | ⟨hone, hle⟩
        · refine Or.inl ⟨hone, ?_, by push_cast at hsum ⊢; omega⟩
          by_contra hzero
          apply hmore
          unfold toSize
          omega
        · exact Or.inr ⟨hone, by omega⟩
      rw [ih n (curCnt + 1) (listItems ++ [u]) (by omega) hk', List.append_assoc]
      rfl

/-- **What `split` appends.** -/
theorem split_eq {strDiv : Text} (hdiv : strDiv ≠ []) {maxSplitCount : Int}
    (hmax : maxSplitCount < 2 ^ 31) (strPhrase : Text) (listItems : List Text) :
    split strPhrase listItems strDiv maxSplitCount =
      some (listItems ++ cutN strDiv (maxCuts strDiv strPhrase maxSplitCount) strPhrase) := by
  have hn : occurrences strDiv strPhrase ≤ strPhrase.length + 1 :=
    (occurrences_le_length hdiv strPhrase).trans (Nat.le_succ _)
  refine splitLoop_cutN hdiv hmax _ strPhrase 0 listItems hn ?_
  unfold maxCuts
  split
  · exact Or.inl ⟨‹_›, by omega, by omega⟩
  · exact Or.inr ⟨by omega, le_refl _⟩

/-- The default `MaxSplitCount` is no limit. -/
theorem split_all {strDiv : Text} (hdiv : strDiv ≠ []) (strPhrase : Text)
    (listItems : List Text) :
    split strPhrase listItems strDiv 1 = some (listItems ++ pieces strDiv strPhrase) := by
  rw [split_eq hdiv (by norm_num), maxCuts, if_neg (lt_irrefl 1), pieces]

/-- **`split` is lossless and bounded.**  For every text and every non-empty delimiter
it comes to an end, keeps what the list held, and appends pieces that give the text
back when they are joined: one more than there are occurrences, or `MaxSplitCount` of
them if that is larger than 1 and there would be more.  Only the last piece can contain
the delimiter, and it does just where the limit was reached too early. -/
theorem split_lossless (strPhrase strDiv : Text) (listItems : List Text) (maxSplitCount : Int)
    (hdiv : strDiv ≠ []) (hmax : maxSplitCount < 2 ^ 31) :
    ∃ items, ∃ hne : items ≠ [],
      split strPhrase listItems strDiv maxSplitCount = some (listItems ++ items) ∧
      strDiv.intercalate items = strPhrase ∧
      items.length = (if maxSplitCount ≤ 1 then occurrences strDiv strPhrase + 1
        else min maxSplitCount.toNat (occurrences strDiv strPhrase + 1)) ∧
      (∀ x ∈ items.dropLast, ¬ strDiv <:+: x) ∧
      (strDiv <:+: items.getLast hne ↔
        2 ≤ maxSplitCount ∧ maxSplitCount < occurrences strDiv strPhrase + 1) := by
  refine ⟨_, cutN_ne_nil _ _ _, split_eq hdiv hmax strPhrase listItems, intercalate_cutN _ _ _,
    ?_, not_infix_of_mem_dropLast hdiv _ _, ?_⟩
  · rw [length_cutN hdiv, maxCuts]
    split_ifs <;> omega
  · rw [infix_getLast_iff hdiv, maxCuts]
    split_ifs <;> omega

/-- Two pieces at most: the second one keeps the delimiters that are left. -/
theorem split_lossless_two :
    ∃ items, ∃ hne : items ≠ [],
      split "a=b=c".toList ["x".toList] "=".toList 2 = some (["x".toList] ++ items) ∧
      "=".toList.intercalate items = "a=b=c".toList ∧
      items.length = (if (2 : Int) ≤ 1 then occurrences "=".toList "a=b=c".toList + 1
        else min (2 : Int).toNat (occurrences "=".toList "a=b=c".toList + 1)) ∧
      (∀ x ∈ items.dropLast, ¬ "=".toList <:+: x) ∧
      ("=".toList <:+: items.getLast hne ↔
        (2 : Int) ≤ 2 ∧ (2 : Int) < occurrences "=".toList "a=b=c".toList + 1) :=
  split_lossless "a=b=c".toList "=".toList ["x".toList] 2 (by decide) (by decide)

/-- **`replaceText` is to split and to join anew.**  For every text and every non-empty
`from` it comes to an end and leaves the pieces `split` yields, with `to` between them.
A single character that does not occur in `to` is gone afterwards, and replacing it
once more changes nothing. -/
theorem replaceText_split (text from' to' : Text) (hfrom : from' ≠ []) :
    ∃ items r, split text [] from' 1 = some items ∧ replaceText text from' to' = some r ∧
      r = to'.intercalate items ∧
      ∀ c, from' = [c] → c ∉ to' → ¬ from' <:+: r ∧ replaceText r from' to' = some r := by
  refine ⟨pieces from' text, _, split_all hfrom text [], replaceText_eq hfrom text to', rfl, ?_⟩
  rintro c rfl hto
  have hno : ¬ [c] <:+: to'.intercalate (pieces [c] text) := by
    rw [List.singleton_infix_iff]
    intro hc
    rcases mem_intercalate hc with hc | ⟨x, hx, hcx⟩
    · exact hto hc
    · exact not_infix_of_mem_pieces hfrom hx ((List.singleton_infix_iff c x).2 hcx)
  refine ⟨hno, ?_⟩
  rw [replaceText_eq hfrom, pieces_of_no_occurrence hno, List.intercalate_singleton]

/-- A tabulator becomes two blanks. -/
theorem replaceText_split_tab :
    ∃ items r, split "a\tb".toList [] "\t".toList 1 = some items ∧
      replaceText "a\tb".toList "\t".toList "  ".toList = some r ∧
      r = "  ".toList.intercalate items ∧
      ∀ c, "\t".toList = [c] → c ∉ "  ".toList →
        ¬ "\t".toList <:+: r ∧ replaceText r "\t".toList "  ".toList = some r :=
  replaceText_split "a\tb".toList "\t".toList "  ".toList (by decide)

end UtilBox
