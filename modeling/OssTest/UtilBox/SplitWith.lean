import OssTest.UtilBox.Split

/-!
# `splitWith`

`splitWith(strPhrase, listItems, strDiv)` cuts like `split` does, but keeps the
delimiters and drops the pieces that are empty.

* `splitWith_eq` — it is `Pieces.partition`.
* `splitWith_partitions` — so the items make up the text, and no two pieces are adjacent.
-/

namespace UtilBox

open Cpp Pieces

/-- The loop of `splitWith`; `index` is the position last found. -/
def splitWithLoop (strDiv : Text) : ℕ → Text → Option ℕ → List Text → Option (List Text)
  | _, strNext, none, listItems =>
      some (if strNext.length > 0 then listItems ++ [strNext] else listItems)
  | 0, _, some _, _ => none
  | n + 1, strNext, some index, listItems =>
      let strPre := strNext.take index
      let listItems := if strPre.length > 0 then listItems ++ [strPre] else listItems
      let strWith := (strNext.drop index).take strDiv.length
      let strNext := strNext.drop (index + strDiv.length)
      splitWithLoop strDiv n strNext (find strNext strDiv 0) (listItems ++ [strWith])

/-- `splitWith(strPhrase, listItems, strDiv)`: `listItems` afterwards. -/
def splitWith (strPhrase : Text) (listItems : List Text) (strDiv : Text) : Option (List Text) :=
  splitWithLoop strDiv (strPhrase.length + 1) strPhrase (find strPhrase strDiv 0) listItems

/-- A piece is appended if it is not empty. -/
theorem append_piece (listItems : List Text) (u : Text) :
    (if u.length > 0 then listItems ++ [u] else listItems) =
      listItems ++ if u = [] then [] else [u] := by
  by_cases h : u = []
  · simp [h]
  · rw [if_pos (List.length_pos_iff.2 h), if_neg h]

/-- The loop goes through the parts one after the other. -/
theorem splitWithLoop_partition {strDiv : Text} (hdiv : strDiv ≠ []) (n : ℕ) (strNext : Text)
    (listItems : List Text) (hn : occurrences strDiv strNext ≤ n) :
    splitWithLoop strDiv n strNext (find strNext strDiv 0) listItems =
      some (listItems ++ partition strDiv strNext) := by
  induction strNext using pieces_induction hdiv generalizing n listItems with
  | last strNext hno =>
    rw [find_zero, cut_eq_none_iff.2 hno, Option.map_none, splitWithLoop, append_piece,
      partition_of_no_occurrence hno]
  | cons strNext u v hcut ih =>
    rw [occurrences_of_cut hdiv hcut] at hn
    obtain ⟨n, rfl⟩ : ∃ m, n = m + 1 := ⟨n - 1, by omega⟩
    have hwith : (strNext.drop u.length).take strDiv.length = strDiv := by
      rw [drop_of_cut hcut, List.take_left]
    rw [find_zero, hcut, Option.map_some, splitWithLoop]
    dsimp only
    rw [take_of_cut hcut, hwith, drop_add_of_cut hcut, append_piece, ih n _ (by omega),
      partition_of_cut hdiv hcut]
    simp only [List.append_assoc, List.singleton_append]

/-- **What `splitWith` appends.** -/
theorem splitWith_eq {strDiv : Text} (hdiv : strDiv ≠ []) (strPhrase : Text)
    (listItems : List Text) :
    splitWith strPhrase listItems strDiv = some (listItems ++ partition strDiv strPhrase) := by
  have hn : occurrences strDiv strPhrase ≤ strPhrase.length + 1 :=
    (occurrences_le_length hdiv strPhrase).trans (Nat.le_succ _)
  exact splitWithLoop_partition hdiv _ strPhrase listItems hn

/-- **`splitWith` partitions its input.**  For every text and every non-empty delimiter it
comes to an end and appends non-empty strings that make up the text.  Each of them is the
delimiter or has none in it, no two of the other kind are adjacent, and there are as many
delimiters as there are occurrences. -/
theorem splitWith_partitions (strPhrase strDiv : Text) (listItems : List Text)
    (hdiv : strDiv ≠ []) :
    ∃ items, splitWith strPhrase listItems strDiv = some (listItems ++ items) ∧
      (∀ x ∈ items, x ≠ []) ∧ items.flatten = strPhrase ∧
      (∀ x ∈ items, x = strDiv ∨ ¬ strDiv <:+: x) ∧
      (items.IsChain fun x y => x = strDiv ∨ y = strDiv) ∧
      items.count strDiv = occurrences strDiv strPhrase := by
  refine ⟨partition strDiv strPhrase, splitWith_eq hdiv strPhrase listItems, ?_,
    flatten_partition hdiv strPhrase, fun _ hx => not_infix_of_mem_partition hdiv hx,
    isChain_partition hdiv strPhrase, count_partition hdiv strPhrase⟩
  rintro x hx rfl
  exact nil_not_mem_partition _ _ hx

/-- A delimiter that overlaps itself. -/
theorem splitWith_partitions_overlap :
    ∃ items, splitWith "xaaab".toList [] "aa".toList = some ([] ++ items) ∧
      (∀ x ∈ items, x ≠ []) ∧ items.flatten = "xaaab".toList ∧
      (∀ x ∈ items, x = "aa".toList ∨ ¬ "aa".toList <:+: x) ∧
      (items.IsChain fun x y => x = "aa".toList ∨ y = "aa".toList) ∧
      items.count "aa".toList = occurrences "aa".toList "xaaab".toList :=
  splitWith_partitions "xaaab".toList "aa".toList [] (by decide)

end UtilBox
