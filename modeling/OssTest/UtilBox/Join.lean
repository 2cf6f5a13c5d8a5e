import OssTest.Lib.Rejoin
import OssTest.UtilBox.Split

/-!
# `split` behind a join, `replaceText` there and back

`split` gives up the delimiters and joining puts them back; here the pieces come first.
They are found again unless the delimiter is in one of them, or starts in one and ends in
the delimiter behind it.

* `split_join_iff` — exactly which lists `split` finds again.
* `replaceText_back_iff` — exactly when a replacement is undone by the opposite one.
-/

namespace UtilBox

open Cpp Pieces

/-- **What was joined is split again**, whatever the list held, exactly when the delimiter
neither occurs in a piece nor starts in it, there are no more pieces than `MaxSplitCount`
allows where it is a limit, and the last piece has the delimiter in it only if the limit is
reached. -/
theorem split_join_iff (items listItems : List Text) (strDiv : Text) (maxSplitCount : Int)
    (hdiv : strDiv ≠ []) (hmax : maxSplitCount < 2 ^ 31) (hne : items ≠ []) :
    split (strDiv.intercalate items) listItems strDiv maxSplitCount =
        some (listItems ++ items) ↔
      (∀ x ∈ items.dropLast, ¬ strDiv <:+: x ++ strDiv.dropLast) ∧
        (1 < maxSplitCount → items.length ≤ maxSplitCount) ∧
        (strDiv <:+: items.getLast hne → 1 < maxSplitCount ∧ items.length = maxSplitCount) := by
  rw [split_eq hdiv hmax, Option.some_inj, List.append_right_inj, maxCuts]
  split
  · rename_i hlimit
    rw [cutN_intercalate_iff hdiv _ hne]
    have hle : items.length ≤ (maxSplitCount - 1).toNat + 1 ↔ items.length ≤ maxSplitCount := by
      omega
    have heq : items.length = (maxSplitCount - 1).toNat + 1 ↔ items.length = maxSplitCount := by
      omega
    rw [hle, heq]
    constructor
    · rintro ⟨hclean, hlen, hlast⟩
      exact ⟨hclean, fun _ => hlen, fun hin => ⟨hlimit, hlast hin⟩⟩
    · rintro ⟨hclean, hlen, hlast⟩
      exact ⟨hclean, hlen hlimit, fun hin => (hlast hin).2⟩
  · rename_i hlimit
    rw [← pieces, pieces_intercalate_iff hdiv hne]
    constructor
    · rintro ⟨hclean, hlast⟩
      exact ⟨hclean, fun h => absurd h hlimit, fun hin => absurd hin hlast⟩
    · rintro ⟨hclean, -, hlast⟩
      exact ⟨hclean, fun hin => hlimit (hlast hin).1⟩

/-- A delimiter that overlaps itself: the first piece ends with the half of one. -/
theorem split_join_iff_overlap :
    split ("aa".toList.intercalate ["a".toList, "b".toList]) [] "aa".toList 1 =
        some ([] ++ ["a".toList, "b".toList]) ↔
      (∀ x ∈ ["a".toList, "b".toList].dropLast, ¬ "aa".toList <:+: x ++ "aa".toList.dropLast) ∧
        ((1 : Int) < 1 → (["a".toList, "b".toList].length : Int) ≤ 1) ∧
        ("aa".toList <:+: ["a".toList, "b".toList].getLast (List.cons_ne_nil _ _) →
          (1 : Int) < 1 ∧ (["a".toList, "b".toList].length : Int) = 1) :=
  split_join_iff ["a".toList, "b".toList] [] "aa".toList 1 (by decide) (by decide)
    (List.cons_ne_nil _ _)

/-- **A replacement is undone by the opposite one** exactly when `to` is nowhere in the
text but where `from` was: not in a piece that `split` yields, and not starting in one and
ending in the `to` behind it. -/
theorem replaceText_back_iff (text from' to' : Text) (hfrom : from' ≠ []) (hto : to' ≠ []) :
    ∃ items, ∃ hne : items ≠ [], ∃ r, split text [] from' 1 = some items ∧
      replaceText text from' to' = some r ∧
      (replaceText r to' from' = some text ↔
        (∀ x ∈ items.dropLast, ¬ to' <:+: x ++ to'.dropLast) ∧
          ¬ to' <:+: items.getLast hne) := by
  refine ⟨pieces from' text, pieces_ne_nil _ _, _, split_all hfrom text [],
    replaceText_eq hfrom text to', ?_⟩
  rw [replaceText_eq hto, Option.some_inj, intercalate_pieces_back_iff hfrom hto,
    pieces_intercalate_iff hto]

/-- A blank becomes two, and two become one again. -/
theorem replaceText_back_blank :
    ∃ items, ∃ hne : items ≠ [], ∃ r, split "a b".toList [] " ".toList 1 = some items ∧
      replaceText "a b".toList " ".toList "  ".toList = some r ∧
      (replaceText r "  ".toList " ".toList = some "a b".toList ↔
        (∀ x ∈ items.dropLast, ¬ "  ".toList <:+: x ++ "  ".toList.dropLast) ∧
          ¬ "  ".toList <:+: items.getLast hne) :=
  replaceText_back_iff "a b".toList " ".toList "  ".toList (by decide) (by decide)

end UtilBox
