import OssTest.UtilBox

/-!
# The exception list

`exceptionlist.txt` names the script lines that are not to be spoken: `main`
reads it with `readFileLine` into `m_VecExceptionList`, and `doSynthesize` skips
a line in which `isExceptionalText` finds one of the entries.

The list withholds what it names, and more than that as soon as one entry is
empty: `find` meets the empty string in every text
(`isExceptionalText_of_nil_mem`).  A file that ends in a newline has such an
entry, and so has an empty file.  `isExceptionalText_exact_iff` says for every
file and every line when the two readings agree.
-/

namespace Exceptions

open Cpp UtilBox

/-- `isExceptionalText(text)`, over the list held in `m_VecExceptionList`. -/
def isExceptionalText (vecExceptionList : List Text) (text : Text) : Bool :=
  match vecExceptionList with
  | [] => false
  | exceptiontext :: rest =>
      if find text exceptiontext 0 ≠ none then true else isExceptionalText rest text

/-- The test looks for an entry that is a substring of the text. -/
theorem isExceptionalText_iff {vecExceptionList : List Text} {text : Text} :
    isExceptionalText vecExceptionList text = true ↔ ∃ e ∈ vecExceptionList, e <:+: text := by
  induction vecExceptionList with
  | nil => simp [isExceptionalText]
  | cons e es ih =>
    rw [isExceptionalText]
    split
    · rename_i hfind
      simp [find_zero_ne_none_iff.1 hfind]
    · rename_i hfind
      have hno : ¬ e <:+: text := fun hin => hfind (find_zero_ne_none_iff.2 hin)
      simp [ih, hno]

/-- An empty entry is found in every text. -/
theorem isExceptionalText_of_nil_mem {vecExceptionList : List Text} (h : [] ∈ vecExceptionList)
    (text : Text) : isExceptionalText vecExceptionList text = true :=
  isExceptionalText_iff.2 ⟨[], h, List.nil_infix⟩

/-- What the list is meant for: the text contains one of its non-empty entries. -/
def Named (vecExceptionList : List Text) (text : Text) : Prop :=
  ∃ e ∈ vecExceptionList, e ≠ [] ∧ e <:+: text

/-- **The test says what the list names** unless an empty entry makes it say yes
to a text in which none of the others occurs. -/
theorem isExceptionalText_named_iff (vecExceptionList : List Text) (text : Text) :
    (isExceptionalText vecExceptionList text = true ↔ Named vecExceptionList text) ↔
      [] ∉ vecExceptionList ∨ Named vecExceptionList text := by
  by_cases hnil : [] ∈ vecExceptionList
  · simp [isExceptionalText_of_nil_mem hnil, hnil]
  · refine iff_of_true ?_ (Or.inl hnil)
    rw [isExceptionalText_iff]
    constructor
    · rintro ⟨e, he, hin⟩
      exact ⟨e, he, fun hnil' => hnil (hnil' ▸ he), hin⟩
    · rintro ⟨e, he, -, hin⟩
      exact ⟨e, he, hin⟩

/-- The list `main` holds after reading an exception file with this content. -/
def listOf (content : Text) : List Text := (linesOf content).map dropCr

/-- **When the exception list withholds only what it names.**  `main` fills the
list from the file; the verdict of `isExceptionalText` on a script line is then
"some non-empty line of the file, without its `'\r'`s, occurs in it" exactly when
no line of the file is empty without its `'\r'`s, or such a line does occur. -/
theorem isExceptionalText_exact_iff (content text : Text) :
    ∃ vecExceptionList,
      readFileLine (some (.ofContent content)) [] = some (true, vecExceptionList) ∧
      ((isExceptionalText vecExceptionList text = true ↔
          ∃ e ∈ linesOf content, dropCr e ≠ [] ∧ dropCr e <:+: text) ↔
        (∀ e ∈ linesOf content, dropCr e ≠ []) ∨
          ∃ e ∈ linesOf content, dropCr e ≠ [] ∧ dropCr e <:+: text) := by
  refine ⟨listOf content, readFileLine_ofContent content [], ?_⟩
  have hnamed : Named (listOf content) text ↔
      ∃ e ∈ linesOf content, dropCr e ≠ [] ∧ dropCr e <:+: text := by
    simp [Named, listOf]
  have hnil : [] ∉ listOf content ↔ ∀ e ∈ linesOf content, dropCr e ≠ [] := by
    simp [listOf]
  rw [← hnamed, ← hnil]
  exact isExceptionalText_named_iff _ _

/-- The file `"foo\n"`, whose last line is the empty one behind the newline,
makes the tool skip the script line `"hello"`. -/
theorem trailing_newline_withholds :
    ∃ vecExceptionList,
      readFileLine (some (.ofContent "foo\n".toList)) [] = some (true, vecExceptionList) ∧
      ¬ (isExceptionalText vecExceptionList "hello".toList = true ↔
        ∃ e ∈ linesOf "foo\n".toList, dropCr e ≠ [] ∧ dropCr e <:+: "hello".toList) := by
  refine ⟨listOf "foo\n".toList, readFileLine_ofContent _ _, ?_⟩
  decide

end Exceptions
