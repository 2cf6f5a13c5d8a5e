import OssTest.Cpp.Text

/-!
# `std::stoi` and `sscanf`

Both read a number the way `strtol` does: white space is skipped, then comes an
optional sign, then as many decimal digits as there are.  `stoi` throws where there is
no digit or the number does not fit an `int`.

`sscanf` works through the directives of its format and stops at the first one that
finds nothing.  It returns how many fields it has converted, or `EOF` where the text
was at its end before the first one.

* `sscanf_fields` — the fields are those of the first conversions of the format, and
  their number is returned.
* `sscanf_eq_eof_iff` — `EOF` means a text of white space.
-/

namespace Cpp

/-- `isspace`, in the C locale. -/
def isspace (c : Char) : Bool := [' ', '\t', '\n', '\x0b', '\x0c', '\r'].contains c

/-- The text behind its leading white space. -/
def skipSpace (text : Text) : Text := text.dropWhile isspace

theorem skipSpace_eq_nil_iff {text : Text} : skipSpace text = [] ↔ text.all isspace = true := by
  simp [skipSpace, List.dropWhile_eq_nil_iff]

/-- An optional sign: whether it is a minus, and the text behind it. -/
def readSign : Text → Bool × Text
  | '-' :: cs => (true, cs)
  | '+' :: cs => (false, cs)
  | cs => (false, cs)

/-- The decimal number in front of a text, and the text behind it. -/
def readInt (text : Text) : Option (Int × Text) :=
  let (minus, cs) := readSign text
  let digits := cs.takeWhile Char.isDigit
  if digits = [] then none
  else
    let n : Int := Nat.ofDigitChars 10 digits 0
    some (if minus then -n else n, cs.dropWhile Char.isDigit)

/-- `std::stoi(text)`. -/
def stoi (text : Text) : Except StdException Int :=
  match readInt (skipSpace text) with
  | none => .error .invalidArgument
  | some (n, _) => if -2 ^ 31 ≤ n ∧ n < 2 ^ 31 then .ok n else .error .outOfRange

/-! ## `sscanf` -/

/-- The conversions the program uses. -/
inductive Conversion where
  /-- `%d` -/
  | d
  /-- `%s` -/
  | s
  /-- `%c` -/
  | c
  /-- `%lf` -/
  | lf
  deriving DecidableEq, Repr

/-- A directive of a format: white space, or a conversion. -/
inductive Directive where
  | space
  | conv (k : Conversion)
  deriving DecidableEq, Repr

/-- A field that was converted; `δ` is the type of the `double`s. -/
inductive ScanField (δ : Type*) where
  | int (n : Int)
  | str (text : Text)
  | chr (c : Char)
  | double (x : δ)
  deriving DecidableEq, Repr

variable {δ : Type*}

/-- The conversion a field comes from. -/
def ScanField.conversion : ScanField δ → Conversion
  | .int _ => .d
  | .str _ => .s
  | .chr _ => .c
  | .double _ => .lf

/-- `%d` stores what `strtol` returns, which does not leave the range of a `long`. -/
def storeInt (n : Int) : Int := toInt (max (-2 ^ 63) (min n (2 ^ 63 - 1)))

/-- One conversion on a text that is not at its end: the field, and the text behind it.
`scanLf` is the conversion of a `double`. -/
def convert (scanLf : Text → Option (δ × Text)) (text : Text) :
    Conversion → Option (ScanField δ × Text)
  | .d => (readInt text).map fun r => (.int (storeInt r.1), r.2)
  | .s => some (.str (text.takeWhile fun c => !isspace c), text.dropWhile fun c => !isspace c)
  | .c => text.head?.map fun c => (.chr c, text.tail)
  | .lf => (scanLf text).map fun r => (.double r.1, r.2)

/-- `EOF`. -/
def eof : Int := -1

/-- `sscanf`, with the fields converted so far: what it returns, and the fields. -/
def sscanf (scanLf : Text → Option (δ × Text)) :
    List Directive → Text → List (ScanField δ) → Int × List (ScanField δ)
  | [], _, fields => (fields.length, fields)
  | .space :: ds, text, fields => sscanf scanLf ds (skipSpace text) fields
  | .conv k :: ds, text, fields =>
      let rest := if k = .c then text else skipSpace text
      if rest = [] then (if fields = [] then eof else fields.length, fields)
      else
        match convert scanLf rest k with
        | none => (fields.length, fields)
        | some (field, rest') => sscanf scanLf ds rest' (fields ++ [field])

/-- The conversions of a format. -/
def conversions : List Directive → List Conversion
  | [] => []
  | .space :: ds => conversions ds
  | .conv k :: ds => k :: conversions ds

theorem conversion_of_convert {scanLf : Text → Option (δ × Text)} {text rest : Text}
    {k : Conversion} {field : ScanField δ} (h : convert scanLf text k = some (field, rest)) :
    field.conversion = k := by
  cases k with
  | s => cases h; rfl
  | d | c | lf =>
    obtain ⟨r, -, heq⟩ := Option.map_eq_some_iff.1 h
    cases heq
    rfl

/-- **What `sscanf` returns, and which fields it has converted by then.** -/
theorem sscanf_fields (scanLf : Text → Option (δ × Text)) (ds : List Directive) (text : Text)
    (fields : List (ScanField δ)) :
    ∃ more, (sscanf scanLf ds text fields).2 = fields ++ more ∧
      more.map ScanField.conversion <+: conversions ds ∧
      ((sscanf scanLf ds text fields).1 = eof ∧ fields ++ more = [] ∨
        (sscanf scanLf ds text fields).1 = (fields ++ more).length) := by
  induction ds generalizing text fields with
  | nil => exact ⟨[], by simp [sscanf], List.nil_prefix, Or.inr (by simp [sscanf])⟩
  | cons directive ds ih =>
    cases directive with
    | space => exact ih (skipSpace text) fields
    | conv k =>
      rw [sscanf]
      generalize (if k = .c then text else skipSpace text) = rest
      split
      · refine ⟨[], (List.append_nil _).symm, List.nil_prefix, ?_⟩
        rw [List.append_nil]
        split
        · exact Or.inl ⟨rfl, ‹_›⟩
        · exact Or.inr rfl
      · split
        · exact ⟨[], (List.append_nil _).symm, List.nil_prefix, Or.inr (by rw [List.append_nil])⟩
        · rename_i field rest' hconv
          obtain ⟨more, hfields, hkinds, hcount⟩ := ih rest' (fields ++ [field])
          refine ⟨field :: more, by rw [hfields, List.append_assoc]; rfl, ?_, ?_⟩
          · rw [List.map_cons, conversion_of_convert hconv, conversions]
            exact (List.prefix_cons_inj k).2 hkinds
          · rwa [List.append_assoc] at hcount

/-- Once a field is converted, `sscanf` returns the number of fields. -/
theorem sscanf_fst_ne_eof {scanLf : Text → Option (δ × Text)} {ds : List Directive} {text : Text}
    {fields : List (ScanField δ)} (h : fields ≠ []) : (sscanf scanLf ds text fields).1 ≠ eof := by
  obtain ⟨more, -, -, ⟨-, hnil⟩ | hcount⟩ := sscanf_fields scanLf ds text fields
  · exact absurd (List.append_eq_nil_iff.1 hnil).1 h
  · rw [hcount, eof]
    omega

/-- **`EOF` means that the text holds nothing but white space**, where the format
begins with a number. -/
theorem sscanf_eq_eof_iff {scanLf : Text → Option (δ × Text)} {ds : List Directive} {text : Text} :
    (sscanf scanLf (.conv .d :: ds) text []).1 = eof ↔ text.all isspace = true := by
  simp only [sscanf, reduceCtorEq, if_false, if_true, ← skipSpace_eq_nil_iff]
  split
  · exact iff_of_true rfl ‹_›
  · rename_i hne
    refine iff_of_false ?_ hne
    split
    · simp [eof]
    · exact sscanf_fst_ne_eof (List.append_ne_nil_of_right_ne_nil _ (List.cons_ne_nil _ _))

end Cpp
