import OssTest.Cpp.Scan

/-!
# The load samples

`cpu_getcmd` asks `top` for the line of the process and reads nine fields from it with
one `sscanf`; `cpu_monitor` records the processor load and the resident memory of every
call that returns `true`.

The call is rejected only where `sscanf` returns `EOF`, and `%s` puts no bound on the
name that goes to `user`.  `full_samples_iff` says that samples are therefore right
exactly where the line is blank or has all nine fields with a name that fits: a line on
which the scan stops half-way is recorded with the values the variables had before
(`memory_in_gigabytes`).
-/

namespace CpuMonitor

open Cpp

/-- `MAX_READ_LINE_SIZE`. -/
def maxReadLineSize : ℕ := 1024

/-- `fgets(buffer, size, stream)`: the bytes it stores in front of the final NUL. -/
def fgets (size : ℕ) (data : Text) : Text :=
  (data.takeWhile (· != '\n') ++ (data.dropWhile (· != '\n')).take 1).take (size - 1)

/-- The array `buffer`, zeroed before the line is read into it; `none` is a pipe that
does not open. -/
def buffer (stream : Option Text) : Text :=
  let line := fgets maxReadLineSize (stream.getD [])
  line ++ List.replicate (maxReadLineSize - line.length) '\x00'

/-- What `sscanf` gets to see: the string at `&buffer[6]`. -/
def scanned (stream : Option Text) : Text := cstr ((buffer stream).drop 6)

/-- `"%d %s %d %d %d %d %d %c %lf"`. -/
def topFormat : List Directive :=
  [.conv .d, .space, .conv .s, .space, .conv .d, .space, .conv .d, .space, .conv .d, .space,
    .conv .d, .space, .conv .d, .space, .conv .c, .space, .conv .lf]

section Getcmd

variable {δ : Type*} (scanLf : Text → Option (δ × Text)) (zero : δ)

/-- An `int` variable that holds 0 until its field is converted. -/
def intAt (fields : List (ScanField δ)) (i : ℕ) : Int :=
  match fields[i]? with
  | some (.int n) => n
  | _ => 0

/-- A `double` variable that holds 0.0 until its field is converted. -/
def doubleAt (fields : List (ScanField δ)) (i : ℕ) : δ :=
  match fields[i]? with
  | some (.double x) => x
  | _ => zero

/-- The string a `%s` stores, if the scan gets there. -/
def strAt (fields : List (ScanField δ)) (i : ℕ) : Text :=
  match fields[i]? with
  | some (.str text) => text
  | _ => []

/-- The size of the array `user`. -/
def userSize : ℕ := 16

/-- `cpu_getcmd(CPUrate, MEMres)`: what it returns, and the two variables afterwards.
`none` is a call that writes behind the end of `user`. -/
def cpuGetcmd (stream : Option Text) (CPUrate : δ) (MEMres : Int) : Option (Bool × δ × Int) :=
  match stream with
  | none => some (false, CPUrate, MEMres)
  | some data =>
      if (buffer (some data)).head? ≠ some '\x00' then
        let (n, fields) := sscanf scanLf topFormat (scanned (some data)) []
        if userSize ≤ (strAt fields 1).length then none
        else if n = -1 then some (false, CPUrate, MEMres)
        else some (true, doubleAt zero fields 8, intAt fields 5)
      else some (false, CPUrate, MEMres)

/-- The samples recorded so far. -/
structure Samples (δ : Type*) where
  mVecCpurate : List δ
  mVecMem : List Int

/-- What a round of `cpu_monitor` does with the line of `top`. -/
def Samples.round (v : Samples δ) (stream : Option Text) : Option (Samples δ) :=
  (cpuGetcmd scanLf zero stream zero 0).map fun (ok, cpuRate, memRes) =>
    if ok then ⟨v.mVecCpurate ++ [cpuRate], v.mVecMem ++ [memRes]⟩ else v

/-- **What the samples are meant to be**: every call returns; it succeeds only with all
nine fields, and then with the ninth and the sixth of them; otherwise it changes
nothing, and nothing is recorded. -/
structure FullSamples (stream : Option Text) : Prop where
  returns : ∀ CPUrate MEMres, (cpuGetcmd scanLf zero stream CPUrate MEMres).isSome
  accepted : ∀ CPUrate MEMres rate res,
    cpuGetcmd scanLf zero stream CPUrate MEMres = some (true, rate, res) →
      (sscanf scanLf topFormat (scanned stream) []).1 = 9 ∧
        (sscanf scanLf topFormat (scanned stream) []).2[8]? = some (.double rate) ∧
        (sscanf scanLf topFormat (scanned stream) []).2[5]? = some (.int res)
  rejected : (sscanf scanLf topFormat (scanned stream) []).1 ≠ 9 → ∀ CPUrate MEMres,
    cpuGetcmd scanLf zero stream CPUrate MEMres = some (false, CPUrate, MEMres)
  recorded : (sscanf scanLf topFormat (scanned stream) []).1 ≠ 9 → ∀ v : Samples δ,
    v.round scanLf zero stream = some v

end Getcmd

variable {δ : Type*} {scanLf : Text → Option (δ × Text)} {zero : δ} {stream : Option Text}

/-- The conversions that have nine fields have a `%lf` at the end and a `%d` in the
sixth place. -/
theorem nine_fields {text : Text} (h : (sscanf scanLf topFormat text []).1 = 9) :
    (sscanf scanLf topFormat text []).2[8]? =
        some (.double (doubleAt zero (sscanf scanLf topFormat text []).2 8)) ∧
      (sscanf scanLf topFormat text []).2[5]? =
        some (.int (intAt (sscanf scanLf topFormat text []).2 5)) := by
  obtain ⟨fields, hfields, hkinds, hcount⟩ := sscanf_fields scanLf topFormat text []
  rw [h, List.nil_append] at hcount
  rw [hfields, List.nil_append]
  have hlen : fields.length = 9 := by
    rcases hcount with ⟨heof, -⟩ | hcount
    · exact absurd heof (by decide)
    · exact_mod_cast hcount.symm
  have hall : fields.map ScanField.conversion = [.d, .s, .d, .d, .d, .d, .d, .c, .lf] :=
    hkinds.eq_of_length (by rw [List.length_map, hlen]; rfl)
  have hkind : ∀ (i : ℕ) k, ([.d, .s, .d, .d, .d, .d, .d, .c, .lf] : List Conversion)[i]? = some k →
      ∃ field : ScanField δ, fields[i]? = some field ∧ field.conversion = k := by
    intro i k hi
    rw [← hall, List.getElem?_map, Option.map_eq_some_iff] at hi
    exact hi
  obtain ⟨last, hlast, hlf⟩ := hkind 8 .lf rfl
  obtain ⟨sixth, hsixth, hd⟩ := hkind 5 .d rfl
  constructor
  · cases last with
    | double x => simp [doubleAt, hlast]
    | _ => cases hlf
  · cases sixth with
    | int n => simp [intAt, hsixth]
    | _ => cases hd

/-- The call of a pipe that opened and gave a line. -/
theorem cpuGetcmd_eq (hhead : (buffer stream).head? ≠ some '\x00') (CPUrate : δ) (MEMres : Int) :
    cpuGetcmd scanLf zero stream CPUrate MEMres =
      if userSize ≤ (strAt (sscanf scanLf topFormat (scanned stream) []).2 1).length then none
      else if (sscanf scanLf topFormat (scanned stream) []).1 = -1 then
        some (false, CPUrate, MEMres)
      else some (true, doubleAt zero (sscanf scanLf topFormat (scanned stream) []).2 8,
        intAt (sscanf scanLf topFormat (scanned stream) []).2 5) := by
  cases stream with
  | none => exact absurd rfl hhead
  | some data => rw [cpuGetcmd, if_pos hhead]

/-- A call that has converted something is accepted, if the name fits. -/
theorem cpuGetcmd_of_converted (hhead : (buffer stream).head? ≠ some '\x00')
    (heof : (sscanf scanLf topFormat (scanned stream) []).1 ≠ -1)
    (hfits : (strAt (sscanf scanLf topFormat (scanned stream) []).2 1).length < userSize)
    (CPUrate : δ) (MEMres : Int) :
    cpuGetcmd scanLf zero stream CPUrate MEMres =
      some (true, doubleAt zero (sscanf scanLf topFormat (scanned stream) []).2 8,
        intAt (sscanf scanLf topFormat (scanned stream) []).2 5) := by
  rw [cpuGetcmd_eq hhead, if_neg (Nat.not_le_of_lt hfits), if_neg heof]

/-- The call of a pipe that gave nothing. -/
theorem cpuGetcmd_of_empty (hhead : (buffer stream).head? = some '\x00') (CPUrate : δ)
    (MEMres : Int) :
    cpuGetcmd scanLf zero stream CPUrate MEMres = some (false, CPUrate, MEMres) := by
  cases stream with
  | none => rfl
  | some data => rw [cpuGetcmd, if_neg (not_not.2 hhead)]

/-- Where the text is at its end before the first field, nothing goes to `user`. -/
theorem strAt_of_eof (heof : (sscanf scanLf topFormat (scanned stream) []).1 = -1) (i : ℕ) :
    strAt (sscanf scanLf topFormat (scanned stream) []).2 i = [] := by
  obtain ⟨fields, hfields, -, hcount⟩ := sscanf_fields scanLf topFormat (scanned stream) []
  have hnil : [] ++ fields = [] := by
    rcases hcount with ⟨-, hnil⟩ | hcount
    · exact hnil
    · rw [heof] at hcount
      omega
  rw [hfields, hnil]
  rfl

/-- Where every call is rejected, nothing is recorded. -/
theorem fullSamples_of_rejected (h : ∀ CPUrate MEMres,
    cpuGetcmd scanLf zero stream CPUrate MEMres = some (false, CPUrate, MEMres)) :
    FullSamples scanLf zero stream where
  returns CPUrate MEMres := by rw [h, Option.isSome_some]
  accepted CPUrate MEMres rate res htrue := by
    rw [h] at htrue
    cases htrue
  rejected _ := h
  recorded _ v := by
    rw [Samples.round, h]
    rfl

/-- **Where the samples are right.**  For every line that comes from the pipe, they are
what they are meant to be exactly where the line is empty or begins with a NUL, where
nothing but white space stands from its seventh byte on, or where all nine fields can be
read from there and the second of them fits the array it is read into. -/
theorem full_samples_iff (scanLf : Text → Option (δ × Text)) (zero : δ) (stream : Option Text) :
    FullSamples scanLf zero stream ↔
      (buffer stream).head? = some '\x00' ∨ (scanned stream).all isspace = true ∨
        (sscanf scanLf topFormat (scanned stream) []).1 = 9 ∧
          (strAt (sscanf scanLf topFormat (scanned stream) []).2 1).length < userSize := by
  have hblank : (sscanf scanLf topFormat (scanned stream) []).1 = -1 ↔
      (scanned stream).all isspace = true := sscanf_eq_eof_iff
  rw [← hblank]
  constructor
  · intro h
    by_cases hhead : (buffer stream).head? = some '\x00'
    · exact Or.inl hhead
    by_cases heof : (sscanf scanLf topFormat (scanned stream) []).1 = -1
    · exact Or.inr (Or.inl heof)
    have hfits : (strAt (sscanf scanLf topFormat (scanned stream) []).2 1).length < userSize := by
      by_contra hlong
      have hreturns := h.returns zero 0
      rw [cpuGetcmd_eq hhead, if_pos (Nat.le_of_not_lt hlong)] at hreturns
      cases hreturns
    refine Or.inr (Or.inr ⟨?_, hfits⟩)
    by_contra hnine
    have hfalse := h.rejected hnine zero 0
    rw [cpuGetcmd_of_converted hhead heof hfits] at hfalse
    cases hfalse
  · intro h
    by_cases hhead : (buffer stream).head? = some '\x00'
    · exact fullSamples_of_rejected (cpuGetcmd_of_empty hhead)
    rcases h.resolve_left hhead with heof | ⟨hnine, hfits⟩
    · apply fullSamples_of_rejected
      intro CPUrate MEMres
      rw [cpuGetcmd_eq hhead, if_neg (by rw [strAt_of_eof heof]; decide), if_pos heof]
    · have heof : (sscanf scanLf topFormat (scanned stream) []).1 ≠ -1 := by
        rw [hnine]
        decide
      refine ⟨?_, ?_, fun hne => absurd hnine hne, fun hne => absurd hnine hne⟩
      · intro CPUrate MEMres
        rw [cpuGetcmd_of_converted hhead heof hfits, Option.isSome_some]
      · intro CPUrate MEMres rate res htrue
        rw [cpuGetcmd_of_converted hhead heof hfits] at htrue
        cases htrue
        exact ⟨hnine, nine_fields hnine⟩

/-- A `double` read as the digits before the point and the one behind it. -/
def scanTenths (text : Text) : Option (ℕ × Text) :=
  match text with
  | n :: '.' :: d :: rest => some (10 * (n.toNat - 48) + (d.toNat - 48), rest)
  | _ => none

/-- A line of `top` whose memory column is printed in gigabytes: the scan stops in front
of the point, and the sample is recorded with no memory and no load at all. -/
theorem memory_in_gigabytes :
    ¬ FullSamples scanTenths 0 (some "      123 root 20 0 1.2g 99 7 S 3.0 0.1\n".toList) := by
  intro h
  have hne : (sscanf scanTenths topFormat
      (scanned (some "      123 root 20 0 1.2g 99 7 S 3.0 0.1\n".toList)) []).1 ≠ 9 := by
    decide +kernel
  have hrejected := h.rejected hne 0 0
  revert hrejected
  decide +kernel

end CpuMonitor
