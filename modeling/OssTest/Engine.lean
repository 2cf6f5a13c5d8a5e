import OssTest.Cpp.Text

/-!
# The speech engine

The engine is a shared library: `loadLib` opens it and resolves its entry points
one by one into `stSpec.func`, stopping at the first that is missing.  The library
itself is not part of the repository; what it answers is an argument of the
steps that call it, and every call leaves an `Event`.
-/

namespace Engine

open Cpp

/-- The entry points `loadLib` resolves, in its order. -/
inductive Sym where
  | loadTTS
  | unloadTTS
  | loadUserDict
  | unloadUserDict
  | textToFile
  | textToBuffer
  | setPitchSpeedVolumePause
  | setCommaPause
  | setParenthesisCharNumber
  | getTTSInfo
  | textToBufferEX
  deriving DecidableEq, Repr

/-- The symbol's name in the library, without the language. -/
def Sym.name : Sym → Text
  | .loadTTS => "VT_LOADTTS".toList
  | .unloadTTS => "VT_UNLOADTTS".toList
  | .loadUserDict => "VT_LOAD_UserDict".toList
  | .unloadUserDict => "VT_UNLOAD_UserDict".toList
  | .textToFile => "VT_TextToFile".toList
  | .textToBuffer => "VT_TextToBuffer".toList
  | .setPitchSpeedVolumePause => "VT_SetPitchSpeedVolumePause".toList
  | .setCommaPause => "VT_SetCommaPause".toList
  | .setParenthesisCharNumber => "VT_SetParenthesisCharNumber".toList
  | .getTTSInfo => "VT_GetTTSInfo".toList
  | .textToBufferEX => "VT_TextToBufferEX".toList

/-- `ENGINE_LANGUAGE`. -/
def engineLanguage : Text := "ENG".toList

/-- `sprintf(funcname, "<symbol>_%s", ENGINE_LANGUAGE)`. -/
def Sym.funcname (f : Sym) : Text := f.name ++ "_".toList ++ engineLanguage

/-- The order in which `loadLib` resolves the entry points. -/
def loadOrder : List Sym :=
  [.loadTTS, .unloadTTS, .loadUserDict, .unloadUserDict, .textToFile, .textToBuffer,
    .setPitchSpeedVolumePause, .setCommaPause, .setParenthesisCharNumber, .getTTSInfo,
    .textToBufferEX]

/-- `stSpec`: whether the handle and the function pointers are other than `NULL`. -/
structure LibSpec where
  handle : Bool
  func : Sym → Bool

/-- The zero-initialised `stSpec`. -/
def LibSpec.zero : LibSpec := ⟨false, fun _ => false⟩

/-- What the dynamic linker finds. -/
structure Linker where
  /-- `dlopen(LIBPATH, RTLD_LAZY)` succeeds. -/
  dlopen : Bool
  /-- `dlsym` finds the symbol. -/
  dlsym : Text → Bool

/-- Store what `dlsym` returned for one entry point. -/
def LibSpec.resolve (spec : LibSpec) (f : Sym) (found : Bool) : LibSpec :=
  { spec with func := fun g => if g = f then found else spec.func g }

/-- Resolve entry points in order until one is missing. -/
def loadSyms (dlsym : Text → Bool) : List Sym → LibSpec → LibSpec × Bool
  | [], spec => (spec, true)
  | f :: fs, spec =>
      let spec := spec.resolve f (dlsym f.funcname)
      if spec.func f then loadSyms dlsym fs spec else (spec, false)

/-- `loadLib()`: `stSpec` afterwards and the result. -/
def loadLib (ld : Linker) (spec : LibSpec) : LibSpec × Bool :=
  let spec := { spec with handle := ld.dlopen }
  if spec.handle then loadSyms ld.dlsym loadOrder spec else (spec, false)

/-- The linker finds the library and everything `loadLib` asks for. -/
def Linker.complete (ld : Linker) : Prop :=
  ld.dlopen = true ∧ ∀ f : Sym, ld.dlsym f.funcname = true

theorem mem_loadOrder (f : Sym) : f ∈ loadOrder := by
  cases f <;> decide

theorem loadSyms_cons (dlsym : Text → Bool) (f : Sym) (fs : List Sym) (spec : LibSpec) :
    loadSyms dlsym (f :: fs) spec =
      if dlsym f.funcname then loadSyms dlsym fs (spec.resolve f true)
      else (spec.resolve f false, false) := by
  cases h : dlsym f.funcname <;> simp [loadSyms, LibSpec.resolve, h]

theorem resolve_true {spec : LibSpec} {f g : Sym} (h : g = f ∨ spec.func g = true) :
    (spec.resolve f true).func g = true := by
  unfold LibSpec.resolve
  by_cases hgf : g = f
  · simp [hgf]
  · simpa [hgf] using h

theorem loadSyms_keeps {dlsym : Text → Bool} {fs : List Sym} {spec : LibSpec} {f : Sym}
    (h : (loadSyms dlsym fs spec).2 = true) (hf : spec.func f = true) :
    (loadSyms dlsym fs spec).1.func f = true := by
  induction fs generalizing spec with
  | nil => exact hf
  | cons g gs ih =>
    rw [loadSyms_cons] at h ⊢
    cases hg : dlsym g.funcname with
    | true =>
      simp only [hg, if_true] at h ⊢
      exact ih h (resolve_true (Or.inr hf))
    | false => simp [hg] at h

/-- A load that succeeds resolves every entry point it was asked for. -/
theorem loadSyms_func {dlsym : Text → Bool} {fs : List Sym} {spec : LibSpec}
    (h : (loadSyms dlsym fs spec).2 = true) {f : Sym} (hf : f ∈ fs) :
    (loadSyms dlsym fs spec).1.func f = true := by
  induction fs generalizing spec with
  | nil => cases hf
  | cons g gs ih =>
    rw [loadSyms_cons] at h ⊢
    cases hg : dlsym g.funcname with
    | true =>
      simp only [hg, if_true] at h ⊢
      rcases List.mem_cons.1 hf with rfl | hf
      · exact loadSyms_keeps h (resolve_true (Or.inl rfl))
      · exact ih h hf
    | false => simp [hg] at h

theorem loadSyms_ok {dlsym : Text → Bool} {fs : List Sym} {spec : LibSpec} :
    (loadSyms dlsym fs spec).2 = true ↔ ∀ f ∈ fs, dlsym f.funcname = true := by
  induction fs generalizing spec with
  | nil => simp [loadSyms]
  | cons g gs ih => cases hg : dlsym g.funcname <;> simp [loadSyms_cons, hg, ih]

theorem loadLib_eq (ld : Linker) (spec : LibSpec) :
    loadLib ld spec =
      if ld.dlopen then loadSyms ld.dlsym loadOrder { spec with handle := true }
      else ({ spec with handle := false }, false) := by
  cases h : ld.dlopen <;> simp [loadLib, h]

/-- **`loadLib` succeeds exactly when nothing is missing.** -/
theorem loadLib_ok {ld : Linker} {spec : LibSpec} :
    (loadLib ld spec).2 = true ↔ ld.complete := by
  rw [loadLib_eq, Linker.complete]
  cases ld.dlopen with
  | false => simp
  | true =>
    simp only [if_true, loadSyms_ok, true_and]
    exact ⟨fun h f => h f (mem_loadOrder f), fun h f _ => h f⟩

/-- After a successful `loadLib` every function pointer can be called. -/
theorem loadLib_func {ld : Linker} {spec : LibSpec} (h : (loadLib ld spec).2 = true) (f : Sym) :
    (loadLib ld spec).1.func f = true := by
  rw [loadLib_eq] at h ⊢
  cases hopen : ld.dlopen with
  | true =>
    simp only [hopen, if_true] at h ⊢
    exact loadSyms_func h (mem_loadOrder f)
  | false => simp [hopen] at h

theorem loadSyms_handle (dlsym : Text → Bool) (fs : List Sym) (spec : LibSpec) :
    (loadSyms dlsym fs spec).1.handle = spec.handle := by
  induction fs generalizing spec with
  | nil => rfl
  | cons f fs ih =>
    rw [loadSyms_cons]
    split
    · exact ih _
    · rfl

/-- A function pointer comes out of a library that is open. -/
theorem handle_of_loadLib {ld : Linker} {f : Sym} (h : (loadLib ld .zero).1.func f = true) :
    (loadLib ld .zero).1.handle = true := by
  rw [loadLib_eq] at h ⊢
  cases hopen : ld.dlopen with
  | true =>
    rw [if_pos rfl]
    exact loadSyms_handle _ _ _
  | false => simp [hopen, LibSpec.zero] at h

/-! ## What the engine and the allocator see -/

/-- A call of `VT_TextToBufferEX`, with the arguments `doSynthesize` varies and
what the call returned.  `caller` and `curIdx` are not passed: they say which
worker made the call, for which line. -/
structure SynthCall where
  caller : ℕ
  curIdx : Int
  /-- The C string `tts_text` points to, `NULL` for a call that opens the channel. -/
  ttsText : Option Text
  /-- `output_buff`, as a pointer value; 0 is `NULL`. -/
  outputBuff : ℕ
  /-- `flag`. -/
  frameflag : Int
  /-- `nThreadID`: the channel. -/
  threadNum : ℕ
  /-- `strSynthText`, as the worker holds it. -/
  line : Text
  rc : Int
  /-- `*output_len` after the call. -/
  nFramesize : Int
  deriving DecidableEq, Repr

/-- What happens at the border to the engine, in order. -/
inductive Event where
  /-- `loadLib` returned. -/
  | loadLib (ok : Bool)
  /-- `VT_LOADTTS` was called through a pointer that was resolved or not; it returned `rc`. -/
  | loadTTS (resolved : Bool) (rc : Int)
  /-- `VT_TextToBufferEX` was called. -/
  | synth (resolved : Bool) (call : SynthCall)
  /-- A worker allocated its frame buffer. -/
  | malloc (threadNum : ℕ) (size : ℕ) (framebuf : ℕ)
  /-- A worker freed its frame buffer. -/
  | free (threadNum : ℕ) (framebuf : ℕ)
  /-- `VT_UNLOADTTS` was called. -/
  | unloadTTS (resolved : Bool)
  /-- `dlclose` was called. -/
  | dlclose
  deriving DecidableEq, Repr

/-- What `unloadLib(handle)` calls.  It clears its parameter: `stSpec` keeps the handle. -/
def unloadLib (handle : Bool) : List Event := if handle then [.dlclose] else []

/-- The event belongs to loading and unloading the engine, not to a channel. -/
def Event.Quiet : Event → Prop
  | .loadLib _ | .loadTTS _ _ | .unloadTTS _ | .dlclose => True
  | .synth _ _ | .malloc _ _ _ | .free _ _ => False

end Engine
