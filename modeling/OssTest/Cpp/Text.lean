import Mathlib.Data.List.TakeWhile
import OssTest.Cpp.Int
import OssTest.Lib.Pieces

/-!
# `std::string`

A string is the list of its bytes, a byte being a character.  Searches return
the position found, `none` standing for `npos`; `posOf` is the `size_t` the
program sees.  Out-of-range positions throw, as `std::string` does.
-/

namespace Cpp

/-- A `std::string`: its bytes in order. -/
abbrev Text := List Char

/-- The exceptions of the standard library that the program can meet. -/
inductive StdException where
  | outOfRange
  | invalidArgument
  deriving DecidableEq, Repr

/-- The first occurrence of `pat`, counted from the front of the text. -/
def findAt (pat : Text) : Text → Option ℕ
  | [] => if pat = [] then some 0 else none
  | c :: cs => if pat.isPrefixOf (c :: cs) then some 0 else (findAt pat cs).map (· + 1)

/-- `text.find(pat, pos)`. -/
def find (text pat : Text) (pos : ℕ) : Option ℕ :=
  if pos ≤ text.length then (findAt pat (text.drop pos)).map (· + pos) else none

/-- `text.find_first_not_of(set)`. -/
def findFirstNotOf (text set : Text) : Option ℕ :=
  text.findIdx? fun c => !set.contains c

/-- `text.find_last_not_of(set)`. -/
def findLastNotOf (text set : Text) : Option ℕ :=
  (text.reverse.findIdx? fun c => !set.contains c).map fun i => text.length - 1 - i

/-- `text.find_first_of(set)`. -/
def findFirstOf (text set : Text) : Option ℕ :=
  text.findIdx? fun c => set.contains c

/-- The `size_t` a search returns. -/
def posOf : Option ℕ → ℕ
  | none => npos
  | some i => i

/-- `text.erase(pos, n)`. -/
def erase (text : Text) (pos n : ℕ) : Except StdException Text :=
  if text.length < pos then .error .outOfRange else .ok (text.take pos ++ text.drop (pos + n))

/-- `text.substr(pos, n)`. -/
def substr (text : Text) (pos n : ℕ) : Except StdException Text :=
  if text.length < pos then .error .outOfRange else .ok ((text.drop pos).take n)

/-- `text.replace(pos, n, to')` at a position inside the text. -/
def replaceAt (text : Text) (pos n : ℕ) (to' : Text) : Text :=
  text.take pos ++ to' ++ text.drop (pos + n)

/-- The C string held in a `char` array: the bytes before the first NUL. -/
def cstr (text : Text) : Text := text.takeWhile (· != '\x00')

/-- `%d`. -/
def fmtD (n : Int) : Text :=
  if n < 0 then '-' :: Nat.toDigits 10 n.natAbs else Nat.toDigits 10 n.natAbs

/-- `%.<p>d`: at least `p` digits. -/
def fmtPrecD (p : ℕ) (n : Int) : Text :=
  if n < 0 then '-' :: (Nat.toDigits 10 n.natAbs).leftpad p '0'
  else (Nat.toDigits 10 n.natAbs).leftpad p '0'

/-- `%0<w>d`: at least `w` characters. -/
def fmtWidthD (w : ℕ) (n : Int) : Text :=
  if n < 0 then '-' :: (Nat.toDigits 10 n.natAbs).leftpad (w - 1) '0'
  else (Nat.toDigits 10 n.natAbs).leftpad w '0'

/-! ## `substr` -/

theorem substr_of_le {text : Text} {pos n : ℕ} (h : pos ≤ text.length) :
    substr text pos n = .ok ((text.drop pos).take n) :=
  if_neg (not_lt.2 h)

/-- All that stands behind a first part. -/
theorem substr_append {u v : Text} (hlen : (u ++ v).length ≤ npos) :
    substr (u ++ v) u.length npos = .ok v := by
  rw [List.length_append] at hlen
  rw [substr_of_le (by simp), List.drop_left, List.take_of_length_le (by omega)]

/-! ## C strings -/

/-- A string is its own C string when it has no NUL in it. -/
theorem cstr_eq_self_iff {text : Text} : cstr text = text ↔ '\x00' ∉ text := by
  rw [cstr, List.takeWhile_eq_self_iff]
  constructor
  · intro h hmem
    exact absurd (h _ hmem) (by decide)
  · intro h c hc
    have hne : c ≠ '\x00' := fun heq => h (heq ▸ hc)
    simpa using hne

theorem cstr_prefix_self (text : Text) : cstr text <+: text := List.takeWhile_prefix _

theorem cstr_cstr (text : Text) : cstr (cstr text) = cstr text := by
  rw [cstr, cstr, List.takeWhile_idem]

/-- A first part without a NUL stays whole, -/
theorem cstr_append_of_not_mem {u : Text} (h : '\x00' ∉ u) (v : Text) :
    cstr (u ++ v) = u ++ cstr v := by
  have hall : ∀ c ∈ u, (c != '\x00') = true := by
    intro c hc
    have hne : c ≠ '\x00' := fun heq => h (heq ▸ hc)
    simpa using hne
  rw [cstr, List.takeWhile_append_of_pos hall]
  rfl

/-- and behind one with a NUL nothing is seen. -/
theorem cstr_append_of_mem {u : Text} (h : '\x00' ∈ u) (v : Text) : cstr (u ++ v) = cstr u := by
  rw [cstr, List.takeWhile_append, if_neg]
  · rfl
  · exact fun hlen => cstr_eq_self_iff.1 ((cstr_prefix_self u).eq_of_length hlen) h

/-! ## Exceptions -/

theorem ok_bind {ε α β : Type} (a : α) (f : α → Except ε β) : (Except.ok a >>= f) = f a := rfl

/-- Two steps throw nothing when neither does. -/
theorem bind_eq_ok_iff {ε α β : Type} {x : Except ε α} {f : α → Except ε β} {b : β} :
    (x >>= f) = .ok b ↔ ∃ a, x = .ok a ∧ f a = .ok b := by
  constructor
  · intro h
    cases x with
    | error e => cases h
    | ok a => exact ⟨a, rfl, h⟩
  · rintro ⟨a, rfl, h⟩
    exact h

theorem toOption_eq_some_iff {ε α : Type} {x : Except ε α} {a : α} :
    x.toOption = some a ↔ x = .ok a := by
  cases x <;> simp [Except.toOption]

/-! ## Searching -/

/-- The first occurrence stands where the text is to be cut. -/
theorem findAt_eq_cut (pat text : Text) :
    findAt pat text = (Pieces.cut pat text).map fun p => p.1.length := by
  induction text with
  | nil => by_cases h : pat = [] <;> simp [findAt, Pieces.cut, h]
  | cons c cs ih =>
    rw [findAt, Pieces.cut, ih]
    by_cases h : pat <+: c :: cs
    · rw [if_pos (List.isPrefixOf_iff_prefix.2 h), if_pos h]
      rfl
    · rw [if_neg (fun hp => h (List.isPrefixOf_iff_prefix.1 hp)), if_neg h, Option.map_map,
        Option.map_map]
      rfl

theorem findAt_eq_none_iff {pat text : Text} : findAt pat text = none ↔ ¬ pat <:+: text := by
  rw [findAt_eq_cut, Option.map_eq_none_iff, Pieces.cut_eq_none_iff]

/-- **`find` from the start decides the substring relation.** -/
theorem find_zero_ne_none_iff {text pat : Text} : find text pat 0 ≠ none ↔ pat <:+: text := by
  simp [find, findAt_eq_none_iff]

/-- A search that starts behind a part of the text. -/
theorem find_append (done rest pat : Text) :
    find (done ++ rest) pat done.length =
      (Pieces.cut pat rest).map fun p => p.1.length + done.length := by
  rw [find, if_pos (by simp), List.drop_left, findAt_eq_cut, Option.map_map]
  rfl

/-- A search from the start. -/
theorem find_zero (text pat : Text) :
    find text pat 0 = (Pieces.cut pat text).map fun p => p.1.length :=
  find_append [] text pat

theorem findFirstNotOf_eq_none_iff {text set : Text} :
    findFirstNotOf text set = none ↔ ∀ c ∈ text, c ∈ set := by
  simp [findFirstNotOf, List.findIdx?_eq_none_iff]

theorem findLastNotOf_eq_none_iff {text set : Text} :
    findLastNotOf text set = none ↔ ∀ c ∈ text, c ∈ set := by
  simp [findLastNotOf, List.findIdx?_eq_none_iff]

/-- `find_first_not_of` skips a part made of the set. -/
theorem findFirstNotOf_append {pre mid set : Text} (hpre : ∀ c ∈ pre, c ∈ set) (hne : mid ≠ [])
    (hhead : mid.head hne ∉ set) : findFirstNotOf (pre ++ mid) set = some pre.length := by
  have hskip : (pre.findIdx? fun c => !set.contains c) = none := findFirstNotOf_eq_none_iff.2 hpre
  have hfound : (mid.findIdx? fun c => !set.contains c) = some 0 := by
    rw [← List.cons_head_tail hne, List.findIdx?_cons, if_pos (by simpa using hhead)]
  rw [findFirstNotOf, List.findIdx?_append, hskip, hfound]
  simp

/-- `find_last_not_of` skips a part made of the set. -/
theorem findLastNotOf_append (pre : Text) {mid post set : Text} (hpost : ∀ c ∈ post, c ∈ set)
    (hne : mid ≠ []) (hlast : mid.getLast hne ∉ set) :
    findLastNotOf (pre ++ mid ++ post) set = some (pre.length + mid.length - 1) := by
  have hskip : (post.reverse.findIdx? fun c => !set.contains c) = none :=
    findFirstNotOf_eq_none_iff.2 fun c hc => hpost c (List.mem_reverse.1 hc)
  have hfound : ((mid.reverse ++ pre.reverse).findIdx? fun c => !set.contains c) = some 0 := by
    rw [← List.dropLast_concat_getLast hne, List.reverse_append, List.reverse_singleton,
      List.append_assoc, List.singleton_append, List.findIdx?_cons, if_pos (by simpa using hlast)]
  rw [findLastNotOf, List.reverse_append, List.reverse_append, List.findIdx?_append, hskip, hfound]
  simp only [Option.none_or, Option.map_some, List.length_append, List.length_reverse,
    Option.some.injEq]
  omega

/-- The character `find_first_not_of` stops at is outside the set. -/
theorem findFirstNotOf_spec {text set : Text} {i : ℕ} (h : findFirstNotOf text set = some i) :
    ∃ hi : i < text.length, text[i] ∉ set := by
  obtain ⟨hi, hp, -⟩ := List.findIdx?_eq_some_iff_getElem.1 h
  exact ⟨hi, by simpa using hp⟩

/-- In front of the character `find_first_not_of` stops at all are in the set. -/
theorem mem_set_of_findFirstNotOf {text set : Text} {i j : ℕ}
    (h : findFirstNotOf text set = some i) (hj : j ≤ i) : ∀ c ∈ text.take j, c ∈ set := by
  obtain ⟨hi, -, hbefore⟩ := List.findIdx?_eq_some_iff_getElem.1 h
  intro c hc
  obtain ⟨k, hk, rfl⟩ := List.mem_take_iff_getElem.1 hc
  simpa using hbefore k (by omega)

/-- The character `find_last_not_of` stops at is outside the set. -/
theorem findLastNotOf_spec {text set : Text} {i : ℕ} (h : findLastNotOf text set = some i) :
    ∃ hi : i < text.length, text[i] ∉ set := by
  simp only [findLastNotOf, Option.map_eq_some_iff] at h
  obtain ⟨j, hj, rfl⟩ := h
  obtain ⟨hjlt, hp, -⟩ := List.findIdx?_eq_some_iff_getElem.1 hj
  rw [List.length_reverse] at hjlt
  refine ⟨by omega, ?_⟩
  rw [List.getElem_reverse] at hp
  simpa using hp

/-- Erasing at the front never throws. -/
theorem erase_zero (text : Text) (n : ℕ) : erase text 0 n = .ok (text.drop n) := by
  simp [erase]

/-- Erasing to the end leaves the beginning. -/
theorem prefix_of_erase {text t : Text} {pos : ℕ} (hlen : text.length ≤ npos)
    (h : erase text pos npos = .ok t) : t <+: text := by
  unfold erase at h
  split at h
  · cases h
  · cases h
    rw [List.drop_of_length_le (hlen.trans (Nat.le_add_left _ _)), List.append_nil]
    exact List.take_prefix _ _

/-- Erasing adds nothing. -/
theorem mem_of_mem_erase {text t : Text} {pos n : ℕ} {c : Char} (h : erase text pos n = .ok t)
    (hc : c ∈ t) : c ∈ text := by
  unfold erase at h
  split at h
  · cases h
  · cases h
    rcases List.mem_append.1 hc with hc | hc
    · exact List.mem_of_mem_take hc
    · exact List.mem_of_mem_drop hc

/-! ## Decimal numbers -/

theorem isDigit_of_mem_toDigits {n : ℕ} {c : Char} (h : c ∈ Nat.toDigits 10 n) :
    c.isDigit = true :=
  Nat.isDigit_of_mem_toDigits (by norm_num) (by norm_num) h

theorem toDigits_injective {m n : ℕ} (h : Nat.toDigits 10 m = Nat.toDigits 10 n) : m = n := by
  rw [← Nat.ofDigitChars_ten_toDigits (n := m), h, Nat.ofDigitChars_ten_toDigits]

/-- A printed number is made of digits and a minus sign. -/
theorem mem_fmtD {n : Int} {c : Char} (h : c ∈ fmtD n) : c = '-' ∨ c.isDigit = true := by
  unfold fmtD at h
  split at h
  · rcases List.mem_cons.1 h with rfl | h
    · exact Or.inl rfl
    · exact Or.inr (isDigit_of_mem_toDigits h)
  · exact Or.inr (isDigit_of_mem_toDigits h)

theorem fmtD_ne_nil (n : Int) : fmtD n ≠ [] := by
  unfold fmtD
  split
  · exact List.cons_ne_nil _ _
  · exact Nat.toDigits_ne_nil

/-- How long a printed number gets. -/
theorem length_fmtD_le {n : Int} {k : ℕ} (hk : 0 < k) (h : n.natAbs < 10 ^ k) :
    (fmtD n).length ≤ k + 1 := by
  have hdigits : (Nat.toDigits 10 n.natAbs).length ≤ k :=
    (Nat.length_toDigits_le_iff (by norm_num) hk).2 h
  unfold fmtD
  split
  · rw [List.length_cons]
    omega
  · omega

theorem not_mem_fmtD {n : Int} {c : Char} (hdash : c ≠ '-') (hdig : c.isDigit = false) :
    c ∉ fmtD n := by
  intro h
  rcases mem_fmtD h with rfl | h
  · exact hdash rfl
  · rw [hdig] at h
    exact Bool.false_ne_true h

/-- **Different numbers print differently.** -/
theorem fmtD_injective {m n : Int} (h : fmtD m = fmtD n) : m = n := by
  have hdash : ∀ k : ℕ, ∀ t, Nat.toDigits 10 k ≠ '-' :: t := fun k t hk => by
    have : ('-' : Char).isDigit = true := isDigit_of_mem_toDigits (n := k) (by rw [hk]; simp)
    exact absurd this (by decide)
  unfold fmtD at h
  split at h <;> split at h
  · have := toDigits_injective (List.cons.inj h).2
    omega
  · exact absurd h.symm (hdash _ _)
  · exact absurd h (hdash _ _)
  · have := toDigits_injective h
    omega

end Cpp
