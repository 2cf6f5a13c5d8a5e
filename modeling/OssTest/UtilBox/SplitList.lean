import Mathlib.Data.List.Find
import OssTest.UtilBox.Split

/-!
# `splitList`

`splitList(strPhrase, listItems, strDivList)` is to cut a text at every character of
`strDivList`.  It cuts at the first of them and calls itself with the others on the pieces.
The call that has none left returns `false`, and the piece it was given is dropped; what
stands behind the last cut is not cut any further.

* `splitList_found` — which pieces it finds.
* `found_eq_iff` — when these are all of them: `Recovered`.
* `splitList_iff` — the same for the function, whose counts are kept in an `int`.
-/

namespace UtilBox

open Cpp Pieces

/-- What stops a `std::vector`. -/
inductive VectorError where
  | lengthError
  /-- Writing in front of the first element or behind the last: undefined behaviour. -/
  | outOfBounds
  deriving DecidableEq, Repr

/-- `listItems.resize(n)`. -/
def resize (listItems : List Text) (n : ℕ) : List Text :=
  listItems.take n ++ List.replicate (n - listItems.length) []

/-- `std::copy` of `items` to the elements from `pos` on. -/
def copyTo (listItems items : List Text) (pos : ℕ) : List Text :=
  listItems.take pos ++ items ++ listItems.drop (pos + items.length)

/-- Lines 131 to 133: make room behind the items and copy the pieces there. -/
def appendItems (listItems preListItems : List Text) : Except VectorError (List Text) :=
  let sizeofList := toInt listItems.length
  let size := toInt (sizeofList + toInt preListItems.length)
  if size < 0 then .error .lengthError
  else if sizeofList < 0 ∨ size < sizeofList + preListItems.length then .error .outOfBounds
  else .ok (copyTo (resize listItems size.toNat) preListItems sizeofList.toNat)

/-- Lines 130 to 134: the pieces are kept if the call for them returned `true`. -/
def keepPieces (listItems : List Text) : Bool × List Text → Except VectorError (List Text)
  | (kept, preListItems) => if kept then appendItems listItems preListItems else .ok listItems

/-- The loop of `splitList`; `index` is the position last found, and `splitPre` the call
for a piece. -/
def splitListLoop (splitPre : Text → Option (Except VectorError (Bool × List Text))) (div : Char) :
    ℕ → Text → Option ℕ → List Text → Option (Except VectorError (Bool × List Text))
  | _, strNext, none, listItems => some (.ok (true, listItems ++ [strNext]))
  | 0, _, some _, _ => none
  | n + 1, strNext, some index, listItems =>
      let strNext' := strNext.drop (index + 1)
      (splitPre (strNext.take index)).bind fun result =>
        match result.bind (keepPieces listItems) with
        | .error e => some (.error e)
        | .ok listItems => splitListLoop splitPre div n strNext' (find strNext' [div] 0) listItems

/-- `splitList(strPhrase, listItems, strDivList)`: the result and `listItems` afterwards. -/
def splitList : Text → List Text → Text → Option (Except VectorError (Bool × List Text))
  | _, listItems, [] => some (.ok (false, listItems))
  | strPhrase, listItems, div :: strDivList =>
      splitListLoop (fun strPre => splitList strPre [] strDivList) div (strPhrase.length + 1)
        strPhrase (find strPhrase [div] 0) listItems

/-! ## Appending -/

/-- What an `int` can count is appended. -/
theorem appendItems_of_fits {listItems preListItems : List Text}
    (h : listItems.length + preListItems.length < 2 ^ 31) :
    appendItems listItems preListItems = .ok (listItems ++ preListItems) := by
  have hsize : toInt ((listItems.length : Int) + preListItems.length) =
      ((listItems.length + preListItems.length : ℕ) : Int) := by
    rw [← Nat.cast_add]
    exact toInt_natCast_of_lt h
  unfold appendItems
  dsimp only
  rw [toInt_natCast_of_lt (n := listItems.length) (by omega),
    toInt_natCast_of_lt (n := preListItems.length) (by omega), hsize, if_neg (by omega),
    if_neg (by push_cast; omega), Int.toNat_natCast, Int.toNat_natCast, resize,
    List.take_of_length_le (by omega), copyTo, List.take_left, List.drop_of_length_le (by simp),
    List.append_nil]

/-- Appending leaves no more than an `int` can count. -/
theorem length_of_appendItems {listItems preListItems r : List Text}
    (h : appendItems listItems preListItems = .ok r) : r.length < 2 ^ 31 := by
  unfold appendItems at h
  dsimp only at h
  have hbound := (toInt_bounds (toInt listItems.length + toInt preListItems.length)).2
  split_ifs at h with hneg hout
  obtain rfl := Except.ok.inj h
  have hlen : ∀ n, (resize listItems n).length = n := by
    intro n
    rw [resize, List.length_append, List.length_take, List.length_replicate]
    omega
  rw [copyTo, List.length_append, List.length_append, List.length_take, List.length_drop, hlen]
  omega

/-! ## The pieces that are found -/

/-- Cut at `div`, with `f` for the pieces in front of a cut. -/
def gather (f : Text → List Text) (div : Char) (phrase : Text) : List Text :=
  (phrase.splitOn div).dropLast.flatMap f ++ [(phrase.splitOn div).getLastD []]

/-- The pieces that `splitList` finds. -/
def found : Text → Text → List Text
  | [], _ => []
  | div :: strDivList, phrase => gather (found strDivList) div phrase

theorem gather_of_not_mem {f : Text → List Text} {div : Char} {phrase : Text} (h : div ∉ phrase) :
    gather f div phrase = [phrase] := by
  rw [gather, List.splitOn_eq_singleton h]
  rfl

theorem gather_append {f : Text → List Text} {div : Char} {u : Text} (h : div ∉ u) (v : Text) :
    gather f div (u ++ div :: v) = f u ++ gather f div v := by
  obtain ⟨x, xs, hx⟩ := List.exists_cons_of_ne_nil (List.splitOn_ne_nil div v)
  rw [gather, gather, List.splitOn_append_cons_self_of_not_mem h, hx]
  simp

/-- By induction on what stands behind the first `div`. -/
theorem cut_induction (div : Char) {P : Text → Prop} (last : ∀ phrase, div ∉ phrase → P phrase)
    (cons : ∀ u v, div ∉ u → P v → P (u ++ div :: v)) (phrase : Text) : P phrase := by
  induction phrase using pieces_induction (List.cons_ne_nil div []) with
  | last phrase hno => exact last phrase fun h => hno ((List.singleton_infix_iff _ _).2 h)
  | cons phrase u v hcut ih =>
    have hu : div ∉ u := fun h =>
      not_infix_of_cut (List.cons_ne_nil _ _) hcut ((List.singleton_infix_iff _ _).2 h)
    have happ := cons u v hu ih
    rw [eq_of_cut hcut, List.append_assoc]
    exact happ

section Loop

variable {splitPre : Text → Option (Except VectorError (Bool × List Text))} {div : Char}
  {listItems : List Text}

theorem find_div_of_not_mem {strNext : Text} (h : div ∉ strNext) : find strNext [div] 0 = none := by
  by_contra hsome
  exact h ((List.singleton_infix_iff _ _).1 (find_zero_ne_none_iff.1 hsome))

theorem find_div_append {u : Text} (h : div ∉ u) (v : Text) :
    find (u ++ div :: v) [div] 0 = some u.length := by
  rw [find_zero, cut_singleton h]
  rfl

/-- One round: the piece in front of the cut is handed on, and the loop goes on behind
it. -/
theorem splitListLoop_append {u : Text} (hu : div ∉ u) (v : Text) (n : ℕ) :
    splitListLoop splitPre div (n + 1) (u ++ div :: v) (find (u ++ div :: v) [div] 0) listItems =
      (splitPre u).bind fun result =>
        match result.bind (keepPieces listItems) with
        | .error e => some (.error e)
        | .ok listItems => splitListLoop splitPre div n v (find v [div] 0) listItems := by
  have hdrop : (u ++ div :: v).drop (u.length + 1) = v := by
    rw [← List.drop_drop, List.drop_left, List.drop_one, List.tail_cons]
  rw [find_div_append hu, splitListLoop, hdrop, List.take_left]

/-- The loop finds what is to be gathered, as long as an `int` can count it. -/
theorem splitListLoop_gather {f : Text → List Text} {kept : Bool}
    (hpre : ∀ u, (f u).length ≤ 2 ^ 31 → splitPre u = some (.ok (kept, f u)))
    (hkept : kept = false → ∀ u, f u = []) {n : ℕ} {strNext : Text} (hn : strNext.length < n)
    (hfit : kept = true → div ∈ strNext →
      listItems.length + (gather f div strNext).length ≤ 2 ^ 31) :
    splitListLoop splitPre div n strNext (find strNext [div] 0) listItems =
      some (.ok (true, listItems ++ gather f div strNext)) := by
  induction strNext using cut_induction div generalizing n listItems with
  | last strNext hno =>
    rw [find_div_of_not_mem hno, splitListLoop, gather_of_not_mem hno]
  | cons u v hu ih =>
    obtain ⟨n, rfl⟩ : ∃ m, n = m + 1 := ⟨n - 1, by omega⟩
    have hv : v.length < n := by
      rw [List.length_append, List.length_cons] at hn
      omega
    have hbound : kept = true →
        listItems.length + (f u).length + (gather f div v).length ≤ 2 ^ 31 := by
      intro hkeep
      have hall := hfit hkeep (by simp)
      rwa [gather_append hu, List.length_append, ← Nat.add_assoc] at hall
    have hlast : 0 < (gather f div v).length := by
      rw [gather, List.length_append, List.length_singleton]
      omega
    have hsmall : (f u).length ≤ 2 ^ 31 ∧
        keepPieces listItems (kept, f u) = .ok (listItems ++ f u) := by
      cases kept with
      | false => simp [keepPieces, hkept rfl u]
      | true =>
        have hfits := hbound rfl
        refine ⟨by omega, ?_⟩
        rw [keepPieces, if_pos rfl]
        exact appendItems_of_fits (by omega)
    rw [splitListLoop_append hu, hpre u hsmall.1, Option.bind_some, Except.bind, hsmall.2]
    dsimp only
    rw [gather_append hu, ih hv ?_, List.append_assoc]
    intro hkeep _
    rw [List.length_append]
    exact hbound hkeep

/-- The loop returns `true`. -/
theorem splitListLoop_true {n : ℕ} {strNext : Text} {index : Option ℕ} {b : Bool}
    {r : List Text} (h : splitListLoop splitPre div n strNext index listItems = some (.ok (b, r))) :
    b = true := by
  induction n generalizing strNext index listItems with
  | zero =>
    cases index with
    | none =>
      cases h
      rfl
    | some index => cases h
  | succ n ih =>
    cases index with
    | none =>
      cases h
      rfl
    | some index =>
      rw [splitListLoop] at h
      obtain ⟨result, -, h⟩ := Option.bind_eq_some_iff.1 h
      split at h
      · cases h
      · exact ih h

/-- What the loop has copied is no more than an `int` can count. -/
theorem splitListLoop_ok (hpre : ∀ u b r, splitPre u = some (.ok (b, r)) → b = true) {n : ℕ}
    {strNext : Text} {b : Bool} {r : List Text}
    (h : splitListLoop splitPre div n strNext (find strNext [div] 0) listItems = some (.ok (b, r)))
    (hlen : listItems.length < 2 ^ 31 ∨ div ∈ strNext) : r.length ≤ 2 ^ 31 := by
  induction strNext using cut_induction div generalizing n listItems with
  | last strNext hno =>
    rw [find_div_of_not_mem hno, splitListLoop] at h
    cases h
    rw [List.length_append, List.length_singleton]
    exact hlen.resolve_right hno
  | cons u v hu ih =>
    cases n with
    | zero =>
      rw [find_div_append hu] at h
      cases h
    | succ n =>
      rw [splitListLoop_append hu] at h
      obtain ⟨result, hresult, h⟩ := Option.bind_eq_some_iff.1 h
      cases result with
      | error e => cases h
      | ok r' =>
        obtain ⟨kept, preListItems⟩ := r'
        obtain rfl : kept = true := hpre _ _ _ hresult
        rw [Except.bind, keepPieces, if_pos rfl] at h
        cases happ : appendItems listItems preListItems with
        | error e =>
          rw [happ] at h
          cases h
        | ok listItems =>
          rw [happ] at h
          exact ih h (Or.inl (length_of_appendItems happ))

end Loop

/-- **Which pieces `splitList` finds**, as long as an `int` can count what is copied. -/
theorem splitList_found (div : Char) (strDivList strPhrase : Text) (listItems : List Text)
    (hfit : strDivList ≠ [] → div ∈ strPhrase →
      listItems.length + (found (div :: strDivList) strPhrase).length ≤ 2 ^ 31) :
    splitList strPhrase listItems (div :: strDivList) =
      some (.ok (true, listItems ++ found (div :: strDivList) strPhrase)) := by
  induction strDivList generalizing div strPhrase listItems with
  | nil =>
    have hpre : ∀ u, (found [] u).length ≤ 2 ^ 31 →
        splitList u [] [] = some (.ok (false, found [] u)) := fun _ _ => rfl
    exact splitListLoop_gather hpre (fun _ _ => rfl) (Nat.lt_succ_self _) nofun
  | cons div' strDivList ih =>
    have hpre : ∀ u, (found (div' :: strDivList) u).length ≤ 2 ^ 31 →
        splitList u [] (div' :: strDivList) = some (.ok (true, found (div' :: strDivList) u)) := by
      intro u hu
      refine ih div' u [] fun _ _ => ?_
      rw [List.length_nil, Nat.zero_add]
      exact hu
    exact splitListLoop_gather hpre nofun (Nat.lt_succ_self _)
      fun _ hmem => hfit (List.cons_ne_nil _ _) hmem

theorem splitList_returns_true {div : Char} {strDivList strPhrase : Text}
    {listItems : List Text} {b : Bool} {r : List Text}
    (h : splitList strPhrase listItems (div :: strDivList) = some (.ok (b, r))) : b = true :=
  splitListLoop_true h

/-- Whatever is copied, an `int` can count it. -/
theorem length_of_splitList {div : Char} {strDivList strPhrase : Text} {listItems : List Text}
    {b : Bool} {r : List Text} (hne : strDivList ≠ []) (hmem : div ∈ strPhrase)
    (h : splitList strPhrase listItems (div :: strDivList) = some (.ok (b, r))) :
    r.length ≤ 2 ^ 31 := by
  obtain ⟨div', rest, rfl⟩ := List.exists_cons_of_ne_nil hne
  exact splitListLoop_ok (fun u b r => splitList_returns_true) h (Or.inr hmem)

/-! ## When these are all pieces -/

/-- The pieces between the delimiters. -/
def cutAt (strDivList phrase : Text) : List Text :=
  phrase.splitOnP fun c => strDivList.contains c

theorem length_cutAt (strDivList phrase : Text) :
    (cutAt strDivList phrase).length = (phrase.countP fun c => strDivList.contains c) + 1 :=
  length_splitOnP _ _

theorem cutAt_cons_of_not_mem {div : Char} (strDivList : Text) {u : Text} (h : div ∉ u) :
    cutAt (div :: strDivList) u = cutAt strDivList u := by
  refine splitOnP_congr fun c hc => ?_
  have hne : c ≠ div := fun heq => h (heq ▸ hc)
  simp [hne]

theorem cutAt_append {div : Char} (strDivList : Text) {u : Text} (h : div ∉ u) (v : Text) :
    cutAt (div :: strDivList) (u ++ div :: v) =
      cutAt strDivList u ++ cutAt (div :: strDivList) v := by
  rw [← cutAt_cons_of_not_mem strDivList h]
  exact List.splitOnP_append_cons u v (by simp)

theorem cutAt_eq_singleton_iff {strDivList phrase : Text} :
    cutAt strDivList phrase = [phrase] ↔ ∀ a ∈ strDivList, a ∉ phrase := by
  rw [cutAt, splitOnP_eq_singleton_iff]
  constructor
  · intro h a ha hmem
    have := h a hmem
    simp [ha] at this
  · intro h c hc
    have hno : c ∉ strDivList := fun hin => h c hin hc
    simpa using hno

/-- There are no more pieces found than there are. -/
theorem length_found_le (strDivList phrase : Text) :
    (found strDivList phrase).length ≤ (cutAt strDivList phrase).length := by
  induction strDivList generalizing phrase with
  | nil => exact Nat.zero_le _
  | cons div strDivList ih =>
    induction phrase using cut_induction div with
    | last phrase hno =>
      rw [found, gather_of_not_mem hno, length_cutAt]
      exact Nat.le_add_left _ _
    | cons u v hu ihv =>
      rw [found] at ihv ⊢
      rw [gather_append hu, cutAt_append _ hu, List.length_append, List.length_append]
      exact Nat.add_le_add (ih u) ihv

/-- What `splitList` needs to find all pieces: the delimiter listed last does not occur, and
behind each other one comes, of those listed before it, the one listed directly before it
first. -/
structure Recovered (strDivList phrase : Text) : Prop where
  last : ∃ z, strDivList.getLast? = some z ∧ z ∉ phrase
  next : ∀ pre b a post, strDivList = pre ++ b :: a :: post → ∀ u v, phrase = u ++ a :: v →
    v.find? (fun c => (pre ++ [b]).contains c) = some b

section Recovered

variable {div : Char} {strDivList u v phrase : Text}

theorem Recovered.not_mem (h : Recovered (div :: strDivList) phrase) (hdiv : div ∉ phrase) :
    ∀ a ∈ div :: strDivList, a ∉ phrase := by
  have hpre : ∀ pre a post, div :: strDivList = pre ++ a :: post → a ∉ phrase := by
    intro pre
    induction pre using List.reverseRecOn with
    | nil =>
      intro a post heq
      rw [← (List.cons.inj heq).1]
      exact hdiv
    | append_singleton pre b ih =>
      intro a post heq hmem
      rw [List.append_assoc, List.singleton_append] at heq
      obtain ⟨x, y, rfl⟩ := List.append_of_mem hmem
      have hb := List.mem_of_find?_eq_some (h.next pre b a post heq x y rfl)
      exact ih b (a :: post) heq (List.mem_append_right _ (List.mem_cons_of_mem _ hb))
  intro a ha
  obtain ⟨pre, post, heq⟩ := List.append_of_mem ha
  exact hpre pre a post heq

theorem recovered_of_not_mem (hdiv : div ∉ phrase) :
    Recovered (div :: strDivList) phrase ↔ ∀ a ∈ strDivList, a ∉ phrase := by
  constructor
  · exact fun h a ha => h.not_mem hdiv a (List.mem_cons_of_mem _ ha)
  · intro h
    have hall : ∀ a ∈ div :: strDivList, a ∉ phrase := List.forall_mem_cons.2 ⟨hdiv, h⟩
    refine ⟨⟨_, List.getLast?_eq_getLast_of_ne_nil (List.cons_ne_nil _ _), ?_⟩, ?_⟩
    · exact hall _ (List.getLast_mem _)
    · rintro pre b a post heq x y rfl
      exact absurd (by simp) (hall a (by rw [heq]; simp))

/-- Behind a piece comes the delimiter listed first, which is listed before all others. -/
theorem find?_append_div {pre y : Text} {b : Char} (hy : div ∉ y) (hb : b ≠ div) (v : Text) :
    (y ++ div :: v).find? (fun c => ((div :: pre) ++ [b]).contains c) = some b ↔
      y.find? (fun c => (pre ++ [b]).contains c) = some b := by
  have hsame : (y.find? fun c => ((div :: pre) ++ [b]).contains c) =
      y.find? fun c => (pre ++ [b]).contains c := by
    refine List.find?_congr fun c hc => ?_
    have hne : c ≠ div := fun heq => hy (heq ▸ hc)
    simp [hne]
  rw [List.find?_append, hsame]
  cases y.find? fun c => (pre ++ [b]).contains c with
  | none => simp [hb.symm]
  | some c => simp

theorem Recovered.of_append (hdiv : div ∉ strDivList) (hu : div ∉ u)
    (h : Recovered (div :: strDivList) (u ++ div :: v)) :
    Recovered strDivList u ∧ Recovered (div :: strDivList) v := by
  obtain ⟨⟨z, hz, hlast⟩, hnext⟩ := h
  rw [List.mem_append, List.mem_cons, not_or, not_or] at hlast
  obtain ⟨hlastu, hlastdiv, hlastv⟩ := hlast
  have hne : strDivList ≠ [] := by
    rintro rfl
    exact hlastdiv (Option.some.inj hz).symm
  refine ⟨⟨⟨z, ?_, hlastu⟩, ?_⟩, ⟨⟨z, hz, hlastv⟩, ?_⟩⟩
  · rwa [List.getLast?_cons_of_ne_nil hne] at hz
  · rintro pre b a post rfl x y rfl
    have hy : div ∉ y := fun h => hu (List.mem_append_right _ (List.mem_cons_of_mem _ h))
    have hb : b ≠ div := by
      rintro rfl
      exact hdiv (by simp)
    refine (find?_append_div hy hb v).1 ?_
    exact hnext (div :: pre) b a post rfl x (y ++ div :: v) (by simp)
  · rintro pre b a post heq x y rfl
    exact hnext pre b a post heq (u ++ div :: x) y (by simp)

/-- What comes behind a delimiter in the piece in front of a cut. -/
theorem Recovered.find?_piece (h : Recovered strDivList u) (hdiv : div ∉ strDivList)
    (hu : div ∉ u) {pre post : Text} {a b : Char}
    (heq : div :: strDivList = pre ++ b :: a :: post) {x w : Text} (hx : u = x ++ a :: w)
    (v : Text) : (w ++ div :: v).find? (fun c => (pre ++ [b]).contains c) = some b := by
  subst hx
  have hw : div ∉ w := fun h => hu (List.mem_append_right _ (List.mem_cons_of_mem _ h))
  cases pre with
  | nil =>
    obtain ⟨rfl, -⟩ := List.cons.inj heq
    have hnone : w.find? (fun c => [div].contains c) = none := by
      rw [List.find?_eq_none]
      intro c hc
      have hne : c ≠ div := fun heq => hw (heq ▸ hc)
      simpa using hne
    rw [List.nil_append, List.find?_append, hnone]
    simp
  | cons d pre =>
    obtain ⟨rfl, hlist⟩ := List.cons.inj heq
    have hb : b ≠ div := by
      rintro rfl
      exact hdiv (by rw [hlist]; simp)
    exact (find?_append_div hw hb v).2 (h.next pre b a post hlist x w rfl)

theorem Recovered.append (hdiv : div ∉ strDivList) (hu : div ∉ u) (hpiece : Recovered strDivList u)
    (hrest : Recovered (div :: strDivList) v) : Recovered (div :: strDivList) (u ++ div :: v) := by
  obtain ⟨z, hz, hlastu⟩ := hpiece.last
  obtain ⟨z', hz', hlastv⟩ := hrest.last
  have hne : strDivList ≠ [] := by
    rintro rfl
    cases hz
  obtain rfl : z = z' := by
    rw [List.getLast?_cons_of_ne_nil hne, hz] at hz'
    exact Option.some.inj hz'
  refine ⟨⟨z, hz', ?_⟩, ?_⟩
  · rw [List.mem_append, List.mem_cons, not_or, not_or]
    exact ⟨hlastu, fun heq => hdiv (heq ▸ List.mem_of_getLast? hz), hlastv⟩
  · intro pre b a post heq x y happ
    have ha : a ≠ div := by
      rintro rfl
      cases pre with
      | nil => exact hdiv (by rw [(List.cons.inj heq).2]; simp)
      | cons d pre => exact hdiv (by rw [(List.cons.inj heq).2]; simp)
    rcases List.append_eq_append_iff.1 happ with ⟨w, rfl, hw⟩ | ⟨w, hx, hw⟩
    · -- the delimiter stands in the rest
      cases w with
      | nil => exact absurd (List.cons.inj hw).1.symm ha
      | cons c w =>
        obtain ⟨-, rfl⟩ := List.cons.inj hw
        exact hrest.next pre b a post heq w y rfl
    · -- it stands in the piece
      cases w with
      | nil => exact absurd (List.cons.inj hw).1 ha
      | cons c w =>
        obtain ⟨rfl, rfl⟩ := List.cons.inj hw
        exact hpiece.find?_piece hdiv hu heq hx v

/-- A cut at the delimiter listed first. -/
theorem recovered_append (hdiv : div ∉ strDivList) (hu : div ∉ u) :
    Recovered (div :: strDivList) (u ++ div :: v) ↔
      Recovered strDivList u ∧ Recovered (div :: strDivList) v :=
  ⟨fun h => h.of_append hdiv hu, fun h => h.1.append hdiv hu h.2⟩

end Recovered

/-- Two parts that are no longer than two others make the same list when they are the
same. -/
theorem append_eq_append_of_length_le {α : Type*} {a a' b b' : List α}
    (ha : a.length ≤ a'.length) (hb : b.length ≤ b'.length) :
    a ++ b = a' ++ b' ↔ a = a' ∧ b = b' := by
  constructor
  · intro h
    have hlen := congrArg List.length h
    rw [List.length_append, List.length_append] at hlen
    exact List.append_inj h (by omega)
  · rintro ⟨rfl, rfl⟩
    rfl

/-- **When all pieces are found.** -/
theorem found_eq_iff {strDivList : Text} (hnodup : strDivList.Nodup) (phrase : Text) :
    found strDivList phrase = cutAt strDivList phrase ↔ Recovered strDivList phrase := by
  induction strDivList generalizing phrase with
  | nil =>
    refine iff_of_false ?_ ?_
    · exact fun h => List.splitOnP_ne_nil _ _ h.symm
    · rintro ⟨⟨z, hz, -⟩, -⟩
      cases hz
  | cons div strDivList ih =>
    have hdiv : div ∉ strDivList := (List.nodup_cons.1 hnodup).1
    induction phrase using cut_induction div with
    | last phrase hno =>
      rw [found, gather_of_not_mem hno, cutAt_cons_of_not_mem _ hno, eq_comm,
        cutAt_eq_singleton_iff, recovered_of_not_mem hno]
    | cons u v hu ihv =>
      have hlen := length_found_le (div :: strDivList) v
      rw [found] at ihv hlen ⊢
      rw [gather_append hu, cutAt_append _ hu,
        append_eq_append_of_length_le (length_found_le strDivList u) hlen,
        recovered_append hdiv hu]
      exact and_congr (ih (List.nodup_cons.1 hnodup).2 u) ihv

/-- **When `splitList` splits at every listed delimiter.**  For every text, all items that
are there already, and every non-empty list of distinct delimiters: it returns `true` and
appends the pieces between the delimiters exactly when all pieces are found, and the items
it copies, if there are any, stay below what an `int` can count. -/
theorem splitList_iff (strPhrase strDivList : Text) (listItems : List Text)
    (hne : strDivList ≠ []) (hnodup : strDivList.Nodup) :
    splitList strPhrase listItems strDivList =
        some (.ok (true, listItems ++ cutAt strDivList strPhrase)) ↔
      Recovered strDivList strPhrase ∧ ((∃ c ∈ strDivList, c ∈ strPhrase) →
        listItems.length + (strPhrase.countP fun c => strDivList.contains c) < 2 ^ 31) := by
  obtain ⟨div, strDivList, rfl⟩ := List.exists_cons_of_ne_nil hne
  rw [← found_eq_iff hnodup]
  have hle := length_found_le (div :: strDivList) strPhrase
  have hcount := length_cutAt (div :: strDivList) strPhrase
  constructor
  · intro h
    have hbound : strDivList ≠ [] → div ∈ strPhrase →
        listItems.length + (cutAt (div :: strDivList) strPhrase).length ≤ 2 ^ 31 := by
      intro hrest hmem
      have hlen := length_of_splitList hrest hmem h
      rwa [List.length_append] at hlen
    rw [splitList_found div strDivList strPhrase listItems fun hrest hmem =>
      le_trans (Nat.add_le_add_left hle _) (hbound hrest hmem)] at h
    have hfound : found (div :: strDivList) strPhrase = cutAt (div :: strDivList) strPhrase := by
      simpa using h
    refine ⟨hfound, ?_⟩
    rintro ⟨c, hc, hmem⟩
    have hrec := (found_eq_iff hnodup strPhrase).1 hfound
    have hdiv : div ∈ strPhrase := by
      by_contra hno
      exact hrec.not_mem hno c hc hmem
    have hrest : strDivList ≠ [] := by
      rintro rfl
      obtain ⟨z, hz, hlast⟩ := hrec.last
      exact hlast (Option.some.inj hz ▸ hdiv)
    have := hbound hrest hdiv
    omega
  · rintro ⟨hfound, hbound⟩
    rw [← hfound]
    refine splitList_found div strDivList strPhrase listItems fun _ hmem => ?_
    have := hbound ⟨div, List.mem_cons_self, hmem⟩
    omega

/-- Both delimiters are listed, and only the first one occurs. -/
theorem splitList_iff_commas :
    splitList "a,b".toList [] ",;".toList =
        some (.ok (true, [] ++ cutAt ",;".toList "a,b".toList)) ↔
      Recovered ",;".toList "a,b".toList ∧ ((∃ c ∈ ",;".toList, c ∈ "a,b".toList) →
        ([] : List Text).length + ("a,b".toList.countP fun c => ",;".toList.contains c) < 2 ^ 31) :=
  splitList_iff "a,b".toList ",;".toList [] (by decide) (by decide)

/-- With one delimiter, everything in front of the last one is lost. -/
theorem comma_loses_piece :
    splitList "a,b".toList [] ",".toList = some (.ok (true, ["b".toList])) ∧
      cutAt ",".toList "a,b".toList = ["a".toList, "b".toList] ∧
      splitList "a,b".toList [] ",".toList ≠
        some (.ok (true, [] ++ cutAt ",".toList "a,b".toList)) := by
  decide +kernel

end UtilBox
