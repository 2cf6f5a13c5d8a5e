import Mathlib.Data.List.Basic
import Mathlib.Data.Nat.ModEq
import Mathlib.Tactic.Ring

/-!
# Every n-th element

`stride n l` is what is met in a list by steps of `n` from its first element; `everyNth n l`
is the last of every `n` elements.

* `getElem?_stride`, `length_stride` — where the elements stand, and how many there are.
* `stride_concat`, `everyNth_concat` — one more element behind the list.
-/

namespace Stride

variable {α : Type*}

/-- The elements at 0, `n`, `2 * n` and so on. -/
def stride (n : ℕ) : List α → List α
  | [] => []
  | x :: l => x :: stride n (l.drop (n - 1))
termination_by l => l.length

/-- The elements at `n - 1`, `2 * n - 1` and so on. -/
def everyNth (n : ℕ) (l : List α) : List α := stride n (l.drop (n - 1))

@[simp] theorem stride_nil (n : ℕ) : stride n ([] : List α) = [] := by
  rw [stride]

theorem stride_cons (n : ℕ) (x : α) (l : List α) :
    stride n (x :: l) = x :: stride n (l.drop (n - 1)) := by
  rw [stride]

@[simp] theorem everyNth_nil (n : ℕ) : everyNth n ([] : List α) = [] := by
  rw [everyNth, List.drop_nil, stride_nil]

variable {n : ℕ}

/-- **Where the elements stand.** -/
theorem getElem?_stride (hn : 0 < n) (l : List α) (j : ℕ) : (stride n l)[j]? = l[j * n]? := by
  induction j generalizing l with
  | zero => cases l <;> simp [stride_cons]
  | succ j ih =>
    cases l with
    | nil => simp
    | cons x l =>
      have hidx : (j + 1) * n = (n - 1 + j * n) + 1 := by
        rw [Nat.succ_mul]
        omega
      rw [stride_cons, List.getElem?_cons_succ, ih, List.getElem?_drop, hidx,
        List.getElem?_cons_succ]

/-- **How many there are.** -/
theorem length_stride (hn : 0 < n) (l : List α) :
    (stride n l).length = (l.length + (n - 1)) / n := by
  fun_induction stride n l with
  | case1 => rw [List.length_nil, zero_add, Nat.div_eq_of_lt (by omega)]
  | case2 x l ih =>
    rw [List.length_cons, ih, List.length_drop, List.length_cons]
    by_cases hle : n - 1 ≤ l.length
    · rw [Nat.sub_add_cancel hle, ← Nat.add_div_right _ hn]
      congr 1
      omega
    · have hzero : l.length - (n - 1) + (n - 1) = n - 1 := by omega
      rw [hzero, Nat.div_eq_of_lt (by omega), Nat.div_eq_of_lt_le] <;> omega

/-- A step of one leaves nothing out. -/
theorem stride_one (l : List α) : stride 1 l = l :=
  List.ext_getElem? fun j => by rw [getElem?_stride (by decide), Nat.mul_one]

theorem dvd_length_drop (hn : 0 < n) {l : List α} (hle : n - 1 ≤ l.length) :
    n ∣ (l.drop (n - 1)).length ↔ n ∣ l.length + 1 := by
  rw [List.length_drop, show l.length + 1 = l.length - (n - 1) + n by omega]
  exact (Nat.dvd_add_left (dvd_refl n)).symm

/-- One more element is met when the steps lead to it. -/
theorem stride_concat (hn : 0 < n) (l : List α) (x : α) :
    stride n (l ++ [x]) = if n ∣ l.length then stride n l ++ [x] else stride n l := by
  fun_induction stride n l with
  | case1 => simp [stride_cons]
  | case2 y l ih =>
    rw [List.cons_append, stride_cons, List.length_cons]
    by_cases hle : n - 1 ≤ l.length
    · rw [List.drop_append_of_le_length hle, ih]
      simp only [dvd_length_drop hn hle]
      split <;> rfl
    · have hno : ¬ n ∣ l.length + 1 := fun h => by
        have := Nat.le_of_dvd (by omega) h
        omega
      rw [if_neg hno, List.drop_of_length_le (by simp; omega), List.drop_of_length_le (by omega)]

/-- The last of every `n` elements, and one more element. -/
theorem everyNth_concat (hn : 0 < n) (l : List α) (x : α) :
    everyNth n (l ++ [x]) =
      if n ∣ l.length + 1 then everyNth n l ++ [x] else everyNth n l := by
  rw [everyNth, everyNth]
  by_cases hle : n - 1 ≤ l.length
  · rw [List.drop_append_of_le_length hle, stride_concat hn]
    simp only [dvd_length_drop hn hle]
  · have hno : ¬ n ∣ l.length + 1 := fun h => by
      have := Nat.le_of_dvd (by omega) h
      omega
    rw [if_neg hno, List.drop_of_length_le (by simp; omega), List.drop_of_length_le (by omega)]

end Stride
