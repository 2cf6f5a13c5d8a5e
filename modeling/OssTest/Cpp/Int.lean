import Mathlib.Data.Int.Basic
import Mathlib.Tactic.Ring

/-!
# The machine integers of the program

`int` is 32 bits wide and `size_t` 64 bits.  A value is an `Int` or a `Nat`; what
the hardware does to it is written out where the program stores it:

* `toInt` — the two's complement conversion to `int`, also what an increment that
  passes the largest `int` leaves behind;
* `toSize` — the conversion to `size_t`, so that `-1` becomes `npos`.
-/

namespace Cpp

/-- Conversion to a 32-bit `int`. -/
def toInt (n : Int) : Int := n.bmod (2 ^ 32)

/-- Conversion to `size_t`. -/
def toSize (n : Int) : Nat := (n % 2 ^ 64).toNat

/-- `std::string::npos`, the largest `size_t`. -/
def npos : Nat := 2 ^ 64 - 1

@[simp] theorem toInt_zero : toInt 0 = 0 := Int.zero_bmod

theorem toInt_bounds (n : Int) : -2 ^ 31 ≤ toInt n ∧ toInt n < 2 ^ 31 := by
  have hlow := Int.le_bmod (x := n) (m := 2 ^ 32) (by norm_num)
  have hhigh := Int.bmod_lt (x := n) (m := 2 ^ 32) (by norm_num)
  unfold toInt
  omega

theorem toInt_of_bounds {n : Int} (hlow : -2 ^ 31 ≤ n) (hhigh : n < 2 ^ 31) : toInt n = n := by
  unfold toInt
  exact Int.bmod_eq_of_le (by omega) (by omega)

theorem toInt_natCast_of_lt {n : ℕ} (h : n < 2 ^ 31) : toInt n = n :=
  toInt_of_bounds (by omega) (by omega)

/-- An unsigned count survives the conversion exactly when an `int` can hold it. -/
theorem toInt_natCast_eq_iff {n : ℕ} : toInt n = n ↔ n < 2 ^ 31 := by
  constructor
  · intro h
    have hb := (toInt_bounds n).2
    omega
  · exact toInt_natCast_of_lt

/-- When an unsigned count is positive as an `int`. -/
theorem toInt_natCast_pos_iff {n : ℕ} :
    0 < toInt n ↔ 0 < n % 2 ^ 32 ∧ n % 2 ^ 32 < 2 ^ 31 := by
  have h := Int.bmod_eq_emod n (2 ^ 32)
  unfold toInt
  rw [h]
  split <;> omega

/-- A counter kept in an `int` is the count converted once. -/
theorem toInt_toInt_add_one (n : Int) : toInt (toInt n + 1) = toInt (n + 1) := by
  unfold toInt
  exact Int.bmod_add_bmod

/-- Two counts that an `int` cannot tell apart differ by a multiple of `2 ^ 32`. -/
theorem toInt_eq_toInt_iff {m n : Int} : toInt m = toInt n ↔ m % 2 ^ 32 = n % 2 ^ 32 := by
  unfold toInt
  constructor
  · intro h
    have h' := congrArg (fun k : Int => k % ((2 ^ 32 : ℕ) : Int)) h
    rw [Int.bmod_emod, Int.bmod_emod] at h'
    omega
  · intro h
    rw [← Int.emod_bmod m, ← Int.emod_bmod n]
    exact congrArg (Int.bmod · (2 ^ 32)) (by simpa using h)

theorem toInt_natCast_injOn {m n : ℕ} (hm : m < 2 ^ 32) (hn : n < 2 ^ 32)
    (h : toInt m = toInt n) : m = n := by
  have := toInt_eq_toInt_iff.1 h
  omega

theorem toSize_natCast {n : ℕ} (h : n ≤ npos) : toSize n = n := by
  unfold toSize
  unfold npos at h
  omega

@[simp] theorem toSize_neg_one : toSize (-1) = npos := by decide

/-- A position that went through an `int` on its way to `size_t`: the low 32 bits,
sign-extended. -/
theorem toSize_toInt_natCast (i : ℕ) :
    toSize (toInt i) =
      if i % 2 ^ 32 < 2 ^ 31 then i % 2 ^ 32 else 2 ^ 64 - 2 ^ 32 + i % 2 ^ 32 := by
  have h := Int.bmod_eq_emod i (2 ^ 32)
  unfold toSize toInt
  rw [h]
  split <;> split <;> omega

end Cpp
