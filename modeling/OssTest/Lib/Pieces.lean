import Mathlib.Data.List.Chain
import Mathlib.Data.List.Infix

/-!
# Cutting a list at the occurrences of another

A list is read from the left; wherever the delimiter `d` starts, it ends there, is
skipped as a whole, and reading goes on behind it.  So occurrences that overlap an
earlier one do not count.

* `occurrences` counts them in one pass.
* `cut` cuts at the first one; `cutN d n` at the first `n`.
* `intercalate_cutN` — putting the delimiter back between the pieces gives the list.
* `length_cutN` — there is one piece more than there are cuts.
* `pieces` makes all the cuts there are; at a single element they are what `List.splitOn`
  gives.
* `partition` keeps the delimiters as well, and the pieces that are not empty.
-/

namespace Pieces

variable {α : Type*} [DecidableEq α]

/-- How often `d` occurs, with the first elements of the list skipped. -/
def occurrencesAfter (d : List α) : ℕ → List α → ℕ
  | _, [] => 0
  | k + 1, _ :: cs => occurrencesAfter d k cs
  | 0, c :: cs =>
      if d <+: c :: cs then occurrencesAfter d (d.length - 1) cs + 1 else occurrencesAfter d 0 cs

/-- How often `d` occurs, read from the left and without overlaps. -/
def occurrences (d l : List α) : ℕ := occurrencesAfter d 0 l

/-- Cut at the first occurrence of `d`: what stands before it, and what behind. -/
def cut (d : List α) : List α → Option (List α × List α)
  | [] => if d = [] then some ([], []) else none
  | c :: cs =>
      if d <+: c :: cs then some ([], (c :: cs).drop d.length)
      else (cut d cs).map fun p => (c :: p.1, p.2)

/-- Cut at the first `n` occurrences of `d`. -/
def cutN (d : List α) : ℕ → List α → List (List α)
  | 0, l => [l]
  | n + 1, l =>
      match cut d l with
      | none => [l]
      | some (u, v) => u :: cutN d n v

/-! ## One cut -/

theorem cut_eq_none_iff {d l : List α} : cut d l = none ↔ ¬ d <:+: l := by
  induction l with
  | nil => by_cases h : d = [] <;> simp [cut, h]
  | cons c cs ih =>
    rw [List.infix_cons_iff, cut]
    split
    · rename_i hpre
      simp [hpre]
    · rename_i hpre
      simp [hpre, ih]

/-- The two sides of a cut. -/
theorem eq_of_cut {d l u v : List α} (h : cut d l = some (u, v)) : l = u ++ d ++ v := by
  induction l generalizing u with
  | nil =>
    rw [cut] at h
    split_ifs at h with hd
    cases h
    rw [hd]
    rfl
  | cons c cs ih =>
    rw [cut] at h
    split_ifs at h with hpre
    · cases h
      obtain ⟨w, hw⟩ := hpre
      rw [← hw, List.nil_append, List.drop_left]
    · obtain ⟨⟨u', v'⟩, hcut, heq⟩ := Option.map_eq_some_iff.1 h
      obtain ⟨rfl, rfl⟩ := Prod.mk.inj heq
      rw [ih hcut]
      simp

theorem take_of_cut {d l u v : List α} (h : cut d l = some (u, v)) : l.take u.length = u := by
  rw [eq_of_cut h, List.append_assoc, List.take_left]

theorem drop_of_cut {d l u v : List α} (h : cut d l = some (u, v)) :
    l.drop u.length = d ++ v := by
  rw [eq_of_cut h, List.append_assoc, List.drop_left]

/-- What is left behind the occurrence. -/
theorem drop_add_of_cut {d l u v : List α} (h : cut d l = some (u, v)) :
    l.drop (u.length + d.length) = v := by
  rw [← List.drop_drop, drop_of_cut h, List.drop_left]

/-- A cut leaves less. -/
theorem length_lt_of_cut {d l u v : List α} (hd : d ≠ []) (h : cut d l = some (u, v)) :
    v.length < l.length := by
  have hpos := List.length_pos_iff.2 hd
  rw [eq_of_cut h, List.length_append, List.length_append]
  omega

/-- What stands before the first occurrence has none in it. -/
theorem not_infix_of_cut {d l u v : List α} (hd : d ≠ []) (h : cut d l = some (u, v)) :
    ¬ d <:+: u := by
  induction l generalizing u with
  | nil =>
    rw [cut, if_neg hd] at h
    cases h
  | cons c cs ih =>
    rw [cut] at h
    split_ifs at h with hpre
    · cases h
      rwa [List.infix_nil]
    · obtain ⟨⟨u', v'⟩, hcut, heq⟩ := Option.map_eq_some_iff.1 h
      obtain ⟨rfl, rfl⟩ := Prod.mk.inj heq
      rw [List.infix_cons_iff, not_or]
      refine ⟨?_, ih hcut⟩
      intro hin
      apply hpre
      rw [eq_of_cut hcut, List.append_assoc, ← List.cons_append]
      exact hin.trans (List.prefix_append _ _)

/-- A cut, where the delimiter does not start earlier. -/
theorem cut_of_first {d u : List α} (h : ¬ d <:+: u ++ d.dropLast) (v : List α) :
    cut d (u ++ d ++ v) = some (u, v) := by
  have hd : d ≠ [] := by
    rintro rfl
    exact h (List.nil_infix)
  induction u with
  | nil =>
    obtain ⟨c, cs, rfl⟩ := List.exists_cons_of_ne_nil hd
    have hpre : c :: cs <+: c :: (cs ++ v) := List.prefix_append (c :: cs) v
    rw [List.nil_append, List.cons_append, cut, if_pos hpre, ← List.cons_append, List.drop_left]
  | cons c cs ih =>
    have hno : ¬ d <+: c :: (cs ++ d ++ v) := by
      intro hpre
      have hpre' : c :: cs ++ d.dropLast <+: c :: (cs ++ d ++ v) := by
        have hdrop := ((List.dropLast_prefix d).trans (List.prefix_append d v))
        rw [List.append_assoc, ← List.cons_append]
        exact (List.prefix_append_right_inj _).2 hdrop
      refine h (List.prefix_of_prefix_length_le hpre hpre' ?_).isInfix
      rw [List.length_append, List.length_cons, List.length_dropLast]
      omega
    have hrest := ih fun hin => h (List.infix_cons hin)
    rw [List.cons_append, List.cons_append, cut, if_neg hno, hrest]
    rfl

theorem cut_singleton {c : α} {u : List α} (h : c ∉ u) (v : List α) :
    cut [c] (u ++ c :: v) = some (u, v) := by
  have hno : ¬ [c] <:+: u ++ [c].dropLast := by
    rw [List.dropLast_singleton, List.append_nil, List.singleton_infix_iff]
    exact h
  have hcut := cut_of_first hno v
  rwa [List.append_assoc] at hcut

/-! ## Counting -/

theorem occurrencesAfter_eq {d l : List α} {k : ℕ} :
    occurrencesAfter d k l = occurrences d (l.drop k) := by
  induction l generalizing k with
  | nil => rw [List.drop_nil]; cases k <;> rfl
  | cons c cs ih =>
    cases k with
    | zero => rfl
    | succ k => rw [occurrencesAfter, ih, List.drop_succ_cons]

theorem occurrences_eq_zero {d l : List α} (h : ¬ d <:+: l) : occurrences d l = 0 := by
  induction l with
  | nil => rfl
  | cons c cs ih =>
    rw [List.infix_cons_iff, not_or] at h
    rw [occurrences, occurrencesAfter, if_neg h.1]
    exact ih h.2

/-- Behind a cut there is one occurrence less. -/
theorem occurrences_of_cut {d l u v : List α} (hd : d ≠ []) (h : cut d l = some (u, v)) :
    occurrences d l = occurrences d v + 1 := by
  induction l generalizing u with
  | nil =>
    rw [cut, if_neg hd] at h
    cases h
  | cons c cs ih =>
    have hpos := List.length_pos_iff.2 hd
    rw [cut] at h
    rw [occurrences, occurrencesAfter]
    split_ifs at h ⊢ with hpre
    · cases h
      rw [occurrencesAfter_eq, ← List.drop_succ_cons (a := c), Nat.sub_add_cancel hpos]
    · obtain ⟨⟨u', v'⟩, hcut, heq⟩ := Option.map_eq_some_iff.1 h
      obtain ⟨rfl, rfl⟩ := Prod.mk.inj heq
      exact ih hcut

/-! ## Many cuts -/

theorem cutN_ne_nil (d : List α) (n : ℕ) (l : List α) : cutN d n l ≠ [] := by
  cases n with
  | zero => exact List.cons_ne_nil _ _
  | succ n => rw [cutN]; split <;> exact List.cons_ne_nil _ _

theorem cutN_of_no_occurrence {d l : List α} (n : ℕ) (h : ¬ d <:+: l) : cutN d n l = [l] := by
  cases n with
  | zero => rfl
  | succ n => rw [cutN, cut_eq_none_iff.2 h]

theorem cutN_of_cut {d l u v : List α} (n : ℕ) (h : cut d l = some (u, v)) :
    cutN d (n + 1) l = u :: cutN d n v := by
  rw [cutN, h]

/-- **Nothing is lost**: the delimiter between the pieces gives the list back. -/
theorem intercalate_cutN (d : List α) (n : ℕ) (l : List α) :
    d.intercalate (cutN d n l) = l := by
  induction n generalizing l with
  | zero => exact List.intercalate_singleton
  | succ n ih =>
    cases hcut : cut d l with
    | none => rw [cutN, hcut, List.intercalate_singleton]
    | some p =>
      rw [cutN_of_cut n hcut, List.intercalate_cons_of_ne_nil (cutN_ne_nil _ _ _), ih]
      exact (eq_of_cut hcut).symm

/-- **The number of pieces.** -/
theorem length_cutN {d : List α} (hd : d ≠ []) (n : ℕ) (l : List α) :
    (cutN d n l).length = min n (occurrences d l) + 1 := by
  induction n generalizing l with
  | zero => simp [cutN]
  | succ n ih =>
    cases hcut : cut d l with
    | none =>
      rw [cutN, hcut, occurrences_eq_zero (cut_eq_none_iff.1 hcut)]
      rfl
    | some p =>
      rw [cutN_of_cut n hcut, List.length_cons, ih, occurrences_of_cut hd hcut]
      omega

/-- **Only the last piece can have the delimiter in it.** -/
theorem not_infix_of_mem_dropLast {d : List α} (hd : d ≠ []) (n : ℕ) (l : List α) :
    ∀ x ∈ (cutN d n l).dropLast, ¬ d <:+: x := by
  induction n generalizing l with
  | zero => exact nofun
  | succ n ih =>
    cases hcut : cut d l with
    | none => rw [cutN, hcut]; exact nofun
    | some p =>
      rw [cutN_of_cut n hcut, List.dropLast_cons_of_ne_nil (cutN_ne_nil _ _ _)]
      exact List.forall_mem_cons.2 ⟨not_infix_of_cut hd hcut, ih p.2⟩

/-- **The last piece has it only when there were more occurrences than cuts.** -/
theorem infix_getLast_iff {d : List α} (hd : d ≠ []) (n : ℕ) (l : List α) :
    d <:+: (cutN d n l).getLast (cutN_ne_nil d n l) ↔ n < occurrences d l := by
  induction n generalizing l with
  | zero =>
    rw [Nat.pos_iff_ne_zero]
    constructor
    · intro hin hzero
      cases hcut : cut d l with
      | none => exact cut_eq_none_iff.1 hcut hin
      | some p =>
        rw [occurrences_of_cut hd hcut] at hzero
        cases hzero
    · intro hne
      by_contra hin
      exact hne (occurrences_eq_zero hin)
  | succ n ih =>
    cases hcut : cut d l with
    | none =>
      have hno := cut_eq_none_iff.1 hcut
      simp only [cutN_of_no_occurrence _ hno, List.getLast_singleton, occurrences_eq_zero hno]
      exact iff_of_false hno (Nat.not_lt_zero _)
    | some p =>
      simp only [cutN_of_cut n hcut, List.getLast_cons (cutN_ne_nil _ _ _), ih,
        occurrences_of_cut hd hcut, Nat.add_lt_add_iff_right]

/-! ## All cuts -/

/-- Cut at every occurrence of `d`. -/
def pieces (d l : List α) : List (List α) := cutN d (occurrences d l) l

theorem pieces_ne_nil (d l : List α) : pieces d l ≠ [] := cutN_ne_nil _ _ _

theorem pieces_of_no_occurrence {d l : List α} (h : ¬ d <:+: l) : pieces d l = [l] :=
  cutN_of_no_occurrence _ h

theorem pieces_of_cut {d l u v : List α} (hd : d ≠ []) (h : cut d l = some (u, v)) :
    pieces d l = u :: pieces d v := by
  rw [pieces, occurrences_of_cut hd h, cutN_of_cut _ h, pieces]

/-- The first element belongs to the first piece, unless a delimiter starts with it. -/
theorem pieces_cons {d cs : List α} {c : α} (hd : d ≠ []) (h : ¬ d <+: c :: cs) :
    pieces d (c :: cs) = (pieces d cs).modifyHead (c :: ·) := by
  cases hcut : cut d cs with
  | none =>
    have hno := cut_eq_none_iff.1 hcut
    rw [pieces_of_no_occurrence hno, pieces_of_no_occurrence]
    · rfl
    · rw [List.infix_cons_iff, not_or]
      exact ⟨h, hno⟩
  | some p =>
    have hcons : cut d (c :: cs) = some (c :: p.1, p.2) := by
      rw [cut, if_neg h, hcut]
      rfl
    rw [pieces_of_cut hd hcut, pieces_of_cut hd hcons]
    rfl

/-- No piece has the delimiter in it once all cuts are made. -/
theorem not_infix_of_mem_pieces {d : List α} (hd : d ≠ []) {l x : List α} (hx : x ∈ pieces d l) :
    ¬ d <:+: x := by
  rw [← List.dropLast_append_getLast (pieces_ne_nil d l), List.mem_append,
    List.mem_singleton] at hx
  rcases hx with hx | rfl
  · exact not_infix_of_mem_dropLast hd _ _ x hx
  · exact fun hin => lt_irrefl _ ((infix_getLast_iff hd _ _).1 hin)

/-- The pieces, one after the other: by induction on what is still uncut. -/
theorem pieces_induction {d : List α} (hd : d ≠ []) {P : List α → Prop}
    (last : ∀ l, ¬ d <:+: l → P l)
    (cons : ∀ l u v, cut d l = some (u, v) → P v → P l) (l : List α) : P l := by
  induction hn : l.length using Nat.strong_induction_on generalizing l with
  | _ n ih =>
    cases hcut : cut d l with
    | none => exact last l (cut_eq_none_iff.1 hcut)
    | some p => exact cons l p.1 p.2 hcut (ih _ (hn ▸ length_lt_of_cut hd hcut) p.2 rfl)

theorem occurrences_le_length {d : List α} (hd : d ≠ []) (l : List α) :
    occurrences d l ≤ l.length := by
  induction l using pieces_induction hd with
  | last l hno =>
    rw [occurrences_eq_zero hno]
    exact Nat.zero_le _
  | cons l u v hcut ih =>
    have hlt := length_lt_of_cut hd hcut
    rw [occurrences_of_cut hd hcut]
    omega

/-- The pieces at a single element. -/
theorem pieces_singleton (c : α) (l : List α) : pieces [c] l = l.splitOn c := by
  have hne : [c] ≠ [] := List.cons_ne_nil c []
  induction l using pieces_induction hne with
  | last l hno =>
    have hmem : c ∉ l := fun h => hno ((List.singleton_infix_iff c l).2 h)
    rw [pieces_of_no_occurrence hno, List.splitOn_eq_singleton hmem]
  | cons l u v hcut ih =>
    have hu : c ∉ u := fun h => not_infix_of_cut hne hcut ((List.singleton_infix_iff c u).2 h)
    rw [pieces_of_cut hne hcut, ih, eq_of_cut hcut, List.append_assoc, List.singleton_append,
      List.splitOn_append_cons_self_of_not_mem hu]

/-- What a joined list holds. -/
theorem mem_intercalate {β : Type*} {x : β} {d : List β} {ls : List (List β)}
    (h : x ∈ d.intercalate ls) : x ∈ d ∨ ∃ l ∈ ls, x ∈ l := by
  induction ls with
  | nil => cases h
  | cons l ls ih =>
    cases ls with
    | nil =>
      rw [List.intercalate_singleton] at h
      exact Or.inr ⟨l, List.mem_cons_self, h⟩
    | cons l' ls =>
      rw [List.intercalate_cons_cons, List.mem_append, List.mem_append] at h
      rcases h with (h | h) | h
      · exact Or.inr ⟨l, List.mem_cons_self, h⟩
      · exact Or.inl h
      · exact (ih h).imp_right fun ⟨l'', hl, hx⟩ => ⟨l'', List.mem_cons_of_mem _ hl, hx⟩

/-- Less between the pieces makes a shorter list. -/
theorem length_intercalate_le {β : Type*} {d d' : List β} (h : d'.length ≤ d.length)
    (ls : List (List β)) : (d'.intercalate ls).length ≤ (d.intercalate ls).length := by
  induction ls with
  | nil => exact le_refl _
  | cons l ls ih =>
    cases ls with
    | nil => simp
    | cons l' ls =>
      simp only [List.intercalate_cons_cons, List.length_append]
      omega

theorem intercalate_modifyHead {β : Type*} (x : β) (d : List β) {ls : List (List β)}
    (h : ls ≠ []) : d.intercalate (ls.modifyHead (x :: ·)) = x :: d.intercalate ls := by
  obtain ⟨l, ls, rfl⟩ := List.exists_cons_of_ne_nil h
  cases ls with
  | nil => simp
  | cons l' ls => simp [List.intercalate_cons_cons]

/-- Filtering a joined list. -/
theorem filter_intercalate {β : Type*} (p : β → Bool) (d : List β) (ls : List (List β)) :
    (d.intercalate ls).filter p = (d.filter p).intercalate (ls.map (List.filter p)) := by
  induction ls with
  | nil => rfl
  | cons l ls ih =>
    cases ls with
    | nil => simp
    | cons l' ls =>
      rw [List.map_cons] at ih
      rw [List.intercalate_cons_cons, List.filter_append, List.filter_append, ih, List.map_cons,
        List.map_cons, List.intercalate_cons_cons]

/-- Nothing between the pieces. -/
theorem intercalate_nil_left {β : Type*} (ls : List (List β)) :
    ([] : List β).intercalate ls = ls.flatten := by
  induction ls with
  | nil => rfl
  | cons l ls ih =>
    cases ls with
    | nil => simp
    | cons l' ls => rw [List.intercalate_cons_cons, ih, List.append_nil, List.flatten_cons (l := l)]

/-- Without anything between them, the pieces at `c` are the list without its `c`s. -/
theorem flatten_pieces_singleton (c : α) (l : List α) :
    (pieces [c] l).flatten = l.filter (· != c) := by
  rw [pieces_singleton]
  induction l with
  | nil => rfl
  | cons x xs ih =>
    rw [List.splitOn_cons_eq_if_modifyHead]
    by_cases hx : x = c
    · simp [hx, ih]
    · obtain ⟨y, ys, hys⟩ := List.exists_cons_of_ne_nil (List.splitOn_ne_nil c xs)
      rw [hys] at ih ⊢
      simp only [beq_iff_eq, hx, if_false, List.modifyHead_cons, List.flatten_cons]
      rw [List.filter_cons_of_pos (by simpa using hx), ← ih]
      rfl

/-! ## Cutting at a set of elements -/

theorem length_splitOnP {β : Type*} (p : β → Bool) (l : List β) :
    (l.splitOnP p).length = l.countP p + 1 := by
  induction l with
  | nil => rfl
  | cons x xs ih =>
    rw [List.splitOnP_cons_eq_if_modifyHead, List.countP_cons]
    split
    · rw [List.length_cons, ih]
    · rw [List.length_modifyHead, ih, Nat.add_zero]

theorem splitOnP_congr {β : Type*} {p q : β → Bool} {l : List β} (h : ∀ x ∈ l, p x = q x) :
    l.splitOnP p = l.splitOnP q := by
  induction l with
  | nil => rfl
  | cons x xs ih =>
    rw [List.splitOnP_cons_eq_if_modifyHead, List.splitOnP_cons_eq_if_modifyHead,
      h x List.mem_cons_self, ih fun y hy => h y (List.mem_cons_of_mem _ hy)]

/-- A list is in one piece when it has none of the elements. -/
theorem splitOnP_eq_singleton_iff {β : Type*} {p : β → Bool} {l : List β} :
    l.splitOnP p = [l] ↔ ∀ x ∈ l, p x = false := by
  refine ⟨?_, List.splitOnP_eq_singleton⟩
  intro h x hx
  have hlen := length_splitOnP p l
  rw [h, List.length_singleton] at hlen
  have hzero : l.countP p = 0 := by omega
  exact Bool.eq_false_iff.2 (List.countP_eq_zero.1 hzero x hx)

/-! ## Keeping the delimiters -/

/-- The pieces that are not empty, and the delimiters between them. -/
def partition (d l : List α) : List (List α) :=
  ((pieces d l).intersperse d).filter fun x => x ≠ []

theorem partition_of_no_occurrence {d l : List α} (h : ¬ d <:+: l) :
    partition d l = if l = [] then [] else [l] := by
  rw [partition, pieces_of_no_occurrence h, List.intersperse_singleton]
  split <;> simp [*]

theorem partition_of_cut {d l u v : List α} (hd : d ≠ []) (h : cut d l = some (u, v)) :
    partition d l = (if u = [] then [] else [u]) ++ d :: partition d v := by
  obtain ⟨x, xs, hx⟩ := List.exists_cons_of_ne_nil (pieces_ne_nil d v)
  rw [partition, partition, pieces_of_cut hd h, hx, List.intersperse_cons_cons, ← hx]
  split <;> simp [*]

theorem nil_not_mem_partition (d l : List α) : [] ∉ partition d l := by
  simp [partition]

/-- **Nothing is lost.** -/
theorem flatten_partition {d : List α} (hd : d ≠ []) (l : List α) :
    (partition d l).flatten = l := by
  induction l using pieces_induction hd with
  | last l hno =>
    rw [partition_of_no_occurrence hno]
    split <;> simp [*]
  | cons l u v hcut ih =>
    rw [partition_of_cut hd hcut, List.flatten_append, List.flatten_cons, ih, eq_of_cut hcut]
    split <;> simp [*]

/-- A part is a delimiter, or has none in it. -/
theorem not_infix_of_mem_partition {d : List α} (hd : d ≠ []) {l x : List α}
    (hx : x ∈ partition d l) : x = d ∨ ¬ d <:+: x := by
  induction l using pieces_induction hd with
  | last l hno =>
    rw [partition_of_no_occurrence hno] at hx
    split at hx
    · cases hx
    · rw [List.mem_singleton.1 hx]
      exact Or.inr hno
  | cons l u v hcut ih =>
    rw [partition_of_cut hd hcut, List.mem_append, List.mem_cons] at hx
    rcases hx with hx | rfl | hx
    · split at hx
      · cases hx
      · rw [List.mem_singleton.1 hx]
        exact Or.inr (not_infix_of_cut hd hcut)
    · exact Or.inl rfl
    · exact ih hx

/-- **No two pieces stand side by side.** -/
theorem isChain_partition {d : List α} (hd : d ≠ []) (l : List α) :
    (partition d l).IsChain fun x y => x = d ∨ y = d := by
  induction l using pieces_induction hd with
  | last l hno =>
    rw [partition_of_no_occurrence hno]
    split <;> simp
  | cons l u v hcut ih =>
    have htail : (d :: partition d v).IsChain fun x y => x = d ∨ y = d :=
      List.isChain_cons.2 ⟨fun _ _ => Or.inl rfl, ih⟩
    rw [partition_of_cut hd hcut]
    split
    · exact htail
    · exact List.isChain_cons.2 ⟨fun y hy => Or.inr (by simpa using hy.symm), htail⟩

/-- **Every occurrence is a part of its own.** -/
theorem count_partition {d : List α} (hd : d ≠ []) (l : List α) :
    (partition d l).count d = occurrences d l := by
  have hpiece : ∀ {u : List α}, ¬ d <:+: u → (if u = [] then [] else [u]).count d = 0 := by
    intro u hu
    rw [List.count_eq_zero]
    split
    · exact List.not_mem_nil
    · rw [List.mem_singleton]
      rintro rfl
      exact hu (List.infix_refl _)
  induction l using pieces_induction hd with
  | last l hno => rw [partition_of_no_occurrence hno, hpiece hno, occurrences_eq_zero hno]
  | cons l u v hcut ih =>
    rw [partition_of_cut hd hcut, List.count_append, hpiece (not_infix_of_cut hd hcut),
      List.count_cons_self, ih, occurrences_of_cut hd hcut, Nat.zero_add]

end Pieces
