import OssTest.Lib.Pieces

/-!
# Joining a list and cutting it again

Cutting a list at a delimiter and joining the pieces gives the list back.  The other way
round the pieces are found again only when the delimiter is nowhere else: not in a piece,
and not across the end of a piece and the delimiter behind it.

* `cut_eq_some_iff` — the cut is at the occurrence that no other one starts before.
* `cutN_intercalate_iff` — when `n` cuts find the pieces again, the last of which may keep
  the delimiter.
* `pieces_intercalate_iff` — when all cuts do.
* `intercalate_pieces_back_iff` — one delimiter put in the place of another, and back.
-/

namespace Pieces

variable {α : Type*} [DecidableEq α]

/-! ## One cut -/

/-- **Where the cut is**: at the occurrence that no other one starts before. -/
theorem cut_eq_some_iff {d l u v : List α} (hd : d ≠ []) :
    cut d l = some (u, v) ↔ l = u ++ d ++ v ∧ ¬ d <:+: u ++ d.dropLast := by
  constructor
  · intro h
    refine ⟨eq_of_cut h, ?_⟩
    induction l generalizing u with
    | nil =>
      rw [cut, if_neg hd] at h
      cases h
    | cons c cs ih =>
      rw [cut] at h
      split_ifs at h with hpre
      · -- shorter than the delimiter
        cases h
        intro hin
        have hlen := hin.length_le
        have hpos := List.length_pos_iff.2 hd
        rw [List.nil_append, List.length_dropLast] at hlen
        omega
      · obtain ⟨⟨u', v'⟩, hcut, heq⟩ := Option.map_eq_some_iff.1 h
        obtain ⟨rfl, rfl⟩ := Prod.mk.inj heq
        rw [List.cons_append, List.infix_cons_iff, not_or]
        refine ⟨?_, ih hcut⟩
        intro hin
        apply hpre
        refine hin.trans ?_
        rw [eq_of_cut hcut, List.append_assoc, ← List.cons_append, ← List.cons_append]
        exact (List.prefix_append_right_inj _).2
          ((List.dropLast_prefix d).trans (List.prefix_append d v'))
  · rintro ⟨rfl, h⟩
    exact cut_of_first h v

/-- An occurrence starts no earlier than the first one. -/
theorem length_le_of_cut {d l u v u' v' : List α} (hd : d ≠ []) (h : cut d l = some (u, v))
    (hl : l = u' ++ d ++ v') : u.length ≤ u'.length := by
  obtain ⟨heq, hfirst⟩ := (cut_eq_some_iff hd).1 h
  by_contra hlt
  have hpos := List.length_pos_iff.2 hd
  have hpre : u ++ d.dropLast <+: l := by
    rw [heq, List.append_assoc]
    exact (List.prefix_append_right_inj u).2
      ((List.dropLast_prefix d).trans (List.prefix_append d v))
  have hpre' : u' ++ d <+: l := ⟨v', hl.symm⟩
  have hle : (u' ++ d).length ≤ (u ++ d.dropLast).length := by
    rw [List.length_append, List.length_append, List.length_dropLast]
    omega
  exact hfirst ((List.infix_append_right).trans
    (List.prefix_of_prefix_length_le hpre' hpre hle).isInfix)

/-! ## Many cuts -/

theorem cutN_eq_singleton_iff {d l : List α} {n : ℕ} :
    cutN d n l = [l] ↔ (d <:+: l → n = 0) := by
  constructor
  · intro h hin
    cases n with
    | zero => rfl
    | succ n =>
      cases hcut : cut d l with
      | none => exact absurd hin (cut_eq_none_iff.1 hcut)
      | some p =>
        rw [cutN_of_cut n hcut] at h
        exact absurd (List.cons.inj h).2 (cutN_ne_nil d n p.2)
  · intro h
    by_cases hin : d <:+: l
    · rw [h hin, cutN]
    · exact cutN_of_no_occurrence n hin

/-- The first cut takes `x` away, and the others are made behind it. -/
theorem cutN_append_eq_cons_iff {d x l : List α} {xs : List (List α)} (hd : d ≠ []) {n : ℕ} :
    cutN d (n + 1) (x ++ d ++ l) = x :: xs ↔
      ¬ d <:+: x ++ d.dropLast ∧ cutN d n l = xs := by
  constructor
  · intro h
    cases hcut : cut d (x ++ d ++ l) with
    | none => exact absurd ⟨x, l, rfl⟩ (cut_eq_none_iff.1 hcut)
    | some p =>
      rw [cutN_of_cut n hcut] at h
      obtain ⟨hx, hxs⟩ := List.cons.inj h
      obtain ⟨heq, hfirst⟩ := (cut_eq_some_iff hd).1 hcut
      rw [hx] at heq hfirst
      rw [← List.append_cancel_left heq] at hxs
      exact ⟨hfirst, hxs⟩
  · rintro ⟨hfirst, hxs⟩
    rw [cutN_of_cut n (cut_of_first hfirst l), hxs]

/-- **When joined pieces are found again.**  The `n` cuts make `items` out of the joined
list just when the delimiter neither occurs in a piece nor starts in it, up to the last
one, which may have it once all the cuts are made. -/
theorem cutN_intercalate_iff {d : List α} (hd : d ≠ []) (n : ℕ) {items : List (List α)}
    (hne : items ≠ []) :
    cutN d n (d.intercalate items) = items ↔
      (∀ x ∈ items.dropLast, ¬ d <:+: x ++ d.dropLast) ∧ items.length ≤ n + 1 ∧
        (d <:+: items.getLast hne → items.length = n + 1) := by
  induction items generalizing n with
  | nil => exact absurd rfl hne
  | cons x xs ih =>
    cases xs with
    | nil =>
      rw [List.intercalate_singleton, cutN_eq_singleton_iff, List.getLast_singleton,
        List.dropLast_singleton, List.length_singleton]
      constructor
      · intro h
        exact ⟨List.forall_mem_nil _, Nat.le_add_left 1 n, fun hin => by rw [h hin]⟩
      · rintro ⟨-, -, hlast⟩ hin
        have hlen := hlast hin
        omega
    | cons y ys =>
      have hrest : y :: ys ≠ [] := List.cons_ne_nil y ys
      rw [List.getLast_cons hrest, List.dropLast_cons_of_ne_nil hrest, List.forall_mem_cons,
        List.length_cons]
      cases n with
      | zero =>
        -- one piece, whatever there is
        have hlen : ¬ (y :: ys).length + 1 ≤ 0 + 1 := by simp
        refine iff_of_false ?_ fun h => hlen h.2.1
        intro heq
        have hcut := congrArg List.length heq
        rw [cutN, List.length_singleton, List.length_cons] at hcut
        omega
      | succ n =>
        have hjoin : d.intercalate (x :: y :: ys) = x ++ d ++ d.intercalate (y :: ys) := by
          rw [List.intercalate_cons_cons, List.append_assoc]
        rw [hjoin, cutN_append_eq_cons_iff hd, ih n hrest, and_assoc, Nat.add_le_add_iff_right,
          Nat.add_right_cancel_iff]

/-! ## All cuts -/

theorem pieces_intercalate_iff {d : List α} (hd : d ≠ []) {items : List (List α)}
    (hne : items ≠ []) :
    pieces d (d.intercalate items) = items ↔
      (∀ x ∈ items.dropLast, ¬ d <:+: x ++ d.dropLast) ∧ ¬ d <:+: items.getLast hne := by
  have hpos := List.length_pos_iff.2 hne
  constructor
  · intro h
    have hcut := (cutN_intercalate_iff hd _ hne).1 h
    refine ⟨hcut.1, not_infix_of_mem_pieces hd (l := d.intercalate items) ?_⟩
    rw [h]
    exact List.getLast_mem hne
  · rintro ⟨hclean, hlast⟩
    -- as many cuts as there are joints are all cuts
    have hcut : cutN d (items.length - 1) (d.intercalate items) = items :=
      (cutN_intercalate_iff hd _ hne).2
        ⟨hclean, by omega, fun hin => absurd hin hlast⟩
    have hlen := length_cutN hd (items.length - 1) (d.intercalate items)
    have hmore := infix_getLast_iff hd (items.length - 1) (d.intercalate items)
    simp only [hcut] at hlen hmore
    have hocc : occurrences d (d.intercalate items) = items.length - 1 := by
      have hnot := hmore.not.1 hlast
      omega
    rw [pieces, hocc, hcut]

/-- **There and back.**  With `e` in the place of each `d` and then `d` in the place of
each `e`, the list is the same again just when the cuts at `e` are those made at `d`. -/
theorem intercalate_pieces_back_iff {d e : List α} (hd : d ≠ []) (he : e ≠ []) (l : List α) :
    d.intercalate (pieces e (e.intercalate (pieces d l))) = l ↔
      pieces e (e.intercalate (pieces d l)) = pieces d l := by
  constructor
  swap
  · intro h
    rw [h]
    exact intercalate_cutN d _ l
  induction l using pieces_induction hd with
  | last l hno =>
    rw [pieces_of_no_occurrence hno, List.intercalate_singleton]
    intro h
    cases hcut : cut e l with
    | none => exact pieces_of_no_occurrence (cut_eq_none_iff.1 hcut)
    | some p =>
      rw [pieces_of_cut he hcut, List.intercalate_cons_of_ne_nil (pieces_ne_nil e p.2)] at h
      exact absurd ⟨p.1, d.intercalate (pieces e p.2), h⟩ hno
  | cons l u v hcut ih =>
    rw [pieces_of_cut hd hcut, List.intercalate_cons_of_ne_nil (pieces_ne_nil d v)]
    intro h
    cases hback : cut e (u ++ e ++ e.intercalate (pieces d v)) with
    | none => exact absurd ⟨u, _, rfl⟩ (cut_eq_none_iff.1 hback)
    | some p =>
      rw [pieces_of_cut he hback] at h ⊢
      rw [List.intercalate_cons_of_ne_nil (pieces_ne_nil e p.2)] at h
      -- each of the two first pieces is no longer than the other
      have hlen : p.1.length = u.length :=
        le_antisymm (length_le_of_cut he hback rfl) (length_le_of_cut hd hcut h.symm)
      rw [eq_of_cut hcut, List.append_assoc, List.append_assoc] at h
      obtain ⟨hfirst, hrest⟩ := List.append_inj h hlen
      have hbehind : p.2 = e.intercalate (pieces d v) := by
        have heq := eq_of_cut hback
        rw [hfirst] at heq
        exact (List.append_cancel_left heq).symm
      rw [hbehind] at hrest ⊢
      rw [hfirst, ih (List.append_cancel_left hrest)]

end Pieces
