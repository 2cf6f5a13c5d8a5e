import OssTest.UtilBox

/-!
# `simpleCSVtokenizer`

`simpleCSVtokenizer(strLine, tokens)` replaces every `""` by `"` and then takes one token
after the other: up to the next comma or, where the text starts with a quote, up to the
next `",`.  Where there is no such `",`, the positions are computed from `npos`.

* `tokenRound_eq` — what one round takes, without the positions.
* `tokenizer_safe` — the loop ends, and no `substr` throws.
* `csv_round_trip_iff` — which fields come back from the line they are encoded in.
-/

namespace UtilBox

open Cpp Pieces

/-- One round of the loop, which has found a comma at `index`: the token, and the text that
is left. -/
def tokenRound (strNext : Text) (index : ℕ) : Except StdException (Text × Text) := do
  let strPre ← substr strNext 0 index
  if posOf (findFirstOf strPre ['"']) = 0 then
    let indexEnd := posOf (find strNext ['"', ','] 0)
    if 0 < indexEnd then
      let strPre ← substr strNext 1 (toSize (indexEnd - 1))
      let strNext ← substr strNext (toSize (indexEnd + 2)) npos
      return (strPre, strNext)
    else
      let strNext ← substr strNext (toSize (index + 1)) npos
      return (strPre, strNext)
  else
    let strNext ← substr strNext (toSize (index + 1)) npos
    return (strPre, strNext)

/-- The loop of `simpleCSVtokenizer`; `index` is the position last found. -/
def tokenizerLoop : ℕ → Text → Option ℕ → List Text → Option (Except StdException (List Text))
  | _, strNext, none, tokens => some (.ok (tokens ++ [strNext]))
  | 0, _, some _, _ => none
  | n + 1, strNext, some index, tokens =>
      match tokenRound strNext index with
      | .error e => some (.error e)
      | .ok (strPre, strNext) =>
          tokenizerLoop n strNext (find strNext [','] 0) (tokens ++ [strPre])

/-- `simpleCSVtokenizer(strLine, tokens)`: `tokens` afterwards. -/
def simpleCSVtokenizer (strLine : Text) (tokens : List Text) :
    Option (Except StdException (List Text)) :=
  (replaceText strLine ['"', '"'] ['"']).bind fun strNext =>
    tokenizerLoop (strNext.length + 1) strNext (find strNext [','] 0) tokens

/-! ## What one round takes -/

/-- The token a text starts with and the text behind it, if there is a comma. -/
def nextToken (strNext : Text) : Option (Text × Text) :=
  (cut [','] strNext).map fun p =>
    if p.1.head? = some '"' then
      match cut ['"', ','] strNext with
      | none => (strNext.tail, strNext.tail)
      | some ([], _) => p
      | some (_ :: x, y) => (x, y)
    else p

/-! ### The calls of `substr` -/

/-- The text behind a comma. -/
theorem substr_comma {u v : Text} (hlen : (u ++ ',' :: v).length ≤ npos) :
    substr (u ++ ',' :: v) (toSize ((u.length : Int) + 1)) npos = .ok v := by
  have hcomma : u ++ ',' :: v = (u ++ [',']) ++ v := by simp
  have hpos : (u.length : Int) + 1 = ((u ++ [',']).length : ℕ) := by simp
  rw [hcomma] at hlen ⊢
  have hle : (u ++ [',']).length ≤ npos := by
    rw [List.length_append] at hlen
    omega
  rw [hpos, toSize_natCast hle, substr_append hlen]

/-- No closing quote: both positions come round. -/
theorem substr_open {strNext : Text} (hpos : 0 < strNext.length)
    (hlen : strNext.length ≤ npos) :
    substr strNext 1 (toSize ((npos : Int) - 1)) = .ok strNext.tail ∧
      substr strNext (toSize ((npos : Int) + 2)) npos = .ok strNext.tail := by
  have hone : toSize ((npos : Int) + 2) = 1 := by decide
  have hmany : toSize ((npos : Int) - 1) = npos - 1 := by decide
  have htail : strNext.tail.length ≤ npos - 1 := by
    rw [List.length_tail]
    omega
  rw [hone, hmany, substr_of_le hpos, substr_of_le hpos, List.drop_one,
    List.take_of_length_le htail, List.take_of_length_le (htail.trans (Nat.sub_le _ _))]
  exact ⟨rfl, rfl⟩

/-- A closing quote: the token ends before it, and the rest starts behind its comma. -/
theorem substr_closing {c : Char} {x y : Text}
    (hlen : (c :: x ++ ['"', ','] ++ y).length ≤ npos) :
    substr (c :: x ++ ['"', ','] ++ y) 1 (toSize (((c :: x).length : Int) - 1)) = .ok x ∧
      substr (c :: x ++ ['"', ','] ++ y) (toSize (((c :: x).length : Int) + 2)) npos = .ok y := by
  have hone : ((c :: x).length : Int) - 1 = (x.length : ℕ) := by
    rw [List.length_cons]
    omega
  have htwo : ((c :: x).length : Int) + 2 = ((c :: x ++ ['"', ',']).length : ℕ) := by
    rw [List.length_append]
    rfl
  have hle : (c :: x ++ ['"', ',']).length ≤ npos ∧ x.length ≤ npos := by
    rw [List.length_append, List.length_append, List.length_cons] at hlen
    rw [List.length_append, List.length_cons]
    omega
  rw [hone, htwo, toSize_natCast hle.1, toSize_natCast hle.2, substr_append hlen,
    substr_of_le (by simp), List.cons_append, List.cons_append, List.drop_one, List.tail_cons,
    List.append_assoc, List.take_left]
  exact ⟨rfl, rfl⟩

/-- A text that starts with a quote. -/
theorem posOf_findFirstOf_eq_zero_iff {text : Text} :
    posOf (findFirstOf text ['"']) = 0 ↔ text.head? = some '"' := by
  cases text with
  | nil => simp [findFirstOf, posOf, npos]
  | cons c cs =>
    rw [findFirstOf, List.findIdx?_cons]
    by_cases hc : c = '"'
    · simp [hc, posOf]
    · have hpos : posOf (Option.map (· + 1) (cs.findIdx? fun c => ['"'].contains c)) ≠ 0 := by
        cases cs.findIdx? fun c => ['"'].contains c with
        | none => simp [posOf, npos]
        | some i => simp [posOf]
      simpa [hc] using hpos

/-- **One round, without the positions.**  It throws nothing. -/
theorem tokenRound_eq {strNext u v : Text} (hlen : strNext.length ≤ npos)
    (hcut : cut [','] strNext = some (u, v)) :
    ∃ p, nextToken strNext = some p ∧ tokenRound strNext u.length = .ok p := by
  have hstr : strNext = u ++ ',' :: v := by
    rw [eq_of_cut hcut, List.append_assoc]
    rfl
  have hpre : substr strNext 0 u.length = .ok u := by
    rw [substr_of_le (Nat.zero_le _), List.drop_zero, take_of_cut hcut]
  have hrest : substr strNext (toSize ((u.length : Int) + 1)) npos = .ok v := by
    rw [hstr] at hlen ⊢
    exact substr_comma hlen
  rw [nextToken, hcut, Option.map_some]
  refine ⟨_, rfl, ?_⟩
  rw [tokenRound, hpre, ok_bind]
  dsimp only
  by_cases hhead : u.head? = some '"'
  · rw [if_pos (posOf_findFirstOf_eq_zero_iff.2 hhead), if_pos hhead, find_zero]
    cases hend : cut ['"', ','] strNext with
    | none =>
      have hpos : 0 < strNext.length := by simp [hstr]
      obtain ⟨htoken, hleft⟩ := substr_open hpos hlen
      rw [Option.map_none, posOf, if_pos (by decide), htoken, ok_bind, hleft, ok_bind]
      rfl
    | some p =>
      obtain ⟨x, y⟩ := p
      cases x with
      | nil =>
        rw [Option.map_some, posOf, if_neg (by simp), hrest, ok_bind]
        rfl
      | cons c x =>
        obtain rfl := eq_of_cut hend
        obtain ⟨htoken, hleft⟩ := substr_closing hlen
        have hpos : 0 < (c :: x).length := Nat.succ_pos _
        rw [Option.map_some, posOf]
        dsimp only
        rw [if_pos hpos, htoken, ok_bind, hleft, ok_bind]
        rfl
  · rw [if_neg (posOf_findFirstOf_eq_zero_iff.not.2 hhead), if_neg hhead, hrest, ok_bind]
    rfl

/-- A round leaves less. -/
theorem length_lt_of_nextToken {strNext t r : Text} (h : nextToken strNext = some (t, r)) :
    r.length < strNext.length := by
  rw [nextToken, Option.map_eq_some_iff] at h
  obtain ⟨⟨u, v⟩, hcut, h⟩ := h
  have hv := length_lt_of_cut (List.cons_ne_nil _ _) hcut
  have hpos : 0 < strNext.length := Nat.zero_lt_of_lt hv
  dsimp only at h
  split_ifs at h
  · split at h
    · obtain ⟨-, rfl⟩ := Prod.mk.inj h
      rw [List.length_tail]
      omega
    · obtain ⟨-, rfl⟩ := Prod.mk.inj h
      exact hv
    · rename_i c x y hend
      obtain ⟨-, rfl⟩ := Prod.mk.inj h
      exact length_lt_of_cut (List.cons_ne_nil _ _) hend
  · obtain ⟨-, rfl⟩ := Prod.mk.inj h
    exact hv

/-! ## The tokens of a text -/

/-- The tokens taken in at most `n` rounds, and what is left. -/
def tokensOf : ℕ → Text → List Text
  | 0, strNext => [strNext]
  | n + 1, strNext =>
      match nextToken strNext with
      | none => [strNext]
      | some (t, r) => t :: tokensOf n r

theorem nextToken_eq_none_iff {strNext : Text} : nextToken strNext = none ↔ ',' ∉ strNext := by
  rw [nextToken, Option.map_eq_none_iff, cut_eq_none_iff, List.singleton_infix_iff]

/-- The loop takes the tokens one after the other. -/
theorem tokenizerLoop_tokensOf {n : ℕ} {strNext : Text} (hlen : strNext.length ≤ npos)
    (hn : strNext.length < n) (tokens : List Text) :
    tokenizerLoop n strNext (find strNext [','] 0) tokens =
      some (.ok (tokens ++ tokensOf n strNext)) := by
  induction n generalizing strNext tokens with
  | zero => omega
  | succ n ih =>
    rw [find_zero, tokensOf]
    cases hcut : cut [','] strNext with
    | none =>
      have hno : nextToken strNext = none := by rw [nextToken, hcut, Option.map_none]
      rw [hno, Option.map_none, tokenizerLoop]
    | some p =>
      obtain ⟨u, v⟩ := p
      obtain ⟨⟨t, r⟩, hnext, hround⟩ := tokenRound_eq hlen hcut
      have hshort := length_lt_of_nextToken hnext
      rw [hnext, Option.map_some, tokenizerLoop, hround]
      dsimp only
      rw [ih (by omega) (by omega), List.append_assoc, List.singleton_append]

/-- The quotes that stand for one quote each, replaced. -/
def undouble (text : Text) : Text := ['"'].intercalate (pieces ['"', '"'] text)

theorem length_undouble_le (text : Text) : (undouble text).length ≤ text.length := by
  have hle : (['"'] : Text).length ≤ ['"', '"'].length := by decide
  have hshort := length_intercalate_le hle (pieces ['"', '"'] text)
  rwa [pieces, intercalate_cutN] at hshort

/-- **What `simpleCSVtokenizer` appends.** -/
theorem simpleCSVtokenizer_eq {strLine : Text} (hlen : strLine.length ≤ npos)
    (tokens : List Text) :
    simpleCSVtokenizer strLine tokens =
      some (.ok (tokens ++ tokensOf ((undouble strLine).length + 1) (undouble strLine))) := by
  have hle := length_undouble_le strLine
  rw [simpleCSVtokenizer, replaceText_eq (List.cons_ne_nil _ _), Option.bind_some]
  exact tokenizerLoop_tokensOf (le_trans hle hlen) (Nat.lt_succ_self _) tokens

/-- **`simpleCSVtokenizer` is safe on every text**, whatever its quotes and commas: the loop
ends, and every `substr` starts inside the string it is applied to or at its end, so that
none throws. -/
theorem tokenizer_safe (strLine : Text) (tokens : List Text) (hlen : strLine.length < 2 ^ 63) :
    ∃ items, simpleCSVtokenizer strLine tokens = some (.ok (tokens ++ items)) :=
  ⟨_, simpleCSVtokenizer_eq (by unfold npos; omega) tokens⟩

/-- A quote that is not closed. -/
theorem tokenizer_safe_open :
    ∃ items, simpleCSVtokenizer "\"a,b".toList ["x".toList] =
      some (.ok (["x".toList] ++ items)) :=
  tokenizer_safe "\"a,b".toList ["x".toList] (by decide)

/-! ## Encoding -/

/-- The field cannot stand in a line as it is. -/
def NeedsQuotes (field : Text) : Prop := ',' ∈ field ∨ '"' ∈ field

instance (field : Text) : Decidable (NeedsQuotes field) :=
  inferInstanceAs (Decidable (_ ∨ _))

/-- Every quote twice. -/
def double (field : Text) : Text := field.flatMap fun c => if c = '"' then ['"', '"'] else [c]

/-- A field as it stands in a line. -/
def encodeField (field : Text) : Text :=
  if NeedsQuotes field then '"' :: double field ++ ['"'] else field

/-- The line of some fields. -/
def encodeLine (fields : List Text) : Text := [','].intercalate (fields.map encodeField)

/-- There is nothing but quotes. -/
def OnlyQuotes (field : Text) : Prop := ∀ c ∈ field, c = '"'

instance (field : Text) : Decidable (OnlyQuotes field) :=
  List.decidableBAll (fun c => c = '"') field

/-- A field as the loop finds it: the quotes around it are there, but one of them is lost
where nothing stands between it and the others. -/
def storedField (field : Text) : Text :=
  if NeedsQuotes field then
    if OnlyQuotes field then '"' :: field else '"' :: field ++ ['"']
  else field

/-! ### Quotes -/

theorem undouble_nil : undouble [] = [] := by
  decide

theorem undouble_quotes (t : Text) : undouble ('"' :: '"' :: t) = '"' :: undouble t := by
  have hpre : ['"', '"'] <+: '"' :: '"' :: t := List.prefix_append ['"', '"'] t
  have hcut : cut ['"', '"'] ('"' :: '"' :: t) = some ([], t) := by
    rw [cut, if_pos hpre]
    rfl
  rw [undouble, pieces_of_cut (List.cons_ne_nil _ _) hcut,
    List.intercalate_cons_of_ne_nil (pieces_ne_nil _ _)]
  rfl

theorem undouble_cons {c : Char} {t : Text} (h : ¬ ['"', '"'] <+: c :: t) :
    undouble (c :: t) = c :: undouble t := by
  rw [undouble, pieces_cons (List.cons_ne_nil _ _) h,
    intercalate_modifyHead _ _ (pieces_ne_nil _ _)]
  rfl

theorem undouble_cons_of_ne {c : Char} (t : Text) (h : c ≠ '"') :
    undouble (c :: t) = c :: undouble t := by
  refine undouble_cons ?_
  rw [List.cons_prefix_cons]
  exact fun hand => h hand.1.symm

/-- A quote that is not followed by another one. -/
theorem undouble_quote {t : Text} (h : t.head? ≠ some '"') :
    undouble ('"' :: t) = '"' :: undouble t := by
  refine undouble_cons ?_
  rw [List.cons_prefix_cons]
  rintro ⟨-, w, rfl⟩
  exact h rfl

/-- Without quotes nothing changes. -/
theorem undouble_append {u : Text} (h : '"' ∉ u) (t : Text) :
    undouble (u ++ t) = u ++ undouble t := by
  induction u with
  | nil => rfl
  | cons c cs ih =>
    rw [List.mem_cons, not_or] at h
    rw [List.cons_append, undouble_cons_of_ne _ (Ne.symm h.1), ih h.2]
    rfl

/-- The quotes of a field are single again behind another character. -/
theorem undouble_double (f : Text) {t : Text} (h : t.head? ≠ some '"') :
    undouble (double f ++ '"' :: t) = f ++ '"' :: undouble t := by
  induction f with
  | nil => exact undouble_quote h
  | cons c cs ih =>
    by_cases hc : c = '"'
    · subst hc
      exact (undouble_quotes _).trans (congrArg _ ih)
    · have hdouble : double (c :: cs) = c :: double cs := by
        rw [double, List.flatMap_cons, if_neg hc]
        rfl
      rw [hdouble, List.cons_append, undouble_cons_of_ne _ hc, ih]
      rfl

/-- The quotes around a field, and those in it. -/
theorem undouble_quoted (f : Text) {t : Text} (h : t.head? ≠ some '"') :
    undouble ('"' :: double f ++ '"' :: t) =
      (if OnlyQuotes f then '"' :: f else '"' :: f ++ ['"']) ++ undouble t := by
  induction f with
  | nil =>
    rw [if_pos nofun]
    exact undouble_quotes t
  | cons c cs ih =>
    by_cases hc : c = '"'
    · subst hc
      have hquotes := undouble_quotes ('"' :: double cs ++ '"' :: t)
      rw [ih] at hquotes
      refine hquotes.trans ?_
      by_cases hall : OnlyQuotes cs
      · have hall' : OnlyQuotes ('"' :: cs) := List.forall_mem_cons.2 ⟨rfl, hall⟩
        rw [if_pos hall, if_pos hall']
        rfl
      · have hall' : ¬ OnlyQuotes ('"' :: cs) := fun hcons => hall (List.forall_mem_cons.1 hcons).2
        rw [if_neg hall, if_neg hall']
        rfl
    · have hdouble : double (c :: cs) = c :: double cs := by
        rw [double, List.flatMap_cons, if_neg hc]
        rfl
      have hfirst : undouble ('"' :: c :: (double cs ++ '"' :: t)) =
          '"' :: undouble (c :: (double cs ++ '"' :: t)) :=
        undouble_quote (by simpa using hc)
      rw [if_neg fun hall => hc (hall c List.mem_cons_self), hdouble, List.cons_append,
        List.cons_append, hfirst, undouble_cons_of_ne _ hc, undouble_double cs h]
      simp

/-- **What a field looks like to the loop.** -/
theorem undouble_encodeField (f : Text) {t : Text} (h : t.head? ≠ some '"') :
    undouble (encodeField f ++ t) = storedField f ++ undouble t := by
  rw [encodeField, storedField]
  by_cases hneeds : NeedsQuotes f
  · have hquoted := undouble_quoted f h
    rw [if_pos hneeds, if_pos hneeds, ← hquoted]
    simp
  · rw [if_neg hneeds, if_neg hneeds]
    exact undouble_append (fun hmem => hneeds (Or.inr hmem)) t

theorem undouble_encodeLine (fields : List Text) :
    undouble (encodeLine fields) = [','].intercalate (fields.map storedField) := by
  rw [encodeLine]
  induction fields with
  | nil => exact undouble_nil
  | cons f fields ih =>
    cases fields with
    | nil =>
      have hone := undouble_encodeField f (t := []) (by simp)
      rw [undouble_nil] at hone
      simpa using hone
    | cons g fields =>
      rw [List.map_cons, List.map_cons] at ih ⊢
      rw [List.map_cons, List.map_cons, List.intercalate_cons_cons, List.intercalate_cons_cons,
        ← ih, List.append_assoc, List.append_assoc, undouble_encodeField f (by simp)]
      exact congrArg _ (undouble_cons_of_ne _ (by decide))

/-! ### Fields -/

/-- A field that comes back when another one follows. -/
def ComesBack (f : Text) : Prop :=
  NeedsQuotes f → f.head? ≠ some ',' ∧ ¬ ['"', ','] <:+: f ∧ ∃ c ∈ f, c ≠ '"'

/-- A closing quote in front of a comma ends a token that has none in it. -/
theorem cut_closing {p : Text} (hhead : p.head? ≠ some ',') (hno : ¬ ['"', ','] <:+: p)
    (w : Text) : cut ['"', ','] ('"' :: p ++ ['"', ','] ++ w) = some ('"' :: p, w) := by
  refine cut_of_first ?_ w
  rw [List.cons_append, List.infix_cons_iff, not_or]
  constructor
  · rintro ⟨v, hv⟩
    cases p with
    | nil => cases hv
    | cons c cs => exact hhead (congrArg some (List.cons.inj (List.cons.inj hv).2).1.symm)
  · rintro ⟨x, y, happ⟩
    -- the last character is a quote, so the pattern stands before it
    rcases List.eq_nil_or_concat' y with rfl | ⟨y, c, rfl⟩
    · rw [List.append_nil] at happ
      have hlast := congrArg List.getLast? happ
      simp at hlast
    · rw [← List.append_assoc] at happ
      exact hno ⟨x, y, (List.append_inj' happ rfl).1⟩

/-- A text that starts with a quote has it in front of its first comma. -/
theorem nextToken_quote {w x y : Text} {c : Char} (hmem : ',' ∈ w)
    (hcut : cut ['"', ','] ('"' :: w) = some (c :: x, y)) : nextToken ('"' :: w) = some (x, y) := by
  obtain ⟨u, v, rfl, hu⟩ := List.eq_append_cons_of_mem hmem
  have hu' : ',' ∉ '"' :: u := by
    rw [List.mem_cons, not_or]
    exact ⟨by decide, hu⟩
  have hcomma : cut [','] ('"' :: (u ++ ',' :: v)) = some ('"' :: u, v) := cut_singleton hu' v
  have hfirst : ('"' :: u).head? = some '"' := rfl
  rw [nextToken, hcomma, Option.map_some, if_pos hfirst, hcut]

/-- What stands between the quotes, if the first closing quote is the one behind it. -/
theorem nextToken_closing {p : Text} (hhead : p.head? ≠ some ',') (hno : ¬ ['"', ','] <:+: p)
    (w : Text) : nextToken ('"' :: (p ++ '"' :: ',' :: w)) = some (p, w) := by
  have hcut := cut_closing hhead hno w
  rw [List.append_assoc, List.cons_append] at hcut
  exact nextToken_quote (by simp) hcut

/-- **A field that comes back is the next token.** -/
theorem nextToken_of_comesBack {f : Text} (h : ComesBack f) (rest : Text) :
    nextToken (storedField f ++ ',' :: rest) = some (f, rest) := by
  rw [storedField]
  by_cases hneeds : NeedsQuotes f
  · obtain ⟨hhead, hno, c, hc, hne⟩ := h hneeds
    have hnot : ¬ OnlyQuotes f := fun hall => hne (hall c hc)
    rw [if_pos hneeds, if_neg hnot, List.append_assoc]
    exact nextToken_closing hhead hno rest
  · have hcomma : ',' ∉ f := fun hmem => hneeds (Or.inl hmem)
    have hquote : f.head? ≠ some '"' := fun hhead =>
      hneeds (Or.inr (List.mem_of_mem_head? hhead))
    rw [if_neg hneeds, nextToken, cut_singleton hcomma, Option.map_some, if_neg hquote]

/-! ### What comes instead -/

/-- Of a field of quotes, one is taken for the closing one. -/
theorem nextToken_of_quotes (n : ℕ) (rest : Text) :
    nextToken ('"' :: List.replicate (n + 1) '"' ++ ',' :: rest) =
      some (List.replicate n '"', rest) := by
  have hcomma : ',' ∉ List.replicate n '"' := fun h =>
    absurd (List.eq_of_mem_replicate h) (by decide)
  have hhead : (List.replicate n '"').head? ≠ some ',' := fun h =>
    hcomma (List.mem_of_mem_head? h)
  have hno : ¬ ['"', ','] <:+: List.replicate n '"' := fun h =>
    hcomma (h.subset (by simp))
  rw [List.replicate_succ', List.cons_append, List.append_assoc]
  exact nextToken_closing hhead hno rest

/-- A comma behind the opening quote makes a token of the quote. -/
theorem nextToken_of_comma (w : Text) : nextToken ('"' :: ',' :: w) = some (['"'], w) := by
  have hcomma : cut [','] ('"' :: ',' :: w) = some (['"'], w) := rfl
  have hend : cut ['"', ','] ('"' :: ',' :: w) = some ([], w) := rfl
  have hfirst : (['"'] : Text).head? = some '"' := rfl
  rw [nextToken, hcomma, Option.map_some, if_pos hfirst, hend]

/-- A quote in front of a comma inside the field is taken for the closing one. -/
theorem nextToken_of_closing {f : Text} (hhead : f.head? ≠ some ',') (hin : ['"', ','] <:+: f)
    (w : Text) : ∃ t r, nextToken ('"' :: (f ++ w)) = some (t, r) ∧ t.length < f.length := by
  obtain ⟨⟨p, q⟩, hcut⟩ := Option.ne_none_iff_exists'.1 fun hnone => cut_eq_none_iff.1 hnone hin
  obtain rfl := eq_of_cut hcut
  have hphead : p.head? ≠ some ',' := by
    intro hp
    apply hhead
    rw [List.append_assoc, List.head?_append, hp]
    rfl
  have hno := not_infix_of_cut (List.cons_ne_nil _ _) hcut
  have hnext := nextToken_closing hphead hno (q ++ w)
  refine ⟨p, q ++ w, ?_, ?_⟩
  · rw [List.append_assoc, List.append_assoc]
    exact hnext
  · rw [List.length_append, List.length_append, List.length_cons]
    omega

/-- **A field that does not come back is not the next token.** -/
theorem nextToken_of_not_comesBack {f : Text} (h : ¬ ComesBack f) (rest : Text) :
    ∃ t r, nextToken (storedField f ++ ',' :: rest) = some (t, r) ∧ t ≠ f := by
  have hneeds : NeedsQuotes f := by
    by_contra hno
    exact h fun hneeds => absurd hneeds hno
  rw [storedField, if_pos hneeds]
  by_cases hall : OnlyQuotes f
  · have hne : f ≠ [] := by
      rintro rfl
      exact hneeds.elim List.not_mem_nil List.not_mem_nil
    obtain ⟨n, hn⟩ := Nat.exists_eq_succ_of_ne_zero (List.length_pos_iff.2 hne).ne'
    obtain rfl : f = List.replicate (n + 1) '"' := List.eq_replicate_iff.2 ⟨hn, hall⟩
    rw [if_pos hall]
    refine ⟨_, _, nextToken_of_quotes n rest, ?_⟩
    intro heq
    have hlen := congrArg List.length heq
    rw [List.length_replicate, List.length_replicate] at hlen
    omega
  · rw [if_neg hall, List.append_assoc]
    by_cases hhead : f.head? = some ','
    · obtain ⟨f, rfl⟩ : ∃ f', f = ',' :: f' := ⟨f.tail, (List.cons_head?_tail hhead).symm⟩
      exact ⟨_, _, nextToken_of_comma _, by simp⟩
    · have hsome : ∃ c ∈ f, c ≠ '"' := by
        by_contra hno
        exact hall fun c hc => by_contra fun hne => hno ⟨c, hc, hne⟩
      have hin : ['"', ','] <:+: f := by
        by_contra hno
        exact h fun _ => ⟨hhead, hno, hsome⟩
      obtain ⟨t, r, hnext, hlt⟩ := nextToken_of_closing hhead hin (['"'] ++ ',' :: rest)
      exact ⟨t, r, hnext, fun heq => hlt.ne (congrArg List.length heq)⟩

/-! ### When the fields come back -/

theorem tokensOf_ne_nil (n : ℕ) (strNext : Text) : tokensOf n strNext ≠ [] := by
  cases n with
  | zero => exact List.cons_ne_nil _ _
  | succ n =>
    rw [tokensOf]
    split <;> exact List.cons_ne_nil _ _

/-- The last field comes back when it is not quoted. -/
theorem tokensOf_last_iff (n : ℕ) (f : Text) :
    tokensOf (n + 1) (storedField f) = [f] ↔ ¬ NeedsQuotes f := by
  constructor
  · intro h hneeds
    rw [tokensOf] at h
    split at h
    · have hlen := congrArg List.length (List.singleton_inj.1 h)
      rw [storedField, if_pos hneeds] at hlen
      split_ifs at hlen
      · rw [List.length_cons] at hlen
        omega
      · rw [List.length_append, List.length_cons] at hlen
        omega
    · exact tokensOf_ne_nil _ _ (List.cons.inj h).2
  · intro hno
    have hnone : nextToken f = none := nextToken_eq_none_iff.2 fun hmem => hno (Or.inl hmem)
    rw [storedField, if_neg hno, tokensOf, hnone]

/-- **Which fields come back.** -/
theorem tokensOf_iff {n : ℕ} {fields : List Text} (hne : fields ≠ [])
    (hn : ([','].intercalate (fields.map storedField)).length < n) :
    tokensOf n ([','].intercalate (fields.map storedField)) = fields ↔
      (∀ f ∈ fields.dropLast, ComesBack f) ∧ ¬ NeedsQuotes (fields.getLast hne) := by
  induction fields generalizing n with
  | nil => exact absurd rfl hne
  | cons f fields ih =>
    obtain ⟨n, rfl⟩ : ∃ m, n = m + 1 := ⟨n - 1, by omega⟩
    cases fields with
    | nil =>
      have hlast := tokensOf_last_iff n f
      simpa using hlast
    | cons g fields =>
      have hline : [','].intercalate ((f :: g :: fields).map storedField) =
          storedField f ++ ',' :: [','].intercalate ((g :: fields).map storedField) := by
        rw [List.map_cons, List.map_cons, List.intercalate_cons_cons]
        simp
      rw [hline, List.length_append, List.length_cons] at hn
      rw [hline, tokensOf, List.dropLast_cons_cons, List.forall_mem_cons,
        List.getLast_cons (List.cons_ne_nil _ _)]
      by_cases hback : ComesBack f
      · have hrest := ih (n := n) (List.cons_ne_nil g fields) (by omega)
        rw [nextToken_of_comesBack hback]
        simpa [hback] using hrest
      · obtain ⟨t, r, hnext, hne⟩ := nextToken_of_not_comesBack hback
          ([','].intercalate ((g :: fields).map storedField))
        rw [hnext]
        simp [hback, hne]

/-- **When the fields come back.**  For every non-empty list of fields whose line a
`std::string` can hold, the tokenizer appends exactly the fields to the tokens when it is
given this line, if and only if the last field needs no quotes, and every other one that
does starts with no comma, has no quote in front of a comma, and does not consist of
quotes. -/
theorem csv_round_trip_iff (fields tokens : List Text) (hne : fields ≠ [])
    (hlen : (encodeLine fields).length < 2 ^ 63) :
    simpleCSVtokenizer (encodeLine fields) tokens = some (.ok (tokens ++ fields)) ↔
      (∀ f ∈ fields.dropLast, NeedsQuotes f →
        f.head? ≠ some ',' ∧ ¬ ['"', ','] <:+: f ∧ ∃ c ∈ f, c ≠ '"') ∧
      ¬ NeedsQuotes (fields.getLast hne) := by
  have hiff := tokensOf_iff hne (Nat.lt_succ_self _)
  rw [simpleCSVtokenizer_eq (by unfold npos; omega), undouble_encodeLine]
  simpa [ComesBack] using hiff

/-- A quoted field and a plain one. -/
theorem csv_round_trip_two :
    simpleCSVtokenizer (encodeLine ["a,\"b\"".toList, "c".toList]) [] =
        some (.ok ([] ++ ["a,\"b\"".toList, "c".toList])) ↔
      (∀ f ∈ ["a,\"b\"".toList, "c".toList].dropLast, NeedsQuotes f →
        f.head? ≠ some ',' ∧ ¬ ['"', ','] <:+: f ∧ ∃ c ∈ f, c ≠ '"') ∧
      ¬ NeedsQuotes (["a,\"b\"".toList, "c".toList].getLast (by decide)) :=
  csv_round_trip_iff ["a,\"b\"".toList, "c".toList] [] (by decide) (by decide)

/-- A quoted field at the end of the line comes back in pieces. -/
theorem last_quoted_is_cut :
    encodeLine ["a,b".toList] = "\"a,b\"".toList ∧
      simpleCSVtokenizer "\"a,b\"".toList [] =
        some (.ok ["a,b\"".toList, "a".toList, "b\"".toList]) ∧
      simpleCSVtokenizer (encodeLine ["a,b".toList]) [] ≠ some (.ok ([] ++ ["a,b".toList])) := by
  decide +kernel

end UtilBox
