import LedPattern.Proofs.Literal

/-!
# Cutting text into tokens

`Lexer.Reads` says that a text consists of some tokens and of nothing else but blanks and comments.
It follows one piece after another, and `reads_lex` shows that then the pieces found in the text are
these tokens, with nothing to complain about.

The rest of the file reads the kinds of pieces off the front of a text: blanks, comments, names,
counts and constants. A name or a count must not be followed by a character that would prolong it
(`isApart`). Text that is always the same is read by `reads_fixed`, for which `fixedTokens` computes
the tokens, as long as none of its pieces depends on what follows.
-/

namespace LedPattern

namespace Lexer

/-- The text after a run is no longer than the text. -/
theorem length_dropWhile_le (p : Char → Bool) (cs : List Char) :
    (cs.dropWhile p).length ≤ cs.length :=
  (List.dropWhile_suffix p).length_le

/-- The text after a fraction is no longer than the text. -/
theorem length_takeFraction_le (cs : List Char) : (takeFraction cs).2.length ≤ cs.length := by
  unfold takeFraction
  split
  · rename_i rest
    dsimp only
    split
    · exact Nat.le_refl _
    · have hle := length_dropWhile_le Char.isDigit rest
      simp only [List.length_cons]
      omega
  · exact Nat.le_refl _

/-- The text after a sign is no longer than the text. -/
theorem length_takeSign_le (cs : List Char) : (Spelling.takeSign cs).2.length ≤ cs.length := by
  unfold Spelling.takeSign
  split <;> simp

/-- The text after an exponent is no longer than the text. -/
theorem length_takeExponent_le (cs : List Char) : (takeExponent cs).2.length ≤ cs.length := by
  unfold takeExponent
  split
  · exact Nat.le_refl _
  · rename_i mark rest
    dsimp only
    split
    · have hsign := length_takeSign_le rest
      have hle := length_dropWhile_le Char.isDigit (Spelling.takeSign rest).2
      simp only [List.length_cons]
      omega
    · exact Nat.le_refl _

/-- The text after a number is no longer than what follows its first digits. -/
theorem length_scanNumber_le (sign cs : List Char) :
    (scanNumber sign cs).rest.length ≤ (cs.dropWhile Char.isDigit).length := by
  have hfraction := length_takeFraction_le (cs.dropWhile Char.isDigit)
  have hexponent := length_takeExponent_le (takeFraction (cs.dropWhile Char.isDigit)).2
  unfold scanNumber
  dsimp only
  split
  · rename_i rest hrest
    rw [hrest, List.length_cons] at hexponent
    dsimp only
    omega
  · split <;> dsimp only <;> omega

/-- The text after a quotation is no longer than the text. -/
theorem length_scanQuote_le (cs : List Char) : (scanQuote cs).rest.length ≤ cs.length := by
  have hle := length_dropWhile_le (fun c => decide (c ≠ '"') && decide (c ≠ '\n')) cs
  unfold scanQuote
  dsimp only
  split
  · rename_i rest hrest
    rw [hrest, List.length_cons] at hle
    dsimp only
    omega
  · exact hle

/-- What a name starts with may stand in it. -/
theorem isIdentifierChar_of_start {c : Char} (h : Text.isIdentifierStart c = true) :
    Text.isIdentifierChar c = true := by
  simp only [Text.isIdentifierStart, Bool.or_eq_true] at h
  simp only [Text.isIdentifierChar, Text.isLetterOrDigit, Bool.or_eq_true]
  exact h.elim (fun h => .inl (.inl h)) .inr

/-- Every piece takes at least one character. -/
theorem length_scan_le (c : Char) (cs : List Char) : (scan c cs).rest.length ≤ cs.length := by
  unfold scan
  split
  · rename_i hblank
    rw [scanWhile, List.dropWhile_cons_of_pos hblank]
    exact length_dropWhile_le _ _
  split
  · rename_i hcomment
    -- A comment starts with a character that does not end its line.
    have hc : c ≠ '\n' := by
      rintro rfl
      simp [startsComment] at hcomment
    have hdrop : (c :: cs).dropWhile (fun x => decide (x ≠ '\n'))
        = cs.dropWhile (fun x => decide (x ≠ '\n')) :=
      List.dropWhile_cons_of_pos (decide_eq_true hc)
    rw [scanWhile, hdrop]
    exact length_dropWhile_le _ _
  split
  · rename_i hdigit
    have hle := length_scanNumber_le [] (c :: cs)
    rw [List.dropWhile_cons_of_pos hdigit] at hle
    exact Nat.le_trans hle (length_dropWhile_le _ _)
  split
  · exact Nat.le_trans (length_scanNumber_le _ _) (length_dropWhile_le _ _)
  split
  · exact length_scanQuote_le cs
  split
  · rename_i hstart
    rw [scanWhile, List.dropWhile_cons_of_pos (isIdentifierChar_of_start hstart)]
    exact length_dropWhile_le _ _
  · unfold scanSymbol
    split
    · simp
    · split <;> exact Nat.le_refl _

/-- A text consists of some tokens, with blanks and comments between them. -/
inductive Reads : List Char → List Token → Prop where
  | nil : Reads [] []
  | blank {c : Char} {cs rest : List Char} {ts : List Token}
      (hpiece : (scan c cs).piece = .blank) (hrest : (scan c cs).rest = rest)
      (h : Reads rest ts) : Reads (c :: cs) ts
  | token {c : Char} {cs rest : List Char} {t : Token} {ts : List Token}
      (hpiece : (scan c cs).piece = .token t) (hrest : (scan c cs).rest = rest)
      (h : Reads rest ts) : Reads (c :: cs) (t :: ts)

/-- Fuel for a text is enough for one piece and for the text after it. -/
theorem exists_fuel {c : Char} {cs rest : List Char} (hrest : (scan c cs).rest = rest) {fuel : Nat}
    (hfuel : (c :: cs).length ≤ fuel) : ∃ n, fuel = n + 1 ∧ rest.length ≤ n := by
  have hlength := length_scan_le c cs
  rw [hrest] at hlength
  rw [List.length_cons] at hfuel
  exact ⟨fuel - 1, by omega, by omega⟩

/-- The pieces of a text that consists of tokens are these tokens, wherever the text starts. -/
theorem reads_lexFrom {cs : List Char} {ts : List Token} (h : Reads cs ts) :
    ∀ fuel start : Nat, cs.length ≤ fuel → tokens (lexFrom fuel start cs) = ts ∧
      ∀ l ∈ lexFrom fuel start cs, l.complaint? = none := by
  induction h with
  | nil =>
    intro fuel start _
    cases fuel <;> simp [lexFrom, tokens]
  | @blank c cs rest ts hpiece hrest _ ih =>
    intro fuel start hfuel
    obtain ⟨fuel, rfl, hleft⟩ := exists_fuel hrest hfuel
    simp only [lexFrom, hpiece, hrest]
    exact ih _ _ hleft
  | @token c cs rest t ts hpiece hrest _ ih =>
    intro fuel start hfuel
    obtain ⟨fuel, rfl, hleft⟩ := exists_fuel hrest hfuel
    obtain ⟨htokens, hcomplaints⟩ := ih fuel (start + Text.byteCount (scan c cs).taken) hleft
    simp only [lexFrom, hpiece, hrest]
    refine ⟨?_, List.forall_mem_cons.2 ⟨rfl, hcomplaints⟩⟩
    rw [← htokens]
    rfl

/-- The pieces of a text that consists of tokens are these tokens. -/
theorem reads_lex {cs : List Char} {ts : List Token} (h : Reads cs ts) :
    tokens (lex cs) = ts ∧ ∀ l ∈ lex cs, l.complaint? = none :=
  reads_lexFrom h _ _ (Nat.le_refl _)

/-! ## Blanks and comments -/

/-- A blank is a piece with the blanks that follow it. -/
theorem scan_blank {c : Char} (hc : isBlank c = true) (cs : List Char) :
    (scan c cs).piece = .blank ∧ (scan c cs).rest = cs.dropWhile isBlank := by
  rw [scan, if_pos hc, scanWhile]
  exact ⟨rfl, List.dropWhile_cons_of_pos hc⟩

/-- Blanks at the start of a text do not matter. -/
theorem reads_dropWhile_blank {cs : List Char} {ts : List Token} (h : Reads cs ts) :
    Reads (cs.dropWhile isBlank) ts := by
  cases h with
  | nil => exact .nil
  | @blank c cs rest _ hpiece hrest h =>
    by_cases hc : isBlank c = true
    · rw [List.dropWhile_cons_of_pos hc, ← (scan_blank hc cs).2, hrest]
      exact h
    · rw [List.dropWhile_cons_of_neg hc]
      exact .blank hpiece hrest h
  | @token c cs rest t ts hpiece hrest h =>
    have hc : ¬isBlank c = true := by
      intro hc
      rw [(scan_blank hc cs).1] at hpiece
      cases hpiece
    rw [List.dropWhile_cons_of_neg hc]
    exact .token hpiece hrest h

/-- A blank in front of a text does not matter. -/
theorem reads_blank {c : Char} (hc : isBlank c = true) {rest : List Char} {ts : List Token}
    (h : Reads rest ts) : Reads (c :: rest) ts :=
  .blank (scan_blank hc rest).1 (scan_blank hc rest).2 (reads_dropWhile_blank h)

/-- A comment extends to the end of its line. -/
theorem scan_comment {c : Char} {cs : List Char} (hstarts : startsComment (c :: cs) = true)
    (hline : '\n' ∉ c :: cs) (rest : List Char) :
    (scan c (cs ++ '\n' :: rest)).piece = .blank ∧
      (scan c (cs ++ '\n' :: rest)).rest = '\n' :: rest := by
  have hstarts' : startsComment (c :: (cs ++ '\n' :: rest)) = true := by
    unfold startsComment at hstarts
    split at hstarts <;> simp_all [startsComment]
  have hblank : ¬isBlank c = true := by
    unfold startsComment at hstarts
    split at hstarts <;> simp_all [isBlank]
  have hrun : ∀ x ∈ c :: cs, decide (x ≠ '\n') = true :=
    fun x hx => decide_eq_true fun heq => hline (heq ▸ hx)
  have hstop : ∀ x ∈ ('\n' :: rest).head?, decide (x ≠ '\n') = false := by simp
  rw [scan, if_neg hblank, if_pos hstarts', scanWhile]
  exact ⟨rfl, (span_append hrun hstop).2⟩

/-- A comment at the start of a text does not matter, nor does a line for the preprocessor. -/
theorem reads_comment {cs : List Char} (hstarts : startsComment cs = true) (hline : '\n' ∉ cs)
    {rest : List Char} {ts : List Token} (h : Reads rest ts) : Reads (cs ++ '\n' :: rest) ts := by
  cases cs with
  | nil => cases hstarts
  | cons c cs =>
    obtain ⟨hpiece, hrest⟩ := scan_comment hstarts hline rest
    exact .blank hpiece hrest (reads_blank (by decide) h)

/-! ## Words, counts and constants -/

/-- Whether a text does not prolong a name or a count in front of it. -/
def isApart : List Char → Bool
  | [] => true
  | c :: _ => !Text.isIdentifierChar c && c ≠ '.'

/-- What the first character of a text that is apart cannot be. -/
theorem head_of_isApart {rest : List Char} (h : isApart rest = true) :
    ∀ c ∈ rest.head?, Text.isIdentifierChar c = false ∧ c ≠ '.' := by
  intro c hc
  cases rest with
  | nil => cases hc
  | cons d rest =>
    obtain rfl : d = c := Option.some.inj hc
    simpa [isApart] using h

/-- A name does not start with a digit. -/
theorem start_not_digit {c : Char} (h : Text.isIdentifierStart c = true) : c.isDigit = false := by
  simp only [Text.isIdentifierStart, Char.isAlpha, Char.isUpper, Char.isLower, Bool.or_eq_true,
    Bool.and_eq_true, decide_eq_true_eq] at h
  simp only [Char.isDigit, Bool.and_eq_false_iff, decide_eq_false_iff_not]
  right
  intro hle
  have hdigit := UInt32.le_iff_toNat_le.1 hle
  rcases h with (h | h) | rfl
  · have hupper := UInt32.le_iff_toNat_le.1 h.1
    simp at hupper hdigit
    omega
  · have hlower := UInt32.le_iff_toNat_le.1 h.1
    simp at hlower hdigit
    omega
  · exact absurd hle (by decide)

/-- A character that a name may start with differs from one that it may not start with. -/
theorem start_ne {c d : Char} (h : Text.isIdentifierStart c = true)
    (hd : Text.isIdentifierStart d = false) : c ≠ d := by
  rintro rfl
  rw [h] at hd
  cases hd

/-- A word extends as far as a name can. -/
theorem scan_word {c : Char} (hc : Text.isIdentifierStart c = true) (cs : List Char) :
    (scan c cs).piece =
        .token (wordToken (String.ofList (c :: cs.takeWhile Text.isIdentifierChar))) ∧
      (scan c cs).rest = cs.dropWhile Text.isIdentifierChar := by
  have hblank : ¬isBlank c = true := by
    simp only [isBlank, Bool.or_eq_true, decide_eq_true_eq]
    rintro (((h | h) | h) | h) <;> exact start_ne hc (by decide) h
  have hcomment : ¬startsComment (c :: cs) = true := by
    unfold startsComment
    split
    · rename_i heq
      exact absurd (List.cons.inj heq).1 (start_ne hc (by decide))
    · rename_i heq
      exact absurd (List.cons.inj heq).1 (start_ne hc (by decide))
    · decide
  have hdigit : ¬c.isDigit = true := by simp [start_not_digit hc]
  have hminus : ¬(c = '-' ∧ cs.head?.any Char.isDigit = true) :=
    fun h => start_ne hc (by decide) h.1
  have hquote : ¬c = '"' := start_ne hc (by decide)
  have hchar := isIdentifierChar_of_start hc
  rw [scan, if_neg hblank, if_neg hcomment, if_neg hdigit, if_neg hminus, if_neg hquote, if_pos hc,
    scanWhile, List.takeWhile_cons_of_pos hchar, List.dropWhile_cons_of_pos hchar]
  exact ⟨rfl, rfl⟩

/-- Whether a text is a word: letters, digits and underscores, with no digit in front. -/
def isWord (s : String) : Bool :=
  s.toList.head?.any Text.isIdentifierStart && s.toList.all Text.isIdentifierChar

/-- Whether a text is a name: a word and no keyword. -/
def isName (s : String) : Bool := isWord s && (Keyword.ofText? s).isNone

/-- A word at the start of a text is one token. -/
theorem reads_word {s : String} (hs : isWord s = true) {rest : List Char} {ts : List Token}
    (h : Reads rest ts) (hrest : isApart rest = true) :
    Reads (s.toList ++ rest) (wordToken s :: ts) := by
  simp only [isWord, Bool.and_eq_true] at hs
  obtain ⟨hstart, hchars⟩ := hs
  cases hlist : s.toList with
  | nil =>
    rw [hlist] at hstart
    cases hstart
  | cons c cs =>
    rw [hlist] at hstart hchars
    have hc : Text.isIdentifierStart c = true := by simpa using hstart
    have hcs : ∀ d ∈ cs, Text.isIdentifierChar d = true :=
      fun d hd => List.all_eq_true.1 hchars d (List.mem_cons_of_mem c hd)
    obtain ⟨htake, hdrop⟩ := span_append hcs fun d hd => (head_of_isApart hrest d hd).1
    obtain ⟨hpiece, hafter⟩ := scan_word hc (cs ++ rest)
    rw [htake, ← hlist, String.ofList_toList] at hpiece
    rw [hdrop] at hafter
    exact .token hpiece hafter h

/-- A name is a word, and its token is that of an identifier. -/
theorem word_of_isName {s : String} (hs : isName s = true) :
    isWord s = true ∧ wordToken s = .ident s := by
  simp only [isName, Bool.and_eq_true, Option.isNone_iff_eq_none] at hs
  exact ⟨hs.1, by rw [wordToken, hs.2]⟩

/-- A name at the start of a text is one token. -/
theorem reads_name {s : String} (hs : isName s = true) {rest : List Char} {ts : List Token}
    (h : Reads rest ts) (hrest : isApart rest = true) :
    Reads (s.toList ++ rest) (.ident s :: ts) := by
  obtain ⟨hword, htoken⟩ := word_of_isName hs
  rw [← htoken]
  exact reads_word hword h hrest

/-- No exponent is taken off a text that is apart. -/
theorem takeExponent_apart {rest : List Char} (hrest : isApart rest = true) :
    takeExponent rest = ([], rest) := by
  cases rest with
  | nil => rfl
  | cons c rest =>
    have hc := (head_of_isApart hrest c rfl).1
    have hmark : ¬(c = 'e' ∨ c = 'E') := by
      rintro (rfl | rfl) <;> exact absurd hc (by decide)
    simp only [takeExponent, hmark, false_and, if_false]

/-- A count at the start of a text is one token. -/
theorem reads_count {n : Nat} (hn : n < Index.limit) {rest : List Char} {ts : List Token}
    (h : Reads rest ts) (hrest : isApart rest = true) :
    Reads ((natText n).toList ++ rest) (.int n :: ts) := by
  have hafter : ∀ c ∈ rest.head?, c.isDigit = false ∧ c ≠ '.' := by
    intro c hc
    obtain ⟨hchar, hpoint⟩ := head_of_isApart hrest c hc
    simp only [Text.isIdentifierChar, Text.isLetterOrDigit, Bool.or_eq_false_iff] at hchar
    exact ⟨hchar.1.2, hpoint⟩
  have hdigits := DecimalLayout.isDigits_digitChars n
  obtain ⟨htake, hdrop⟩ := span_append hdigits.2 fun c hc => (hafter c hc).1
  have hfraction : takeFraction rest = ([], rest) := takeFraction_append .none hafter
  have hscan : (scanNumber [] (digitChars n ++ rest)).piece = .token (.int n) ∧
      (scanNumber [] (digitChars n ++ rest)).rest = rest := by
    simp only [scanNumber, htake, hdrop, hfraction, takeExponent_apart hrest]
    split
    · exact absurd (head_of_isApart hrest 'f' rfl).1 (by decide)
    · simp [natOfDigits_digitChars, hn]
  rw [toList_natText]
  obtain ⟨c, cs, hcs, hc⟩ := hdigits.head
  rw [hcs] at hscan ⊢
  rw [List.cons_append, ← scan_digit hc] at hscan
  exact .token hscan.1 hscan.2 h

/-- A finite constant at the start of a text is one token, whatever follows. -/
theorem reads_literal {x : Float32} (hx : Single.isFinite x = true) {rest : List Char}
    {ts : List Token} (h : Reads rest ts) :
    Reads ((Artifact.literalText x).toList ++ rest) (.float x :: ts) := by
  obtain ⟨c, cs, hcs, hpiece, hrest⟩ := scan_literal hx rest
  rw [hcs]
  exact .token hpiece hrest h

/-- A quotation at the start of a text is one token, whatever follows. -/
theorem reads_quote {s : String} (hs : ∀ c ∈ s.toList, c ≠ '"' ∧ c ≠ '\n') {rest : List Char}
    {ts : List Token} (h : Reads rest ts) :
    Reads ('"' :: (s.toList ++ '"' :: rest)) (.quote s :: ts) := by
  have hinside : ∀ c ∈ s.toList, (decide (c ≠ '"') && decide (c ≠ '\n')) = true := by
    intro c hc
    simpa using hs c hc
  have hstop : ∀ c ∈ ('"' :: rest).head?, (decide (c ≠ '"') && decide (c ≠ '\n')) = false := by
    simp
  obtain ⟨htake, hdrop⟩ := span_append hinside hstop
  have hscan : scan '"' (s.toList ++ '"' :: rest) = scanQuote (s.toList ++ '"' :: rest) := rfl
  refine .token ?_ ?_ h
  · simp only [hscan, scanQuote, htake, hdrop, String.ofList_toList]
  · simp only [hscan, scanQuote, hdrop]

/-! ## Text that is always the same -/

/-- Two characters that form a symbol are scanned as it, whatever follows. -/
theorem scan_pair {c d : Char} {sign : Symbol} (h : Symbol.ofPair? c d = some sign)
    (rest : List Char) : (scan c (d :: rest)).piece = .token (.symbol sign) ∧
      (scan c (d :: rest)).rest = rest := by
  unfold Symbol.ofPair? at h
  split at h <;> cases h <;> exact ⟨rfl, rfl⟩

/-- Whether a character does not form a longer piece with what follows. -/
def standsAlone (c : Char) (cs : List Char) : Bool :=
  c ∉ ['-', '+', '&', '/'] || cs.head? = some ' '

/-- A character that is a symbol and stands alone is scanned as the symbol. -/
theorem scan_sign {c : Char} {cs : List Char} {sign : Symbol} (h : Symbol.ofChar? c = some sign)
    (hc : standsAlone c cs = true) : (scan c cs).piece = .token (.symbol sign) ∧
      (scan c cs).rest = cs := by
  simp only [standsAlone, Bool.or_eq_true, decide_eq_true_eq] at hc
  rcases hc with hc | hc
  · -- Only the four signs that start longer pieces look at the next character.
    unfold Symbol.ofChar? at h
    split at h <;> cases h <;>
      first
        | exact absurd hc (by decide)
        | (cases cs <;> exact ⟨rfl, rfl⟩)
  · obtain ⟨rest, rfl⟩ : ∃ rest, cs = ' ' :: rest := by
      cases cs with
      | nil => cases hc
      | cons d rest => exact ⟨rest, by rw [Option.some.inj hc]⟩
    unfold Symbol.ofChar? at h
    split at h <;> cases h <;> exact ⟨rfl, rfl⟩

/-- More text at the end does not matter to a character that stands alone. -/
theorem standsAlone_append {c : Char} {cs : List Char} (h : standsAlone c cs = true)
    (rest : List Char) : standsAlone c (cs ++ rest) = true := by
  simp only [standsAlone, Bool.or_eq_true, decide_eq_true_eq] at h ⊢
  refine h.imp_right fun h => ?_
  rw [List.head?_append, h]
  rfl

/-- The tokens of a text, if they are the same whatever follows it. Numbers and quotations are not
looked for. -/
def fixedTokens : Nat → List Char → Option (List Token)
  | _, [] => some []
  | 0, _ :: _ => none
  | fuel + 1, c :: cs =>
    if isBlank c then fixedTokens fuel cs
    else if Text.isIdentifierStart c then
      match cs.dropWhile Text.isIdentifierChar with
      | [] => none
      | rest => (fixedTokens fuel rest).map
          (wordToken (String.ofList (c :: cs.takeWhile Text.isIdentifierChar)) :: ·)
    else
      match cs.head?.bind (Symbol.ofPair? c) with
      | some sign => (fixedTokens fuel (cs.drop 1)).map (.symbol sign :: ·)
      | none =>
        match Symbol.ofChar? c with
        | some sign =>
          if standsAlone c cs then (fixedTokens fuel cs).map (.symbol sign :: ·) else none
        | none => none

/-- A run that ends within a text is the same whatever follows the text. -/
theorem span_append_of_stop {p : Char → Bool} {cs after : List Char} {c : Char}
    (h : cs.dropWhile p = c :: after) (rest : List Char) :
    (cs ++ rest).takeWhile p = cs.takeWhile p ∧
      (cs ++ rest).dropWhile p = c :: after ++ rest := by
  have hsplit : cs ++ rest = cs.takeWhile p ++ (c :: after ++ rest) := by
    rw [← List.append_assoc, ← h, List.takeWhile_append_dropWhile]
  have hrun : ∀ d ∈ cs.takeWhile p, p d = true :=
    List.all_eq_true.1 List.all_takeWhile
  have hstop : ∀ d ∈ (c :: after ++ rest).head?, p d = false := by
    intro d hd
    obtain rfl : c = d := Option.some.inj hd
    have hne : cs.dropWhile p ≠ [] := by simp [h]
    have hhead := List.head_dropWhile_not p hne
    simpa [h] using hhead
  rw [hsplit]
  exact span_append hrun hstop

/-- The tokens of a text that are the same whatever follows it are read off its front. -/
theorem reads_fixedTokens {fuel : Nat} {cs rest : List Char} {ts more : List Token}
    (hcs : fixedTokens fuel cs = some ts) (h : Reads rest more) :
    Reads (cs ++ rest) (ts ++ more) := by
  fun_induction fixedTokens fuel cs generalizing ts with
  | case1 => cases hcs; exact h
  | case2 => cases hcs
  | case3 fuel c cs hblank ih => exact reads_blank hblank (ih hcs)
  | case4 => cases hcs
  | case5 fuel c cs _ hstart hne ih =>
    obtain ⟨tail, htail, rfl⟩ := Option.map_eq_some_iff.1 hcs
    -- The word ends within the text, so that what follows the text cannot prolong it.
    obtain ⟨d, after, hdrop⟩ := List.exists_cons_of_ne_nil hne
    obtain ⟨htake, hafter⟩ := span_append_of_stop hdrop rest
    obtain ⟨hpiece, hrest⟩ := scan_word hstart (cs ++ rest)
    rw [htake] at hpiece
    rw [hafter, ← hdrop] at hrest
    exact .token hpiece hrest (ih htail)
  | case6 fuel c cs _ _ sign hpair ih =>
    obtain ⟨tail, htail, rfl⟩ := Option.map_eq_some_iff.1 hcs
    cases cs with
    | nil => cases hpair
    | cons d cs =>
      obtain ⟨hpiece, hrest⟩ := scan_pair hpair (cs ++ rest)
      exact .token hpiece hrest (ih htail)
  | case7 fuel c cs _ _ _ sign hsign halone ih =>
    obtain ⟨tail, htail, rfl⟩ := Option.map_eq_some_iff.1 hcs
    obtain ⟨hpiece, hrest⟩ := scan_sign hsign (standsAlone_append halone rest)
    exact .token hpiece hrest (ih htail)
  | case8 => cases hcs
  | case9 => cases hcs

/-- A text that is always the same is read off the front of a text. -/
theorem reads_fixed {rest : List Char} {more : List Token} (s : String) (ts : List Token)
    (hs : fixedTokens s.toList.length s.toList = some ts) (h : Reads rest more) :
    Reads (s.toList ++ rest) (ts ++ more) :=
  reads_fixedTokens hs h

end Lexer

end LedPattern
