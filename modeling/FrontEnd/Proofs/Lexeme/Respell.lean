import FrontEnd.Proofs.Lexeme.Boundary
import FrontEnd.Proofs.Lexeme.Tokens
import Mathlib.Data.List.Find

/-!
# Writing tokens and reading them again

A token of a kind with a lexeme is written as `Kind.sourceText`: the mark `~` for the sign of a
negative literal, quotes around quoted literals, the lexeme itself otherwise.  `Respells` says that
this text, up to a boundary, is read as that one token.

The statement of this module is that whatever reading yields respells (`stable_read`), whether
the text it was read from was written in normal form or not, and with no regard to the other tokens
of its group.  The argument follows the kinds of lexemes: a quoted text is free of what would end or
refuse it; a number is in normal form, and normalizing is idempotent; a word, an operator and
a sign are found again since a boundary neither belongs to a word nor extends an operator.
-/

namespace FrontEnd

/-- The text a token is written as. -/
def Kind.sourceText (k : Kind) (lexeme : List Char) : List Char :=
  match k with
  | .negIntLit | .negDoubleLit => '~' :: lexeme.tail
  | .stringLit => '"' :: (lexeme ++ ['"'])
  | .charLit => '\'' :: (lexeme ++ ['\''])
  | _ => lexeme

/-- Up to a boundary, the text a token is written as is read as that token. -/
def Respells (limit : Nat) (t : Kind × String) : Prop :=
  ∃ c cs, t.1.sourceText t.2.toList = c :: cs ∧ ¬ EndsLexeme c ∧
    ∀ rest, Stops rest → Lexeme.read limit c (cs ++ rest) = .token cs.length t.1 t.2

namespace Lexeme

variable {limit : Nat} {c : Char} {cs rest : List Char}

/-- Every token of a lexeme respells. -/
abbrev Stable (limit : Nat) (l : Lexeme) : Prop :=
  l.All (Respells limit)

/-! ### Quoted literals -/

/-- A text that may stand between double quotes. -/
inductive StringText : List Char → Prop
  | nil : StringText []
  | escape {c : Char} {cs : List Char} :
    isEscaped '"' c → StringText cs → StringText ('\\' :: c :: cs)
  | plain {c : Char} {cs : List Char} :
    c ≠ '\\' → c ≠ '\n' → c ≠ '"' → StringText cs → StringText (c :: cs)

theorem stringBody_plain (hslash : c ≠ '\\') : stringBody (c :: cs) =
    if c = '\n' then .unclosed 0
    else if c = '"' then ⟨1, [], none, true⟩
    else (stringBody cs).before [c] := by
  rw [stringBody]
  · exact fun h ↦ absurd h hslash
  · exact fun _ _ h ↦ absurd h hslash

theorem stringText_of_closed (cs : List Char) (hclosed : (stringBody cs).closed)
    (hgood : (stringBody cs).badEscape = none) : StringText (stringBody cs).text := by
  fun_induction stringBody cs with
  | case1 => simp [StringBody.unclosed] at hclosed
  | case2 => simp [StringBody.unclosed] at hclosed
  | case3 c cs hesc ih => exact .escape hesc (ih hclosed hgood)
  | case4 => simp [StringBody.unclosed] at hclosed
  | case5 c cs _ _ ih => simp [StringBody.beforeBad] at hgood
  | case6 => simp [StringBody.unclosed] at hclosed
  | case7 => exact .nil
  | case8 c cs hlast hescape hline hquote ih =>
    exact .plain (ne_backslash hlast hescape) hline hquote (ih hclosed hgood)

theorem stringBody_append {text : List Char} (h : StringText text) (rest : List Char) :
    stringBody (text ++ '"' :: rest) = ⟨text.length + 1, text, none, true⟩ := by
  induction h with
  | nil => simp [stringBody]
  | escape hesc _ ih => simp [stringBody, hesc, ih, StringBody.before]
  | @plain c cs hslash hline hquote _ ih =>
    rw [List.cons_append, stringBody_plain hslash]
    simp [hline, hquote, ih, StringBody.before]

theorem respells_string {text : List Char} (h : StringText text) :
    Respells limit (.stringLit, String.ofList text) := by
  refine ⟨'"', text ++ ['"'], by simp [Kind.sourceText], by decide, fun rest _ ↦ ?_⟩
  rw [List.append_assoc, List.singleton_append, read_quote, stringLiteral, stringBody_append h]
  simp [token]

theorem stable_stringLiteral (cs : List Char) : (stringLiteral cs).Stable limit := by
  rw [stringLiteral]
  split
  next hclosed =>
    split
    next => exact all_refused _ _
    next hgood => exact all_token (respells_string (stringText_of_closed cs hclosed hgood))
  next => exact all_refused _ _

theorem closeCharacter_quote (taken : Nat) (value rest : List Char) :
    closeCharacter taken value ('\'' :: rest) =
      token (taken + 1) .charLit (String.ofList value) := rfl

theorem characterLiteral_plain (hslash : c ≠ '\\') (hline : c ≠ '\n') (hquote : c ≠ '\'') :
    characterLiteral (c :: cs) = closeCharacter 1 [c] cs := by
  rw [characterLiteral]
  all_goals simp [hslash, hline, hquote]

theorem characterLiteral_escape (c : Char) (cs : List Char) :
    characterLiteral ('\\' :: c :: cs) =
      if isEscaped '\'' c then closeCharacter 2 ['\\', c] cs
      else if c = '\n' then refused 1 .unterminatedCharacter
      else refused (2 + (throughQuote? cs).getD 0) (.invalidEscape c .character) := rfl

theorem respells_plainCharacter (hslash : c ≠ '\\') (hline : c ≠ '\n') (hquote : c ≠ '\'') :
    Respells limit (.charLit, String.ofList [c]) := by
  refine ⟨'\'', [c, '\''], by simp [Kind.sourceText], by decide, fun rest _ ↦ ?_⟩
  rw [read_apostrophe, List.cons_append, List.singleton_append,
    characterLiteral_plain hslash hline hquote]
  exact closeCharacter_quote 1 [c] rest

theorem respells_escapedCharacter (h : isEscaped '\'' c) :
    Respells limit (.charLit, String.ofList ['\\', c]) := by
  refine ⟨'\'', ['\\', c, '\''], by simp [Kind.sourceText], by decide, fun rest _ ↦ ?_⟩
  rw [read_apostrophe, List.cons_append, List.cons_append, List.singleton_append,
    characterLiteral_escape, if_pos h]
  exact closeCharacter_quote 2 ['\\', c] rest

theorem stable_characterLiteral (cs : List Char) : (characterLiteral cs).Stable limit := by
  cases cs with
  | nil => exact all_refused _ _
  | cons c cs =>
    by_cases hline : c = '\n'
    · subst hline
      exact all_refused _ _
    by_cases hquote : c = '\''
    · subst hquote
      exact all_refused _ _
    by_cases hslash : c = '\\'
    · subst hslash
      cases cs with
      | nil => exact all_refused _ _
      | cons c cs =>
        rw [characterLiteral_escape]
        split
        next hesc => exact all_closeCharacter cs (respells_escapedCharacter hesc)
        next => split <;> exact all_refused _ _
    · rw [characterLiteral_plain hslash hline hquote]
      exact all_closeCharacter cs (respells_plainCharacter hslash hline hquote)

/-! ### Numbers -/

/-- What may follow a number: no character of a word and no point. -/
def EndsNumeral (rest : List Char) : Prop :=
  ∀ c ∈ rest.head?, isWordChar c = false ∧ c ≠ '.'

theorem endsNumeral_of_stops (h : Stops rest) : EndsNumeral rest := by
  intro c hc
  refine ⟨(h c hc).not_isWordChar, ?_⟩
  rintro rfl
  exact absurd (h '.' hc) (by decide)

namespace EndsNumeral

theorem takeWhile_isWordChar (h : EndsNumeral rest) : rest.takeWhile isWordChar = [] := by
  cases rest with
  | nil => rfl
  | cons c rest => simp [(h c rfl).1]

theorem takeWhile_isDigit (h : EndsNumeral rest) {w : List Char} (hw : ∀ c ∈ w, c.isDigit) :
    (w ++ rest).takeWhile Char.isDigit = w := by
  rw [List.takeWhile_append_of_pos hw]
  cases rest with
  | nil => simp
  | cons c rest =>
    have hc := (h c rfl).1
    simp only [isWordChar, Char.isAlphanum, Bool.or_eq_false_iff] at hc
    simp [hc.1.2]

theorem numeralTail (h : EndsNumeral rest) : numeralTail rest = .whole := by
  unfold Lexeme.numeralTail
  split
  next => exact absurd rfl (h '.' rfl).2
  next => rfl

end EndsNumeral

/-- A row of digits up to what ends it. -/
theorem numeral_append_whole {negative : Bool} {d : Char} {ds : List Char}
    (hds : ∀ c ∈ ds, c.isDigit) (h : EndsNumeral rest) :
    numeral negative d (ds ++ rest) = ofNormal ds.length (normalInteger (d :: ds) negative) := by
  simp [numeral, h.takeWhile_isDigit hds, h.numeralTail, h.takeWhile_isWordChar]

/-- Two rows of digits with a point between them, up to what ends them. -/
theorem numeral_append_fraction {negative : Bool} {d : Char} {ds fs : List Char}
    (hds : ∀ c ∈ ds, c.isDigit) (hfs : ∀ c ∈ fs, c.isDigit) (h : EndsNumeral rest) :
    numeral negative d (ds ++ '.' :: (fs ++ rest)) =
      ofNormal (ds.length + (fs.length + 1)) (normalDouble (d :: ds) fs negative) := by
  have hwhole : (ds ++ '.' :: (fs ++ rest)).takeWhile Char.isDigit = ds := by
    rw [List.takeWhile_append_of_pos hds]
    simp
  have hhead : rest.head? ≠ some '.' := fun hpoint ↦ absurd rfl (h '.' hpoint).2
  have htail : numeralTail ('.' :: (fs ++ rest)) = .fraction fs := by
    simp [numeralTail, h.takeWhile_isDigit hfs, hhead]
  simp [numeral, hwhole, htail, h.takeWhile_isWordChar]

/-- Digits in normal form are read as they stand. -/
theorem respells_integer {w : List Char} (hne : w ≠ []) (hw : ∀ c ∈ w, c.isDigit)
    (h : normalInteger w false = .ok (.intLit, String.ofList w)) :
    Respells limit (.intLit, String.ofList w) := by
  obtain ⟨d, ds, rfl⟩ := List.exists_cons_of_ne_nil hne
  have hd : d.isDigit := hw d List.mem_cons_self
  refine ⟨d, ds, by simp [Kind.sourceText], fun he ↦ ?_, fun rest hrest ↦ ?_⟩
  · simp [he.not_isDigit] at hd
  · rw [read_digit hd, numeral_append_whole (fun c hc ↦ hw c (List.mem_cons_of_mem _ hc))
      (endsNumeral_of_stops hrest), h]
    rfl

theorem respells_negativeInteger {w : List Char} (hne : w ≠ []) (hw : ∀ c ∈ w, c.isDigit)
    (h : normalInteger w true = .ok (.negIntLit, String.ofList ('-' :: w))) :
    Respells limit (.negIntLit, String.ofList ('-' :: w)) := by
  obtain ⟨d, ds, rfl⟩ := List.exists_cons_of_ne_nil hne
  refine ⟨'~', d :: ds, by simp [Kind.sourceText], by decide, fun rest hrest ↦ ?_⟩
  rw [List.cons_append, read_tilde (hw d List.mem_cons_self),
    numeral_append_whole (fun c hc ↦ hw c (List.mem_cons_of_mem _ hc))
      (endsNumeral_of_stops hrest), h]
  rfl

theorem respells_double {w f : List Char} (hne : w ≠ []) (hw : ∀ c ∈ w, c.isDigit)
    (hf : ∀ c ∈ f, c.isDigit)
    (h : normalDouble w f false = .ok (.doubleLit, String.ofList (w ++ '.' :: f))) :
    Respells limit (.doubleLit, String.ofList (w ++ '.' :: f)) := by
  obtain ⟨d, ds, rfl⟩ := List.exists_cons_of_ne_nil hne
  have hd : d.isDigit := hw d List.mem_cons_self
  refine ⟨d, ds ++ '.' :: f, by simp [Kind.sourceText], fun he ↦ ?_, fun rest hrest ↦ ?_⟩
  · simp [he.not_isDigit] at hd
  · rw [read_digit hd, List.append_assoc, List.cons_append,
      numeral_append_fraction (fun c hc ↦ hw c (List.mem_cons_of_mem _ hc)) hf
      (endsNumeral_of_stops hrest), h]
    simp [ofNormal]

theorem respells_negativeDouble {w f : List Char} (hne : w ≠ []) (hw : ∀ c ∈ w, c.isDigit)
    (hf : ∀ c ∈ f, c.isDigit)
    (h : normalDouble w f true = .ok (.negDoubleLit, String.ofList ('-' :: (w ++ '.' :: f)))) :
    Respells limit (.negDoubleLit, String.ofList ('-' :: (w ++ '.' :: f))) := by
  obtain ⟨d, ds, rfl⟩ := List.exists_cons_of_ne_nil hne
  refine ⟨'~', d :: ds ++ '.' :: f, by simp [Kind.sourceText], by decide, fun rest hrest ↦ ?_⟩
  rw [List.append_assoc, List.cons_append, List.cons_append,
    read_tilde (hw d List.mem_cons_self),
    numeral_append_fraction (fun c hc ↦ hw c (List.mem_cons_of_mem _ hc)) hf
      (endsNumeral_of_stops hrest), h]
  simp [ofNormal, token, Lexeme.shifted, Nat.add_assoc]

theorem stable_ofNormal_integer {extra : Nat} {digits : List Char} {negative : Bool}
    (hdigits : ∀ c ∈ digits, c.isDigit) :
    (ofNormal extra (normalInteger digits negative)).Stable limit := by
  cases h : normalInteger digits negative with
  | error cause => exact all_refused _ _
  | ok result =>
    obtain ⟨k, s⟩ := result
    refine all_token ?_
    have hw := isDigit_of_mem_wholePart hdigits
    rcases normalInteger_eq_ok h with ⟨rfl, rfl, hs⟩ | ⟨rfl, rfl, hs⟩
    · exact respells_integer (wholePart_ne_nil _) hw (normalInteger_wholePart digits _ ▸ hs)
    · exact respells_negativeInteger (wholePart_ne_nil _) hw
        (normalInteger_wholePart digits _ ▸ hs)

theorem stable_ofNormal_double {extra : Nat} {whole fraction : List Char} {negative : Bool}
    (hwhole : ∀ c ∈ whole, c.isDigit) (hfraction : ∀ c ∈ fraction, c.isDigit) :
    (ofNormal extra (normalDouble whole fraction negative)).Stable limit := by
  cases h : normalDouble whole fraction negative with
  | error cause => exact all_refused _ _
  | ok result =>
    obtain ⟨k, s⟩ := result
    refine all_token ?_
    have hw := isDigit_of_mem_wholePart hwhole
    have hf := isDigit_of_mem_fractionPart hfraction
    obtain ⟨hne, ⟨rfl, rfl, hs⟩ | ⟨rfl, rfl, hs⟩⟩ := normalDouble_eq_ok h
    · exact respells_double (wholePart_ne_nil _) hw hf
        (normalDouble_wholePart_fractionPart hne whole _ ▸ hs)
    · exact respells_negativeDouble (wholePart_ne_nil _) hw hf
        (normalDouble_wholePart_fractionPart hne whole _ ▸ hs)

theorem stable_numeral {negative : Bool} {d : Char} (hd : d.isDigit) (cs : List Char) :
    (numeral negative d cs).Stable limit := by
  have hdigits : ∀ c ∈ d :: cs.takeWhile Char.isDigit, c.isDigit :=
    List.forall_mem_cons.2 ⟨hd, isDigit_of_mem_takeWhile⟩
  exact all_numeral (fun _ ↦ stable_ofNormal_integer hdigits)
    fun _ _ hfraction ↦ stable_ofNormal_double hdigits hfraction

/-! ### Words -/

/-- A reserved word and a name are written as they are read. -/
theorem sourceText_of_ofWord? {name : String} {k : Kind} (h : Kind.ofWord? name = some k)
    (l : List Char) : k.sourceText l = l := by
  have hall : ∀ entry ∈ Kind.words, entry.2.sourceText l = l := by
    simp [Kind.words, Kind.sourceText]
  exact hall (name, k) (Kind.mem_words_of_ofWord? h)

theorem isWordChar_of_isAlpha (h : c.isAlpha) : isWordChar c := by
  simp [isWordChar, Char.isAlphanum, h]

theorem isWordChar_of_mem_takeWhile : ∀ c ∈ cs.takeWhile isWordChar, isWordChar c :=
  fun _ hc ↦ List.mem_takeWhile_imp hc

/-- A word is respelled once the word made of its characters alone is the token. -/
theorem respells_word {k : Kind} {tail : List Char} (hc : c.isAlpha)
    (htext : k.sourceText (c :: tail) = c :: tail)
    (h : ∀ rest, rest.takeWhile isWordChar = [] → word limit c (tail ++ rest) =
      token tail.length k (String.ofList (c :: tail))) :
    Respells limit (k, String.ofList (c :: tail)) := by
  refine ⟨c, tail, by simpa using htext, fun hends ↦ ?_, fun rest hrest ↦ ?_⟩
  · have := hends.not_isWordChar
    simp [isWordChar_of_isAlpha hc] at this
  · rw [read_letter hc]
    exact h rest (hrest.takeWhile_eq_nil fun _ hd ↦ hd.not_isWordChar)

theorem stable_word (hc : c.isAlpha || c == '_') (cs : List Char) :
    (word limit c cs).Stable limit := by
  have htail : ∀ d ∈ cs.takeWhile isWordChar, isWordChar d := isWordChar_of_mem_takeWhile
  -- The tail is what it was before the boundary, so every test comes out as it did.
  have hagain : ∀ rest : List Char, rest.takeWhile isWordChar = [] →
      (cs.takeWhile isWordChar ++ rest).takeWhile isWordChar = cs.takeWhile isWordChar := by
    intro rest hrest
    rw [List.takeWhile_append_of_pos htail, hrest, List.append_nil]
  rw [word]
  split
  next => exact all_refused _ _
  next hunder =>
    have halpha : c.isAlpha := by simpa [hunder] using hc
    split
    next k hk =>
      refine all_token (respells_word halpha (sourceText_of_ofWord? hk _) ?_)
      intro rest hrest
      simp only [word, hagain rest hrest, if_neg hunder, hk]
    next hname =>
      split
      next => exact all_refused _ _
      next hlimit =>
        refine all_token (respells_word halpha rfl ?_)
        intro rest hrest
        simp only [word, hagain rest hrest, if_neg hunder, hname, if_neg hlimit]

/-! ### Signs -/

theorem read_sign {kinds : SignKinds} (h : signKinds? c = some kinds) :
    read limit c cs = signRun kinds c cs := by
  rcases signKinds?_eq_some h with ⟨rfl, rfl⟩ | ⟨rfl, rfl⟩
  · exact read_plus
  · exact read_minus

/-- The spellings of the three kinds of a sign. -/
theorem spelling_of_signKinds? {kinds : SignKinds} (h : signKinds? c = some kinds) :
    kinds.single.spelling.toList = [c] ∧ kinds.step.spelling.toList = [c, c] ∧
      kinds.assign.spelling.toList = [c, '='] := by
  rcases signKinds?_eq_some h with ⟨rfl, rfl⟩ | ⟨rfl, rfl⟩ <;> decide

theorem sourceText_of_signKinds? {kinds : SignKinds} (h : signKinds? c = some kinds)
    (l : List Char) :
    kinds.single.sourceText l = l ∧ kinds.step.sourceText l = l ∧
      kinds.assign.sourceText l = l := by
  rcases signKinds?_eq_some h with ⟨rfl, rfl⟩ | ⟨rfl, rfl⟩ <;> exact ⟨rfl, rfl, rfl⟩

theorem not_endsLexeme_of_signKinds? {kinds : SignKinds} (h : signKinds? c = some kinds) :
    ¬ EndsLexeme c := by
  rcases signKinds?_eq_some h with ⟨rfl, -⟩ | ⟨rfl, -⟩ <;> decide

section

variable {kinds : SignKinds} (hsign : signKinds? c = some kinds)

include hsign

theorem takeWhile_sign_of_stops (h : Stops rest) : rest.takeWhile (· == c) = [] := by
  refine h.takeWhile_eq_nil fun d hd ↦ ?_
  have hne : d ≠ c := fun hdc ↦ not_endsLexeme_of_signKinds? hsign (hdc ▸ hd)
  simpa using hne

theorem respells_single : Respells limit (kinds.single, kinds.single.spelling) := by
  refine ⟨c, [], ?_, not_endsLexeme_of_signKinds? hsign, fun rest hrest ↦ ?_⟩
  · rw [(sourceText_of_signKinds? hsign _).1, (spelling_of_signKinds? hsign).1]
  · rw [read_sign hsign, signRun, List.nil_append, takeWhile_sign_of_stops hsign hrest]
    simp [hrest.head?_ne_equals]

theorem respells_step : Respells limit (kinds.step, kinds.step.spelling) := by
  refine ⟨c, [c], ?_, not_endsLexeme_of_signKinds? hsign, fun rest hrest ↦ ?_⟩
  · rw [(sourceText_of_signKinds? hsign _).2.1, (spelling_of_signKinds? hsign).2.1]
  · rw [read_sign hsign, signRun, List.singleton_append,
      List.takeWhile_cons_of_pos (by simp), takeWhile_sign_of_stops hsign hrest]
    simp [division, token]

theorem respells_assign : Respells limit (kinds.assign, kinds.assign.spelling) := by
  have hne : '=' ≠ c := by
    rcases signKinds?_eq_some hsign with ⟨rfl, -⟩ | ⟨rfl, -⟩ <;> decide
  refine ⟨c, ['='], ?_, not_endsLexeme_of_signKinds? hsign, fun rest _ ↦ ?_⟩
  · rw [(sourceText_of_signKinds? hsign _).2.2, (spelling_of_signKinds? hsign).2.2]
  · rw [read_sign hsign, signRun]
    simp [hne]

end

theorem stable_signRun {kinds : SignKinds} (h : signKinds? c = some kinds) (cs : List Char) :
    (signRun kinds c cs).Stable limit :=
  all_signRun (respells_single h) (respells_step h) (respells_assign h) c cs

/-! ### Operators -/

/-- An operator is the longest one that fits its own spelling. -/
theorem operator_spelling : ∀ k ∈ Kind.operators,
    Kind.operators.find? (fun j ↦ j.spelling.toList.isPrefixOf k.spelling.toList) = some k := by
  decide

theorem not_endsLexeme_of_mem_spelling :
    ∀ k ∈ Kind.operators, ∀ d ∈ k.spelling.toList, ¬ EndsLexeme d := by
  have hall : Kind.operators.all fun k ↦
      k.spelling.toList.all fun d ↦ !Text.isBlank d && d != '#' := by decide
  intro k hk d hd hends
  have hd := List.all_eq_true.1 (List.all_eq_true.1 hall k hk) d hd
  rcases hends with hblank | rfl
  · simp [hblank] at hd
  · simp at hd

theorem operator_head : ∀ k ∈ Kind.operators, k.spelling.toList.head?.any isMark := by
  decide

theorem sourceText_of_operator : ∀ k ∈ Kind.operators,
    k.sourceText k.spelling.toList = k.spelling.toList := by
  decide

theorem respells_operator {k : Kind} (hk : k ∈ Kind.operators) :
    Respells limit (k, k.spelling) := by
  have hspelling := not_endsLexeme_of_mem_spelling k hk
  have hhead := operator_head k hk
  obtain ⟨c, cs, hcs⟩ : ∃ c cs, k.spelling.toList = c :: cs := by
    cases h : k.spelling.toList with
    | nil => simp [h] at hhead
    | cons c cs => exact ⟨c, cs, rfl⟩
  have hmark : isMark c := by simpa [hcs] using hhead
  have hlength : k.spelling.length = cs.length + 1 := by
    rw [← String.length_toList, hcs, List.length_cons]
  refine ⟨c, cs, ?_, hspelling c (by simp [hcs]), fun rest hrest ↦ ?_⟩
  · rw [sourceText_of_operator k hk, hcs]
  · -- No operator reaches over the boundary, so the longest one that fits stays the same.
    have hfind : Kind.operators.find? (fun j ↦ j.spelling.toList.isPrefixOf (c :: cs ++ rest)) =
        some k := by
      rw [← operator_spelling k hk, ← hcs]
      refine List.find?_congr fun j hj ↦ ?_
      exact hrest.isPrefixOf_append (not_endsLexeme_of_mem_spelling j hj) k.spelling.toList
    rw [read_mark hmark, operator, ← List.cons_append, hfind]
    simp only [hlength, Nat.add_sub_cancel]

theorem stable_operator (c : Char) (cs : List Char) : (operator c cs).Stable limit := by
  unfold operator
  split
  next k hk => exact all_token (respells_operator (List.mem_of_find?_eq_some hk))
  next => exact all_refused _ _

/-! ### All lexemes -/

/-- Whatever is read respells. -/
theorem stable_read (limit : Nat) (c : Char) (cs : List Char) :
    (read limit c cs).Stable limit :=
  all_read stable_stringLiteral stable_characterLiteral (fun _ _ cs hd ↦ stable_numeral hd cs)
    (fun _ cs hc ↦ stable_word hc cs) (fun _ cs _ hkinds ↦ stable_signRun hkinds cs)
    stable_operator c cs

end Lexeme

end FrontEnd
