import FrontEnd.Proofs.Lexeme.Respell

/-!
# Lexemes keep to their line

A line feed ends every lexeme, also those that are refused: what is read in front of it is what
would be read at the end of the text (`read_append_newline`), and no more than that is taken
(`extra_read_le`).  An open string or character, an escape, a number without its fraction and a run
of signs are all cut off there.  So no token holds a line feed (`oneLine_read`).
-/

namespace FrontEnd.Lexeme

variable {limit : Nat} {c : Char} {cs : List Char}

theorem takeWhile_append_newline {p : Char → Bool} (hp : p '\n' = false) (cs rest : List Char) :
    (cs ++ '\n' :: rest).takeWhile p = cs.takeWhile p := by
  induction cs with
  | nil => simp [hp]
  | cons c cs ih => by_cases hc : p c <;> simp [hc, ih]

theorem head?_append_newline {d : Char} (hd : d ≠ '\n') (cs rest : List Char) :
    (cs ++ '\n' :: rest).head? = some d ↔ cs.head? = some d := by
  cases cs with
  | nil => simp [hd.symm]
  | cons c cs => simp

theorem length_takeWhile_le (p : Char → Bool) (cs : List Char) :
    (cs.takeWhile p).length ≤ cs.length :=
  (List.takeWhile_prefix p).length_le

/-! ### Quoted literals -/

theorem stringBody_append_newline (cs rest : List Char) :
    stringBody (cs ++ '\n' :: rest) = stringBody cs := by
  fun_induction stringBody cs with
  | case1 => simp [stringBody]
  | case2 => simp [stringBody, isEscaped]
  | case3 c cs hesc ih => simp [stringBody, hesc, ih]
  | case4 cs hesc => simp [stringBody, hesc]
  | case5 c cs hesc hline ih => simp [stringBody, hesc, hline, ih]
  | case6 cs => simp [stringBody]
  | case7 cs => simp [stringBody]
  | case8 c cs hlast hescape hline hquote ih =>
    rw [List.cons_append, stringBody_plain (ne_backslash hlast hescape)]
    simp [hline, hquote, ih]

theorem taken_stringBody_le (cs : List Char) : (stringBody cs).taken ≤ cs.length := by
  fun_induction stringBody cs with
  | case1 | case2 | case4 | case6 | case7 => simp [StringBody.unclosed]
  | case3 c cs _ ih => simpa [StringBody.before] using ih
  | case5 c cs _ _ ih => simpa [StringBody.beforeBad] using ih
  | case8 c cs _ _ _ _ ih => simpa [StringBody.before] using ih

theorem extra_stringLiteral_le (cs : List Char) : (stringLiteral cs).extra ≤ cs.length := by
  have hextra : (stringLiteral cs).extra = (stringBody cs).taken := by
    rw [stringLiteral]
    split
    · split <;> rfl
    · rfl
  exact hextra ▸ taken_stringBody_le cs

theorem throughQuote?_append_newline (cs rest : List Char) :
    throughQuote? (cs ++ '\n' :: rest) = throughQuote? cs := by
  induction cs with
  | nil => simp [throughQuote?]
  | cons c cs ih => simp only [List.cons_append, throughQuote?, ih]

theorem throughQuote?_le {n : Nat} (h : throughQuote? cs = some n) : n ≤ cs.length := by
  induction cs generalizing n with
  | nil => cases h
  | cons c cs ih =>
    rw [throughQuote?] at h
    split at h
    · cases h
    · split at h
      · cases h
        simp
      · obtain ⟨m, hm, rfl⟩ := Option.map_eq_some_iff.1 h
        exact Nat.succ_le_succ (ih hm)

theorem closeCharacter_append_newline (taken : Nat) (value cs rest : List Char) :
    closeCharacter taken value (cs ++ '\n' :: rest) = closeCharacter taken value cs := by
  cases cs with
  | nil => simp [closeCharacter, throughQuote?]
  | cons c cs =>
    by_cases hc : c = '\''
    · subst hc
      rfl
    · rw [closeCharacter, closeCharacter, throughQuote?_append_newline]
      all_goals simp [hc]

theorem extra_closeCharacter_le (taken : Nat) (value cs : List Char) :
    (closeCharacter taken value cs).extra ≤ taken + cs.length := by
  unfold closeCharacter
  split
  · simp [token]
  · split
    next n hn => exact Nat.add_le_add_left (throughQuote?_le hn) taken
    next => exact Nat.le_add_right _ _

theorem characterLiteral_append_newline (cs rest : List Char) :
    characterLiteral (cs ++ '\n' :: rest) = characterLiteral cs := by
  fun_cases characterLiteral cs
  case case1 => simp [characterLiteral]
  case case2 => simp [characterLiteral]
  case case3 => simp [characterLiteral]
  case case4 => simp [characterLiteral, isEscaped]
  case case5 c cs hesc => simp [characterLiteral, hesc, closeCharacter_append_newline]
  case case6 cs hesc => simp [characterLiteral, hesc]
  case case7 c cs hesc hline =>
    simp [characterLiteral, hesc, hline, throughQuote?_append_newline]
  case case8 c cs hline hquote hlast hescape =>
    rw [List.cons_append, characterLiteral_plain (ne_backslash hlast hescape) hline hquote]
    exact closeCharacter_append_newline 1 [c] cs rest

theorem extra_characterLiteral_le (cs : List Char) : (characterLiteral cs).extra ≤ cs.length := by
  fun_cases characterLiteral cs
  case case5 c cs _ =>
    have := extra_closeCharacter_le 2 ['\\', c] cs
    simp only [List.length_cons]
    omega
  case case7 c cs _ _ =>
    cases hquote : throughQuote? cs with
    | none => simp [refused]
    | some n =>
      have := throughQuote?_le hquote
      simp only [refused, Option.getD_some, List.length_cons]
      omega
  case case8 c cs _ _ _ _ =>
    have := extra_closeCharacter_le 1 [c] cs
    simp only [List.length_cons]
    omega
  all_goals simp [refused]

/-! ### Numbers -/

theorem numeralTail_append_newline (cs rest : List Char) :
    numeralTail (cs ++ '\n' :: rest) = numeralTail cs := by
  cases cs with
  | nil => rfl
  | cons c cs =>
    by_cases hc : c = '.'
    · subst hc
      have hle := length_takeWhile_le Char.isDigit cs
      simp only [List.cons_append, numeralTail, takeWhile_append_newline (p := Char.isDigit) rfl,
        List.drop_append_of_le_length hle, head?_append_newline (d := '.') (by decide)]
    · rw [numeralTail, numeralTail]
      all_goals simp [hc]

/-- How many characters a tail takes, the point included. -/
def NumeralTail.taken : NumeralTail → Nat
  | .whole => 0
  | .fraction digits => digits.length + 1
  | .secondPoint digits => digits.length + 1

theorem taken_numeralTail_le (cs : List Char) : (numeralTail cs).taken ≤ cs.length := by
  unfold numeralTail
  split
  next cs =>
    have hle := length_takeWhile_le Char.isDigit cs
    dsimp only
    split <;> simpa [NumeralTail.taken] using hle
  · exact Nat.zero_le _

theorem extra_ofNormal (extra : Nat) (result : Except Fault (Kind × String)) :
    (ofNormal extra result).extra = extra := by
  cases result <;> rfl

theorem numeral_append_newline (negative : Bool) (d : Char) (cs rest : List Char) :
    numeral negative d (cs ++ '\n' :: rest) = numeral negative d cs := by
  have hdigits := length_takeWhile_le Char.isDigit cs
  have htaken := taken_numeralTail_le (cs.drop (cs.takeWhile Char.isDigit).length)
  simp only [numeral, takeWhile_append_newline (p := Char.isDigit) rfl,
    List.drop_append_of_le_length hdigits, numeralTail_append_newline]
  split
  next fraction htail =>
    rw [htail, NumeralTail.taken] at htaken
    rw [List.drop_append_of_le_length htaken, takeWhile_append_newline (by decide)]
  next fraction htail =>
    rw [htail, NumeralTail.taken] at htaken
    rw [List.drop_append_of_le_length htaken, takeWhile_append_newline (by decide)]
  next => rw [takeWhile_append_newline (by decide)]

theorem extra_numeral_le (negative : Bool) (d : Char) (cs : List Char) :
    (numeral negative d cs).extra ≤ cs.length := by
  have hdigits := length_takeWhile_le Char.isDigit cs
  have htaken := taken_numeralTail_le (cs.drop (cs.takeWhile Char.isDigit).length)
  have hrun (p : Char → Bool) (n : Nat) (hn : n ≤ (cs.drop (cs.takeWhile Char.isDigit).length).length) :
      (cs.takeWhile Char.isDigit).length +
        (n + (((cs.drop (cs.takeWhile Char.isDigit).length).drop n).takeWhile p).length) ≤
          cs.length := by
    have := length_takeWhile_le p ((cs.drop (cs.takeWhile Char.isDigit).length).drop n)
    simp only [List.length_drop] at this hn
    omega
  simp only [numeral]
  split
  next fraction htail =>
    rw [htail] at htaken
    have := hrun (fun c ↦ isWordChar c || c == '.') _ htaken
    simp only [refused, NumeralTail.taken] at this ⊢
    omega
  next fraction htail =>
    rw [htail] at htaken
    have := hrun isWordChar _ htaken
    simp only [NumeralTail.taken] at this
    split
    · rw [extra_ofNormal]
      omega
    · simp only [refused]
      omega
  next =>
    have := hrun isWordChar 0 (Nat.zero_le _)
    simp only [List.drop_zero] at this
    split
    · rw [extra_ofNormal]
      omega
    · simp only [refused]
      omega

/-! ### Words, signs and operators -/

theorem word_append_newline (c : Char) (cs rest : List Char) :
    word limit c (cs ++ '\n' :: rest) = word limit c cs := by
  simp only [word, takeWhile_append_newline (p := isWordChar) (by decide)]

theorem extra_word_le (c : Char) (cs : List Char) : (word limit c cs).extra ≤ cs.length := by
  have hle := length_takeWhile_le isWordChar cs
  rw [word]
  split
  · exact hle
  · split
    · exact hle
    · split <;> exact hle

theorem signRun_append_newline {kinds : SignKinds} (h : signKinds? c = some kinds)
    (cs rest : List Char) : signRun kinds c (cs ++ '\n' :: rest) = signRun kinds c cs := by
  have hc : ('\n' == c) = false := by
    rcases signKinds?_eq_some h with ⟨rfl, -⟩ | ⟨rfl, -⟩ <;> rfl
  simp only [signRun, takeWhile_append_newline (p := (· == c)) hc,
    head?_append_newline (d := '=') (by decide)]

theorem extra_signRun_le (kinds : SignKinds) (c : Char) (cs : List Char) :
    (signRun kinds c cs).extra ≤ cs.length := by
  simp only [signRun]
  split
  · split
    next hequals =>
      cases cs with
      | nil => cases hequals
      | cons d ds => simp [token]
    next => exact Nat.zero_le _
  · exact length_takeWhile_le _ cs

theorem operator_append_newline (c : Char) (cs rest : List Char) :
    operator c (cs ++ '\n' :: rest) = operator c cs := by
  have hstops : Stops ('\n' :: rest) := stops_cons.2 (.inl (by decide))
  have hfind : Kind.operators.find? (fun k ↦ k.spelling.toList.isPrefixOf (c :: cs ++ '\n' :: rest))
      = Kind.operators.find? fun k ↦ k.spelling.toList.isPrefixOf (c :: cs) :=
    List.find?_congr fun k hk ↦ hstops.isPrefixOf_append (not_endsLexeme_of_mem_spelling k hk) _
  rw [operator, operator, ← List.cons_append, hfind]

theorem extra_operator_le (c : Char) (cs : List Char) : (operator c cs).extra ≤ cs.length := by
  unfold operator
  split
  next k hk =>
    have hprefix := List.find?_some hk
    have hle := (List.isPrefixOf_iff_prefix.1 hprefix).length_le
    rw [String.length_toList, List.length_cons] at hle
    exact Nat.sub_le_of_le_add hle
  next => exact Nat.zero_le _

/-! ### All lexemes -/

/-- A lexeme before a line feed is what it would be at the end of the text. -/
theorem read_append_newline (limit : Nat) (c : Char) (cs rest : List Char) :
    read limit c (cs ++ '\n' :: rest) = read limit c cs := by
  simp only [read, stringLiteral, stringBody_append_newline, characterLiteral_append_newline,
    numeral_append_newline, word_append_newline]
  cases hsign : signKinds? c with
  | some kinds => simp only [signRun_append_newline hsign]
  | none =>
    have hoperator := operator_append_newline c cs rest
    by_cases hc : c = '~'
    · subst hc
      cases cs with
      | nil =>
        have hnone : operator '~' [] = refused 0 (.illegalCharacter '~') := by decide
        simp [hnone]
      | cons d ds => simp only [List.cons_append, numeral_append_newline]
    · simp [hc, hoperator]

/-- A lexeme takes no more than the text there is. -/
theorem extra_read_le (limit : Nat) (c : Char) (cs : List Char) :
    (read limit c cs).extra ≤ cs.length := by
  fun_cases read limit c cs
  case case1 => exact extra_stringLiteral_le cs
  case case2 => exact extra_characterLiteral_le cs
  case case3 => exact extra_numeral_le false c cs
  case case4 => exact extra_word_le c cs
  case case5 => exact extra_signRun_le _ c cs
  case case6 => exact Nat.succ_le_succ (extra_numeral_le true _ _)
  case case7 => exact Nat.zero_le _
  case case8 => exact extra_operator_le c cs

/-! ### Tokens -/

/-- A token that is written on one line. -/
def OneLine (t : Kind × String) : Prop :=
  '\n' ∉ t.2.toList

theorem oneLine_ofList {k : Kind} {cs : List Char} (h : '\n' ∉ cs) :
    OneLine (k, String.ofList cs) := by
  simpa [OneLine] using h

theorem oneLine_of_forall {k : Kind} {p : Char → Bool} (hp : p '\n' = false)
    (h : ∀ c ∈ cs, p c) : OneLine (k, String.ofList cs) := by
  refine oneLine_ofList fun hmem ↦ ?_
  have hline := h _ hmem
  simp [hp] at hline

theorem StringText.oneLine {text : List Char} (h : StringText text) : '\n' ∉ text := by
  induction h with
  | nil => simp
  | @escape c cs hesc _ ih =>
    have hc : c ≠ '\n' := by
      rintro rfl
      simp [isEscaped] at hesc
    simp [hc.symm, ih]
  | plain _ hline _ _ ih => simp [Ne.symm hline, ih]

theorem oneLine_stringLiteral (cs : List Char) : (stringLiteral cs).All OneLine := by
  rw [stringLiteral]
  split
  next hclosed =>
    split
    next => exact all_refused _ _
    next hgood => exact all_token (oneLine_ofList (stringText_of_closed cs hclosed hgood).oneLine)
  next => exact all_refused _ _

theorem oneLine_characterLiteral (cs : List Char) : (characterLiteral cs).All OneLine := by
  fun_cases characterLiteral cs
  case case5 c cs hesc =>
    have hc : c ≠ '\n' := by
      rintro rfl
      simp [isEscaped] at hesc
    exact all_closeCharacter cs (oneLine_ofList (by simp [hc.symm]))
  case case8 c cs hline _ _ _ =>
    exact all_closeCharacter cs (oneLine_ofList (by simpa using Ne.symm hline))
  all_goals exact all_refused _ _

theorem oneLine_ofNormal {extra : Nat} {result : Except Fault (Kind × String)}
    (h : ∀ k s, result = .ok (k, s) → OneLine (k, s)) : (ofNormal extra result).All OneLine := by
  cases result with
  | error cause => exact all_refused _ _
  | ok t => exact all_token (h t.1 t.2 rfl)

/-- The characters of the normal form of a number. -/
def isNumeralChar (c : Char) : Bool :=
  c.isDigit || c == '-' || c == '.'

theorem oneLine_numeral {negative : Bool} {d : Char} (hd : d.isDigit) (cs : List Char) :
    (numeral negative d cs).All OneLine := by
  have hdigits : ∀ c ∈ d :: cs.takeWhile Char.isDigit, c.isDigit :=
    List.forall_mem_cons.2 ⟨hd, isDigit_of_mem_takeWhile⟩
  have hwhole := isDigit_of_mem_wholePart hdigits
  have hnumeral {k : Kind} {l : List Char} (hl : ∀ c ∈ l, isNumeralChar c) :
      OneLine (k, String.ofList l) := oneLine_of_forall (p := isNumeralChar) rfl hl
  refine all_numeral (fun _ ↦ oneLine_ofNormal fun k s h ↦ ?_)
    fun _ fraction hfraction ↦ oneLine_ofNormal fun k s h ↦ ?_
  · rcases normalInteger_eq_ok h with ⟨-, rfl, -⟩ | ⟨-, rfl, -⟩
    · exact hnumeral fun c hc ↦ by simp [isNumeralChar, hwhole c hc]
    · exact hnumeral (by simpa [isNumeralChar] using fun c hc ↦ .inl (.inl (hwhole c hc)))
  · have hpart := isDigit_of_mem_fractionPart hfraction
    have hbody : ∀ c ∈ wholePart (d :: cs.takeWhile Char.isDigit) ++ '.' :: fractionPart fraction,
        isNumeralChar c := by
      intro c hc
      rcases List.mem_append.1 hc with hc | hc
      · simp [isNumeralChar, hwhole c hc]
      · rcases List.mem_cons.1 hc with rfl | hc
        · rfl
        · simp [isNumeralChar, hpart c hc]
    obtain ⟨-, ⟨-, rfl, -⟩ | ⟨-, rfl, -⟩⟩ := normalDouble_eq_ok h
    · exact hnumeral hbody
    · exact hnumeral (List.forall_mem_cons.2 ⟨rfl, hbody⟩)

theorem oneLine_word (hc : c.isAlpha || c == '_') (cs : List Char) :
    (word limit c cs).All OneLine := by
  have htext : ∀ d ∈ c :: cs.takeWhile isWordChar, isWordChar d := by
    refine List.forall_mem_cons.2 ⟨?_, isWordChar_of_mem_takeWhile⟩
    rcases Bool.or_eq_true_iff.1 hc with hc | hc
    · exact isWordChar_of_isAlpha hc
    · simp [isWordChar, hc]
  have hline (k : Kind) : OneLine (k, String.ofList (c :: cs.takeWhile isWordChar)) :=
    oneLine_of_forall (p := isWordChar) (by decide) htext
  rw [word]
  split
  · exact all_refused _ _
  · split
    · exact all_token (hline _)
    · split
      · exact all_refused _ _
      · exact all_token (hline _)

theorem oneLine_signRun {kinds : SignKinds} (h : signKinds? c = some kinds) (cs : List Char) :
    (signRun kinds c cs).All OneLine := by
  obtain ⟨hsingle, hstep, hassign⟩ := spelling_of_signKinds? h
  have hc : '\n' ≠ c := fun hn ↦ not_endsLexeme_of_signKinds? h (hn ▸ .inl (by decide))
  refine all_signRun ?_ ?_ ?_ c cs
  · simp [OneLine, hsingle, hc]
  · simp [OneLine, hstep, hc]
  · simp [OneLine, hassign, hc]

theorem oneLine_operator (c : Char) (cs : List Char) : (operator c cs).All OneLine := by
  unfold operator
  split
  next k hk =>
    have hspelling := not_endsLexeme_of_mem_spelling k (List.mem_of_find?_eq_some hk)
    exact all_token fun hn ↦ hspelling _ hn (.inl (by decide))
  next => exact all_refused _ _

/-- Every token that is read is written on one line. -/
theorem oneLine_read (limit : Nat) (c : Char) (cs : List Char) : (read limit c cs).All OneLine :=
  all_read oneLine_stringLiteral oneLine_characterLiteral (fun _ _ cs hd ↦ oneLine_numeral hd cs)
    (fun _ cs hc ↦ oneLine_word hc cs) (fun _ cs _ hkinds ↦ oneLine_signRun hkinds cs)
    oneLine_operator c cs

end FrontEnd.Lexeme
