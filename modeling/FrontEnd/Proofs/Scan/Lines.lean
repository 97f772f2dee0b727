import FrontEnd.Proofs.Lexeme.Line
import FrontEnd.Proofs.Scan.RoundTrip

/-!
# Scanning line by line

A line feed cuts a text in two that are scanned apart: the tokens and errors of the whole are those
of the first part and, so many lines further down, those of the second (`scan_append_newline`).  So
nothing that is left open on a line, and no error there, has an effect on another one.

Lexemes end at a line feed (`Lexeme.read_append_newline`), so the segments of the whole are those of
the two parts with the line feed between them.  A segment gives the same tokens and errors on
whatever line it stands (`tokens_lowered`, `errors_lowered`), and since those of the two parts
stand on different lines, an error never takes a token from the other part.
-/

namespace FrontEnd

/-! ### Going down lines -/

/-- The position so many lines further down. -/
def Position.lowered (n : Nat) (p : Position) : Position :=
  ⟨p.line + n, p.column⟩

/-- The token so many lines further down. -/
def Token.lowered (n : Nat) (t : Token) : Token :=
  { t with position := t.position.lowered n }

/-- The error so many lines further down. -/
def LexicalError.lowered (n : Nat) (e : LexicalError) : LexicalError :=
  { e with position := e.position.lowered n }

/-- The segment so many lines further down. -/
def PlacedSegment.lowered (n : Nat) (s : PlacedSegment) : PlacedSegment :=
  { s with position := s.position.lowered n }

section

variable {n limit : Nat} {p q : Position}

@[simp]
theorem Position.lowered_inj : p.lowered n = q.lowered n ↔ p = q := by
  obtain ⟨pl, pc⟩ := p
  obtain ⟨ql, qc⟩ := q
  simp [Position.lowered]

theorem Position.next_lowered (c : Char) : (p.lowered n).next c = (p.next c).lowered n := by
  unfold Position.next Position.lowered
  split <;> simp [Nat.add_right_comm]

theorem Position.advance_lowered (text : List Char) :
    (p.lowered n).advance text = (p.advance text).lowered n := by
  induction text generalizing p with
  | nil => rfl
  | cons c text ih => rw [advance_cons, advance_cons, next_lowered, ih]

/-- The line a text ends on. -/
theorem Position.line_advance (p : Position) (text : List Char) :
    (p.advance text).line = p.line + text.count '\n' := by
  induction text generalizing p with
  | nil => rfl
  | cons c text ih =>
    rw [advance_cons, ih, Position.next]
    split
    next hc => simp [hc, Nat.add_comm, Nat.add_left_comm]
    next hc => simp [hc]

theorem Position.advance_newline (p : Position) (text : List Char) :
    p.advance (text ++ ['\n']) = ⟨p.line + text.count '\n' + 1, 1⟩ := by
  rw [advance_append, advance_cons, advance_nil, Position.next, if_pos rfl, line_advance]

theorem placeGroup_lowered (group : List (Kind × String)) :
    placeGroup (p.lowered n) group = (placeGroup p group).map (Token.lowered n) := by
  induction group generalizing p with
  | nil => rfl
  | cons t group ih =>
    rw [placeGroup, placeGroup, Position.advance_lowered, ih]
    rfl

theorem tokens_lowered (s : PlacedSegment) :
    (s.lowered n).tokens = s.tokens.map (Token.lowered n) := by
  unfold PlacedSegment.tokens PlacedSegment.lowered
  dsimp only
  split
  · exact placeGroup_lowered _
  · rfl

theorem delimiterErrors_lowered (group : List (Kind × String)) (next : Option Char) :
    PlacedSegment.delimiterErrors group next (p.lowered n) =
      (PlacedSegment.delimiterErrors group next p).map (LexicalError.lowered n) := by
  unfold PlacedSegment.delimiterErrors
  split
  · split <;> rfl
  · rfl

theorem errors_lowered (s : PlacedSegment) :
    (s.lowered n).errors = s.errors.map (LexicalError.lowered n) := by
  unfold PlacedSegment.errors PlacedSegment.lowered PlacedSegment.stop
  dsimp only
  split
  · rw [Position.advance_lowered]
    exact delimiterErrors_lowered _ _
  · rfl
  · rfl

theorem placeSegments_lowered (ss : List Segment) :
    placeSegments (p.lowered n) ss = (placeSegments p ss).map (PlacedSegment.lowered n) := by
  induction ss generalizing p with
  | nil => rfl
  | cons s ss ih =>
    rw [placeSegments, placeSegments, Position.advance_lowered, ih]
    rfl

/-! ### The segments of two parts -/

/-- The segments of a text that a line feed cuts in two. -/
theorem segments_append_newline (limit : Nat) (a b : List Char) :
    segments limit (a ++ '\n' :: b) = segments limit a ++ .blank '\n' :: segments limit b := by
  fun_induction segments limit a with
  | case1 => exact segments_blank (by decide) b
  | case2 c cs hblank ih => rw [List.cons_append, segments_blank hblank, ih, List.cons_append]
  | case3 cs line hblank ih =>
    have hline : (cs ++ '\n' :: b).takeWhile (· != '\n') = line :=
      Lexeme.takeWhile_append_newline (by decide) cs b
    have hdrop : (cs ++ '\n' :: b).drop line.length = cs.drop line.length ++ '\n' :: b :=
      List.drop_append_of_le_length (Lexeme.length_takeWhile_le _ cs)
    rw [List.cons_append, segments, if_neg hblank, if_pos rfl]
    simp only [hline, hdrop, ih, List.cons_append]
  | case4 c cs hblank hhash l ih =>
    have hread : Lexeme.read limit c (cs ++ '\n' :: b) = l :=
      Lexeme.read_append_newline limit c cs b
    have hextra : l.extra ≤ cs.length := Lexeme.extra_read_le limit c cs
    rw [List.cons_append, segments, if_neg hblank, if_neg hhash, hread]
    simp only [List.take_append_of_le_length hextra, List.drop_append_of_le_length hextra, ih,
      List.cons_append]

/-- Whether the text ends or a line feed follows makes no difference to a segment's errors. -/
theorem errors_before_newline (p : Position) (s : Segment) :
    PlacedSegment.errors ⟨p, s, some '\n'⟩ = PlacedSegment.errors ⟨p, s, none⟩ := by
  have hdelimiter (group : List (Kind × String)) (q : Position) :
      PlacedSegment.delimiterErrors group (some '\n') q =
        PlacedSegment.delimiterErrors group none q := by
    have hallows (k : Kind) : k.allows (some '\n') := by
      simp [Kind.allows, show Text.isBlank '\n' = true by decide]
    unfold PlacedSegment.delimiterErrors
    cases group.getLast? <;> simp [hallows]
  unfold PlacedSegment.errors
  dsimp only
  split
  · exact hdelimiter _ _
  · rfl
  · rfl

theorem flatMap_errors_append_newline (p : Position) (ss ts : List Segment) :
    (placeSegments p (ss ++ .blank '\n' :: ts)).flatMap PlacedSegment.errors =
      (placeSegments p ss).flatMap PlacedSegment.errors ++
        (placeSegments (p.advance (ss.flatMap Segment.text ++ ['\n'])) ts).flatMap
          PlacedSegment.errors := by
  induction ss generalizing p with
  | nil => rfl
  | cons s ss ih =>
    have hfirst : PlacedSegment.errors
        ⟨p, s, (ss ++ .blank '\n' :: ts).head?.bind fun u ↦ u.text.head?⟩ =
        PlacedSegment.errors ⟨p, s, ss.head?.bind fun u ↦ u.text.head?⟩ := by
      cases ss with
      | nil => exact errors_before_newline p s
      | cons u ss => rfl
    rw [List.cons_append, placeSegments, placeSegments, List.flatMap_cons, List.flatMap_cons,
      hfirst, ih, List.flatMap_cons, List.append_assoc, List.append_assoc,
      ← Position.advance_append]

theorem flatMap_tokens_append_newline (p : Position) (ss ts : List Segment) :
    (placeSegments p (ss ++ .blank '\n' :: ts)).flatMap PlacedSegment.tokens =
      (placeSegments p ss).flatMap PlacedSegment.tokens ++
        (placeSegments (p.advance (ss.flatMap Segment.text ++ ['\n'])) ts).flatMap
          PlacedSegment.tokens := by
  induction ss generalizing p with
  | nil => rfl
  | cons s ss ih =>
    rw [List.cons_append, placeSegments, placeSegments, List.flatMap_cons, List.flatMap_cons, ih,
      List.flatMap_cons, List.append_assoc, List.append_assoc, ← Position.advance_append]
    rfl

/-! ### The lines of tokens and errors -/

/-- A token of a group stands on the line the group starts on. -/
theorem line_of_mem_placeGroup {group : List (Kind × String)} {t : Token}
    (hgroup : ∀ u ∈ group, Lexeme.OneLine u) (h : t ∈ placeGroup p group) :
    t.position.line = p.line := by
  induction group generalizing p with
  | nil => cases h
  | cons u group ih =>
    obtain ⟨hu, hrest⟩ := List.forall_mem_cons.1 hgroup
    rcases List.mem_cons.1 h with rfl | h
    · rfl
    · rw [ih hrest h, Position.line_advance, List.count_eq_zero.2 hu, Nat.add_zero]

/-- A token of a segment of a text stands on the line the segment starts on. -/
theorem line_of_mem_tokens {s : PlacedSegment} {text : List Char} {t : Token}
    (hs : s.segment ∈ segments limit text) (h : t ∈ s.tokens) :
    t.position.line = s.position.line := by
  unfold PlacedSegment.tokens at h
  split at h
  next c others group hsegment =>
    obtain ⟨cs, -, hcs⟩ := exists_read_of_mem_segments (hsegment ▸ hs)
    exact line_of_mem_placeGroup (Lexeme.oneLine_read limit c cs group hcs.symm) h
  next => cases h

/-- An error of a segment stands where the segment starts or where it ends. -/
theorem position_of_mem_errors {s : PlacedSegment} {e : LexicalError} (h : e ∈ s.errors) :
    e.position = s.position ∨ e.position = s.stop := by
  unfold PlacedSegment.errors at h
  split at h
  · unfold PlacedSegment.delimiterErrors at h
    split at h
    · split at h
      · cases h
      · exact .inr (List.mem_singleton.1 h ▸ rfl)
    · cases h
  · exact .inl (List.mem_singleton.1 h ▸ rfl)
  · cases h

theorem line_le_stop (s : PlacedSegment) : s.position.line ≤ s.stop.line := by
  rw [PlacedSegment.stop, Position.line_advance]
  exact Nat.le_add_right _ _

/-- A segment stands on the lines of its text. -/
theorem lines_of_mem_placeSegments {s : PlacedSegment} {ss : List Segment}
    (h : s ∈ placeSegments p ss) :
    p.line ≤ s.position.line ∧ s.stop.line ≤ (p.advance (ss.flatMap Segment.text)).line := by
  induction ss generalizing p with
  | nil => cases h
  | cons u ss ih =>
    rw [List.flatMap_cons, Position.advance_append]
    rcases List.mem_cons.1 h with rfl | h
    · refine ⟨Nat.le_refl _, ?_⟩
      rw [PlacedSegment.stop, Position.line_advance (p.advance u.text)]
      exact Nat.le_add_right _ _
    · obtain ⟨hfirst, hlast⟩ := ih h
      refine ⟨Nat.le_trans ?_ hfirst, hlast⟩
      rw [Position.line_advance]
      exact Nat.le_add_right _ _

/-- The tokens of the segments of a text that starts at a position. -/
def tokensFrom (limit : Nat) (p : Position) (text : List Char) : List Token :=
  (placeSegments p (segments limit text)).flatMap PlacedSegment.tokens

/-- The errors of the segments of a text that starts at a position. -/
def errorsFrom (limit : Nat) (p : Position) (text : List Char) : List LexicalError :=
  (placeSegments p (segments limit text)).flatMap PlacedSegment.errors

theorem lines_of_mem_tokensFrom {text : List Char} {t : Token} (h : t ∈ tokensFrom limit p text) :
    p.line ≤ t.position.line ∧ t.position.line ≤ p.line + text.count '\n' := by
  obtain ⟨s, hs, ht⟩ := List.mem_flatMap.1 h
  obtain ⟨hfirst, hlast⟩ := lines_of_mem_placeSegments hs
  have hstop := line_le_stop s
  rw [flatMap_text_segments, Position.line_advance] at hlast
  rw [line_of_mem_tokens (segment_mem_of_mem_placeSegments hs) ht]
  omega

theorem lines_of_mem_errorsFrom {text : List Char} {e : LexicalError}
    (h : e ∈ errorsFrom limit p text) :
    p.line ≤ e.position.line ∧ e.position.line ≤ p.line + text.count '\n' := by
  obtain ⟨s, hs, he⟩ := List.mem_flatMap.1 h
  obtain ⟨hfirst, hlast⟩ := lines_of_mem_placeSegments hs
  have hstop := line_le_stop s
  rw [flatMap_text_segments, Position.line_advance] at hlast
  rcases position_of_mem_errors he with hposition | hposition <;> rw [hposition] <;> omega

/-! ### Scanning two parts -/

theorem tokensFrom_lowered (text : List Char) :
    tokensFrom limit (p.lowered n) text = (tokensFrom limit p text).map (Token.lowered n) := by
  rw [tokensFrom, tokensFrom, placeSegments_lowered, List.flatMap_map, List.map_flatMap]
  simp only [tokens_lowered]

theorem errorsFrom_lowered (text : List Char) :
    errorsFrom limit (p.lowered n) text =
      (errorsFrom limit p text).map (LexicalError.lowered n) := by
  rw [errorsFrom, errorsFrom, placeSegments_lowered, List.flatMap_map, List.map_flatMap]
  simp only [errors_lowered]

/-- Errors take tokens of their own part only, when the parts stand on different lines. -/
theorem keepClean_append {errors errors' : List LexicalError} {tokens tokens' : List Token}
    (hbelow : ∀ e ∈ errors', ∀ t ∈ tokens, t.position ≠ e.position)
    (habove : ∀ e ∈ errors, ∀ t ∈ tokens', t.position ≠ e.position) :
    Scan.keepClean (errors ++ errors') (tokens ++ tokens') =
      Scan.keepClean errors tokens ++ Scan.keepClean errors' tokens' := by
  have hany {es : List LexicalError} {t : Token} (h : ∀ e ∈ es, t.position ≠ e.position) :
      (es.any fun e ↦ e.position == t.position) = false := by
    simpa using fun e he ↦ Ne.symm (h e he)
  unfold Scan.keepClean
  rw [List.filter_append]
  congr 1
  · refine List.filter_congr fun t ht ↦ ?_
    rw [List.any_append, hany fun e he ↦ hbelow e he t ht, Bool.or_false]
  · refine List.filter_congr fun t ht ↦ ?_
    rw [List.any_append, hany fun e he ↦ habove e he t ht, Bool.false_or]

theorem keepClean_lowered (errors : List LexicalError) (tokens : List Token) :
    Scan.keepClean (errors.map (LexicalError.lowered n)) (tokens.map (Token.lowered n)) =
      (Scan.keepClean errors tokens).map (Token.lowered n) := by
  unfold Scan.keepClean
  rw [List.filter_map]
  congr 1
  refine List.filter_congr fun t _ ↦ ?_
  rw [Function.comp_apply, List.any_map]
  congr 2
  funext e
  rw [Function.comp_apply, Bool.eq_iff_iff, beq_iff_eq, beq_iff_eq]
  exact Position.lowered_inj

/-- Scanning goes line by line: a line feed between two texts adds the tokens and errors of the
second, on lower lines, to those of the first. -/
theorem scan_append_newline (limit : Nat) (a b : String) :
    (scan limit (a ++ "\n" ++ b)).tokens = (scan limit a).tokens.dropLast ++
        (scan limit b).tokens.map (Token.lowered (1 + a.toList.count '\n')) ∧
      (scan limit (a ++ "\n" ++ b)).errors = (scan limit a).errors ++
        (scan limit b).errors.map (LexicalError.lowered (1 + a.toList.count '\n')) := by
  obtain ⟨below, hbelow⟩ : ∃ below, 1 + a.toList.count '\n' = below := ⟨_, rfl⟩
  rw [hbelow]
  have htext : (a ++ "\n" ++ b).toList = a.toList ++ '\n' :: b.toList := by simp
  have hstart : Position.start.advance (a.toList ++ ['\n']) = Position.start.lowered below := by
    rw [Position.advance_newline]
    simp [Position.start, Position.lowered, ← hbelow, Nat.add_comm]
  have hend : Position.start.advance (a.toList ++ '\n' :: b.toList) =
      (Position.start.advance b.toList).lowered below := by
    rw [List.append_cons, Position.advance_append, hstart, Position.advance_lowered]
  have herrors : errorsFrom limit .start (a.toList ++ '\n' :: b.toList) =
      errorsFrom limit .start a.toList ++
        (errorsFrom limit .start b.toList).map (LexicalError.lowered below) := by
    rw [← errorsFrom_lowered, ← hstart, errorsFrom, segments_append_newline,
      flatMap_errors_append_newline, flatMap_text_segments]
    rfl
  have htokens : tokensFrom limit .start (a.toList ++ '\n' :: b.toList) =
      tokensFrom limit .start a.toList ++
        (tokensFrom limit .start b.toList).map (Token.lowered below) := by
    rw [← tokensFrom_lowered, ← hstart, tokensFrom, segments_append_newline,
      flatMap_tokens_append_newline, flatMap_text_segments]
    rfl
  have hscan (text : String) : scan limit text =
      ⟨Scan.keepClean (errorsFrom limit .start text.toList) (tokensFrom limit .start text.toList)
        ++ [.endOfInput (Position.start.advance text.toList)],
        errorsFrom limit .start text.toList⟩ := rfl
  -- Clean tokens are told by the positions of errors, and the two parts have no line in common.
  have hlines : Position.start.line + a.toList.count '\n' < Position.start.line + below := by
    omega
  rw [hscan, hscan a, hscan b, htext, herrors, htokens, keepClean_append, keepClean_lowered, hend]
  · simp [Token.lowered, Token.endOfInput]
  · rintro e he t ht h
    obtain ⟨e, hmem, rfl⟩ := List.mem_map.1 he
    have := (lines_of_mem_errorsFrom hmem).1
    have := (lines_of_mem_tokensFrom ht).2
    have : t.position.line = e.position.line + below := congrArg Position.line h
    omega
  · rintro e he t ht h
    obtain ⟨t, hmem, rfl⟩ := List.mem_map.1 ht
    have := (lines_of_mem_errorsFrom he).2
    have := (lines_of_mem_tokensFrom hmem).1
    have : t.position.line + below = e.position.line := congrArg Position.line h
    omega

/-- A string that is left open does not reach the next line. -/
example : (scan 16 "nt a = \"b;\nnt").tokens.map Token.plain =
    [(.intWord, "nt"), (.identifier, "a"), (.assign, "="), (.intWord, "nt"), (.eof, "EOF")] := by
  decide +kernel

end

end FrontEnd
