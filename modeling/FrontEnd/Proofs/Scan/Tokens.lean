import FrontEnd.Proofs.Lexeme.Tokens
import FrontEnd.Scan

/-!
# The tokens of a scan

Every token of a scan but the last one comes from a lexeme that was read at some place of the text,
so what holds of the tokens of all lexemes holds of the tokens of a scan (`all_of_mem_scan`).
-/

namespace FrontEnd

/-- What a token is, wherever it stands. -/
def Token.plain (t : Token) : Kind × String :=
  (t.kind, t.lexeme)

variable {limit : Nat}

theorem plain_mem_of_mem_placeGroup {t : Token} {group : List (Kind × String)} {p : Position}
    (h : t ∈ placeGroup p group) : t.plain ∈ group := by
  induction group generalizing p with
  | nil => cases h
  | cons u group ih =>
    rcases List.mem_cons.1 h with rfl | h
    · exact List.mem_cons_self
    · exact List.mem_cons_of_mem _ (ih h)

/-- A placed segment stands behind the text of those before it. -/
theorem exists_append_of_mem_placeSegments {s : PlacedSegment} {ss : List Segment} {p : Position}
    (h : s ∈ placeSegments p ss) :
    ∃ before after, ss = before ++ s.segment :: after ∧
      s.position = p.advance (before.flatMap Segment.text) := by
  induction ss generalizing p with
  | nil => cases h
  | cons first ss ih =>
    rcases List.mem_cons.1 h with rfl | h
    · exact ⟨[], ss, rfl, rfl⟩
    · obtain ⟨before, after, rfl, hposition⟩ := ih h
      exact ⟨first :: before, after, rfl, by
        rw [hposition, List.flatMap_cons, Position.advance_append]⟩

theorem segment_mem_of_mem_placeSegments {s : PlacedSegment} {ss : List Segment} {p : Position}
    (h : s ∈ placeSegments p ss) : s.segment ∈ ss := by
  obtain ⟨before, after, hss, -⟩ := exists_append_of_mem_placeSegments h
  simp [hss]

/-- A lexeme among the segments of a text is what was read at some place of it. -/
theorem exists_read_of_mem_segments {c : Char} {others text : List Char} {meaning : Meaning}
    (h : .lexeme c others meaning ∈ segments limit text) :
    ∃ cs, others = cs.take (Lexeme.read limit c cs).extra ∧
      meaning = (Lexeme.read limit c cs).meaning := by
  fun_induction segments limit text with
  | case1 => cases h
  | case2 d cs _ ih => exact ih (by simpa using h)
  | case3 cs line _ ih => exact ih (by simpa using h)
  | case4 d cs _ _ l ih =>
    rcases List.mem_cons.1 h with h | h
    · cases h
      exact ⟨cs, rfl, rfl⟩
    · exact ih h

/-- What holds of the tokens of all lexemes holds of the tokens of a scan. -/
theorem all_of_mem_scan {P : Kind × String → Prop}
    (hread : ∀ c cs, (Lexeme.read limit c cs).All P) {source : String} {t : Token}
    (h : t ∈ (scan limit source).tokens.dropLast) : P t.plain := by
  rw [scan, List.dropLast_concat] at h
  obtain ⟨s, hs, ht⟩ := List.mem_flatMap.1 (List.mem_of_mem_filter h)
  unfold PlacedSegment.tokens at ht
  split at ht
  next c others group hsegment =>
    have hmem := segment_mem_of_mem_placeSegments hs
    obtain ⟨cs, -, hcs⟩ := exists_read_of_mem_segments (hsegment ▸ hmem)
    exact hread c cs group hcs.symm _ (plain_mem_of_mem_placeGroup ht)
  next => cases ht

/-- The last token of a scan ends the input. -/
theorem getLast?_scan (limit : Nat) (source : String) :
    (scan limit source).tokens.getLast? =
      some (.endOfInput (Position.start.advance source.toList)) := by
  simp [scan]

/-- No token of a scan but the last one ends the input. -/
theorem kind_ne_eof_of_mem_scan {source : String} {t : Token}
    (h : t ∈ (scan limit source).tokens.dropLast) : t.kind ≠ .eof :=
  all_of_mem_scan (Lexeme.unended_read limit) h

/-- In a scan, lexemes tell names and reserved words apart. -/
theorem worded_of_mem_scan {source : String} {t : Token} (h : t ∈ (scan limit source).tokens) :
    Worded t.plain := by
  have hcases : t ∈ (scan limit source).tokens.dropLast ∨
      t = .endOfInput (Position.start.advance source.toList) := by
    simpa [scan] using h
  rcases hcases with h | rfl
  · exact all_of_mem_scan (Lexeme.worded_read limit) h
  · exact worded_of_isWordless rfl _

/-- In a scan, the lexemes of identifiers are names. -/
theorem isName_of_mem_scan {source : String} {t : Token} (h : t ∈ (scan limit source).tokens)
    (hk : t.kind = .identifier) : isName t.lexeme := by
  have hcases : t ∈ (scan limit source).tokens.dropLast ∨
      t = .endOfInput (Position.start.advance source.toList) := by
    simpa [scan] using h
  rcases hcases with h | rfl
  · exact all_of_mem_scan (Lexeme.named_read limit) h hk
  · cases hk

end FrontEnd
