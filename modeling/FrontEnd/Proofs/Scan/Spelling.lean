import FrontEnd.Proofs.Lexeme.Constant
import FrontEnd.Proofs.Scan.Tokens

/-!
# How literals are spelled

The lexeme of a number is its normal form.  How it was spelled is the stretch of the text that it was
read from, which starts at the position of the token (`Spelled.exists_append`).  A number is alone on
its stretch, so every number of a scan has a spelling (`exists_spelled`), and whether it is zero can be
told from any of its spellings (`Spelled.isZeroLiteral_eq`).

The same goes for integers and characters: they have a spelling (`exists_spelled_of_isConstant`), which
writes the constant that they stand for (`Spelled.writes`).
-/

namespace FrontEnd

/-- The token is what was read from a stretch of a text, which is its spelling. -/
def Spelled (limit : Nat) (source : String) (t : Token) (spelling : List Char) : Prop :=
  ∃ s ∈ textSegments limit source, s.tokens = [t] ∧ s.segment.text = spelling

instance (limit : Nat) (source : String) (t : Token) (spelling : List Char) :
    Decidable (Spelled limit source t spelling) :=
  inferInstanceAs (Decidable (∃ s ∈ textSegments limit source,
    s.tokens = [t] ∧ s.segment.text = spelling))

section

variable {limit : Nat} {source : String} {t : Token} {spelling : List Char}

/-- The tokens of a placed segment are those of a lexeme, if it has any. -/
theorem PlacedSegment.exists_lexeme {s : PlacedSegment} (h : t ∈ s.tokens) :
    ∃ c others group, s.segment = .lexeme c others (.tokens group) ∧
      s.tokens = placeGroup s.position group := by
  unfold PlacedSegment.tokens at h
  split at h
  next c others group hsegment => exact ⟨c, others, group, hsegment, by rw [tokens, hsegment]⟩
  next => cases h

/-- The tokens of a placed segment are those that were read from its text. -/
theorem PlacedSegment.exists_read {s : PlacedSegment} (hs : s ∈ textSegments limit source)
    (h : t ∈ s.tokens) : ∃ c cs group, (Lexeme.read limit c cs).meaning = .tokens group ∧
      s.segment.text = c :: cs.take (Lexeme.read limit c cs).extra ∧ t.plain ∈ group ∧
        s.tokens = placeGroup s.position group := by
  obtain ⟨c, others, group, hsegment, htokens⟩ := PlacedSegment.exists_lexeme h
  have hmem := segment_mem_of_mem_placeSegments hs
  rw [hsegment] at hmem
  obtain ⟨cs, rfl, hmeaning⟩ := exists_read_of_mem_segments hmem
  rw [htokens] at h
  exact ⟨c, cs, group, hmeaning.symm, by rw [hsegment]; rfl, plain_mem_of_mem_placeGroup h, htokens⟩

/-- A token that is the only one of its lexeme stands alone on its segment. -/
theorem PlacedSegment.tokens_eq {s : PlacedSegment} (h : t ∈ s.tokens)
    (htokens : s.tokens = placeGroup s.position [t.plain]) : s.tokens = [t] := by
  rw [htokens] at h ⊢
  rw [List.mem_singleton.1 h]
  rfl

/-- A number stands alone on its segment, and is zero exactly if the text of the segment writes
zero. -/
theorem number_of_mem_tokens {s : PlacedSegment} (hs : s ∈ textSegments limit source)
    (ht : t ∈ s.tokens) (hnumber : t.kind.isNumber) :
    s.tokens = [t] ∧ t.isZeroLiteral = Text.writesZero s.segment.text := by
  obtain ⟨c, cs, group, hmeaning, htext, hplain, htokens⟩ := PlacedSegment.exists_read hs ht
  obtain ⟨rfl, hzero⟩ := Lexeme.numbers_read limit c cs group hmeaning t.plain hplain hnumber
  exact ⟨PlacedSegment.tokens_eq ht htokens, htext ▸ hzero⟩

/-- The spelling of a token stands in the text at the position of the token. -/
theorem Spelled.exists_append (h : Spelled limit source t spelling) :
    ∃ before after, source.toList = before ++ spelling ++ after ∧
      t.position = Position.start.advance before := by
  obtain ⟨s, hs, htokens, rfl⟩ := h
  obtain ⟨before, after, hsegments, hposition⟩ := exists_append_of_mem_placeSegments hs
  refine ⟨before.flatMap Segment.text, after.flatMap Segment.text, ?_, ?_⟩
  · rw [← flatMap_text_segments limit source.toList, hsegments]
    simp
  · have ht : t ∈ s.tokens := by simp [htokens]
    obtain ⟨c, others, group, -, hgroup⟩ := PlacedSegment.exists_lexeme ht
    rw [← hposition]
    cases group with
    | nil => simp [hgroup, placeGroup] at ht
    | cons u group =>
      rw [htokens, placeGroup] at hgroup
      rw [(List.cons.inj hgroup).1]

/-- A token of a scan that stands alone on its segment is spelled somewhere in the text. -/
theorem exists_spelled_of_alone (ht : t ∈ (scan limit source).tokens) (hk : t.kind ≠ .eof)
    (halone : ∀ s ∈ textSegments limit source, t ∈ s.tokens → s.tokens = [t]) :
    ∃ spelling, Spelled limit source t spelling := by
  have ht : t ∈ (textSegments limit source).flatMap PlacedSegment.tokens := by
    rcases List.mem_append.1 ht with ht | ht
    · exact List.mem_of_mem_filter ht
    · exact absurd (by rw [List.mem_singleton.1 ht]; rfl) hk
  obtain ⟨s, hs, ht⟩ := List.mem_flatMap.1 ht
  exact ⟨s.segment.text, s, hs, halone s hs ht, rfl⟩

/-- Every number of a scan is spelled somewhere in the text. -/
theorem exists_spelled (ht : t ∈ (scan limit source).tokens) (hnumber : t.kind.isNumber) :
    ∃ spelling, Spelled limit source t spelling :=
  exists_spelled_of_alone ht (fun hk ↦ by simp [hk, Kind.isNumber] at hnumber) fun _ hs hmem ↦
    (number_of_mem_tokens hs hmem hnumber).1

/-- A number is zero exactly if it is spelled with no other digit than zeros. -/
theorem Spelled.isZeroLiteral_eq (h : Spelled limit source t spelling) (hnumber : t.kind.isNumber) :
    t.isZeroLiteral = Text.writesZero spelling := by
  obtain ⟨s, hs, htokens, rfl⟩ := h
  exact (number_of_mem_tokens hs (by simp [htokens]) hnumber).2

/-! ### Integers and characters -/

/-- An integer or a character stands alone on its segment, whose text writes it. -/
theorem constant_of_mem_tokens {s : PlacedSegment} (hs : s ∈ textSegments limit source)
    (ht : t ∈ s.tokens) (hconstant : t.kind.isConstant) : s.tokens = [t] ∧
      ∃ v, Text.constant? s.segment.text = some v ∧ Text.Writes s.segment.text t.lexeme v := by
  obtain ⟨c, cs, group, hmeaning, htext, hplain, htokens⟩ := PlacedSegment.exists_read hs ht
  obtain ⟨rfl, hwrites⟩ := Lexeme.constants_read limit c cs group hmeaning t.plain hplain hconstant
  exact ⟨PlacedSegment.tokens_eq ht htokens, htext ▸ hwrites⟩

/-- Every integer and every character of a scan is spelled somewhere in the text. -/
theorem exists_spelled_of_isConstant (ht : t ∈ (scan limit source).tokens)
    (hconstant : t.kind.isConstant) : ∃ spelling, Spelled limit source t spelling :=
  exists_spelled_of_alone ht (fun hk ↦ by simp [hk, Kind.isConstant] at hconstant) fun _ hs hmem ↦
    (constant_of_mem_tokens hs hmem hconstant).1

/-- The spelling of an integer or a character writes the constant it stands for. -/
theorem Spelled.writes (h : Spelled limit source t spelling) (hconstant : t.kind.isConstant) :
    ∃ v, Text.constant? spelling = some v ∧ Text.Writes spelling t.lexeme v := by
  obtain ⟨s, hs, htokens, rfl⟩ := h
  exact (constant_of_mem_tokens hs (by simp [htokens]) hconstant).2

end

end FrontEnd
