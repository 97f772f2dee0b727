import FrontEnd.Proofs.Lexeme.Respell
import FrontEnd.Proofs.Scan.Tokens

/-!
# Scanning what scanning gave

The tokens of a scan, written out one by one with any layout between them, scan to themselves:
`scan_joined`.  The text they came from may have been full of errors, and it may have been written
in another form; what is compared is the tokens that later stages see.

Layout is `Trivia`: blanks and comments that end on their line.  Between two tokens it may not be
empty, and before the first and after the last one it may.  `Yields` is the step lemma's invariant:
a text gives a sequence of kinds and lexemes without an error wherever it stands, so that positions
are out of the way.  Trivia in front changes nothing (`Yields.trivia`), and a token that respells
adds itself (`Yields.token`).
-/

namespace FrontEnd

/-- Blanks and complete comments. -/
inductive Trivia : List Char → Prop
  | nil : Trivia []
  | blank {c : Char} {rest : List Char} :
    Text.isBlank c → Trivia rest → Trivia (c :: rest)
  | comment {line rest : List Char} :
    '\n' ∉ line → Trivia rest → Trivia ('#' :: (line ++ '\n' :: rest))

/-- The texts of tokens, joined by trivia of which no piece is empty. -/
inductive Joined : List (Kind × String) → List Char → Prop
  | nil : Joined [] []
  | single (t : Kind × String) : Joined [t] (t.1.sourceText t.2.toList)
  | cons (t : Kind × String) {u : Kind × String} {ts : List (Kind × String)}
    {gap text : List Char} :
    Trivia gap → gap ≠ [] → Joined (u :: ts) text →
      Joined (t :: u :: ts) (t.1.sourceText t.2.toList ++ (gap ++ text))

namespace Trivia

variable {gap rest : List Char}

theorem stops_append (h : Trivia gap) (hne : gap ≠ []) (rest : List Char) :
    Stops (gap ++ rest) := by
  cases h with
  | nil => exact absurd rfl hne
  | blank hc => exact stops_cons.2 (.inl hc)
  | comment => exact stops_cons.2 (.inr rfl)

theorem stops (h : Trivia gap) : Stops gap := by
  by_cases hne : gap = []
  · exact hne ▸ stops_nil
  · simpa using h.stops_append hne []

end Trivia

section

variable {limit : Nat}

/-! ### Texts that yield tokens -/

/-- Wherever the text stands, it gives these kinds and lexemes and no error. -/
def Yields (limit : Nat) (text : List Char) (ts : List (Kind × String)) : Prop :=
  ∀ p, (placeSegments p (segments limit text)).flatMap PlacedSegment.errors = [] ∧
    ((placeSegments p (segments limit text)).flatMap PlacedSegment.tokens).map Token.plain = ts

/-- The segment after another one starts with the character after it. -/
theorem head?_segments (limit : Nat) (text : List Char) :
    ((segments limit text).head?.bind fun s ↦ s.text.head?) = text.head? := by
  fun_cases segments limit text <;> rfl

theorem segments_blank {c : Char} (h : Text.isBlank c) (rest : List Char) :
    segments limit (c :: rest) = .blank c :: segments limit rest := by
  rw [segments, if_pos h]

theorem segments_comment {line : List Char} (h : '\n' ∉ line) (rest : List Char) :
    segments limit ('#' :: (line ++ '\n' :: rest)) =
      .comment line :: segments limit ('\n' :: rest) := by
  have hline : (line ++ '\n' :: rest).takeWhile (· != '\n') = line := by
    rw [List.takeWhile_append_of_pos]
    · simp
    · intro c hc
      simpa using fun hn : c = '\n' ↦ h (hn ▸ hc)
  rw [segments, if_neg (by decide), if_pos rfl]
  simp [hline]

/-- A token that respells is a segment of its own up to a boundary. -/
theorem segments_of_respells {t : Kind × String} (h : Respells limit t) {rest : List Char}
    (hrest : Stops rest) :
    ∃ c cs, t.1.sourceText t.2.toList = c :: cs ∧
      segments limit (t.1.sourceText t.2.toList ++ rest) =
        .lexeme c cs (.tokens [t]) :: segments limit rest := by
  obtain ⟨c, cs, htext, hends, hread⟩ := h
  have hblank : ¬ Text.isBlank c := fun hb ↦ hends (.inl hb)
  have hhash : c ≠ '#' := fun hh ↦ hends (.inr hh)
  refine ⟨c, cs, htext, ?_⟩
  rw [htext, List.cons_append, segments, if_neg hblank, if_neg hhash, hread rest hrest]
  simp [Lexeme.token]

namespace Yields

variable {text rest : List Char} {ts : List (Kind × String)}

theorem nil : Yields limit [] [] := by
  intro p
  simp [segments, placeSegments]

theorem blank {c : Char} (h : Text.isBlank c) (hrest : Yields limit rest ts) :
    Yields limit (c :: rest) ts := by
  intro p
  rw [segments_blank h]
  exact hrest _

theorem comment {line : List Char} (h : '\n' ∉ line) (hrest : Yields limit ('\n' :: rest) ts) :
    Yields limit ('#' :: (line ++ '\n' :: rest)) ts := by
  intro p
  rw [segments_comment h]
  exact hrest _

theorem trivia {gap : List Char} (h : Trivia gap) (hrest : Yields limit rest ts) :
    Yields limit (gap ++ rest) ts := by
  induction h with
  | nil => exact hrest
  | blank hc _ ih => exact ih.blank hc
  | @comment line gap hline _ ih =>
    rw [List.cons_append, List.append_assoc, List.cons_append]
    exact (ih.blank (by decide)).comment hline

/-- A blank, a comment and the end of the text may stand after every token. -/
theorem delimiterErrors_of_stops (t : Kind × String) (h : Stops rest) (p : Position) :
    PlacedSegment.delimiterErrors [t] rest.head? p = [] := by
  cases rest with
  | nil => rfl
  | cons c rest =>
    have hallows : t.1.allows (some c) := by
      rcases stops_cons.1 h with hc | rfl
      · simp [Kind.allows, hc]
      · simp [Kind.allows]
    simp [PlacedSegment.delimiterErrors, hallows]

theorem token {t : Kind × String} (ht : Respells limit t) (hstops : Stops rest)
    (hrest : Yields limit rest ts) :
    Yields limit (t.1.sourceText t.2.toList ++ rest) (t :: ts) := by
  intro p
  obtain ⟨c, cs, -, hsegments⟩ := segments_of_respells ht hstops
  obtain ⟨herrors, htokens⟩ := hrest (p.advance (c :: cs))
  rw [hsegments, placeSegments, head?_segments]
  constructor
  · rw [List.flatMap_cons, PlacedSegment.errors, Segment.text, herrors, List.append_nil]
    exact delimiterErrors_of_stops t hstops _
  · rw [List.flatMap_cons, List.map_append, Segment.text, htokens]
    rfl

theorem joined (h : Joined ts text) (hts : ∀ t ∈ ts, Respells limit t) {trail : List Char}
    (htrail : Trivia trail) : Yields limit (text ++ trail) ts := by
  -- From the right, since where a lexeme ends depends on what follows it.
  have hend : Yields limit trail [] := by simpa using nil.trivia htrail
  induction h with
  | nil => exact hend
  | single t => exact hend.token (hts t (by simp)) htrail.stops
  | @cons t u ts gap text hgap hne _ ih =>
    have hrest := (ih fun v hv ↦ hts v (List.mem_cons_of_mem _ hv)).trivia hgap
    rw [List.append_assoc, List.append_assoc]
    exact hrest.token (hts t List.mem_cons_self) (hgap.stops_append hne _)

end Yields

theorem scan_of_yields {text : List Char} {ts : List (Kind × String)} (h : Yields limit text ts) :
    (scan limit (String.ofList text)).errors = [] ∧
      (scan limit (String.ofList text)).tokens.map Token.plain = ts ++ [(.eof, "EOF")] := by
  obtain ⟨herrors, htokens⟩ := h .start
  refine ⟨by simpa [scan, textSegments] using herrors, ?_⟩
  rw [scan, textSegments, String.toList_ofList, List.map_append, herrors, Scan.keepClean]
  simp [htokens, Token.endOfInput, Token.plain]

/-- The tokens of a scan, joined by any layout, scan to themselves without an error. -/
theorem scan_joined {source : String} {body lead trail : List Char}
    (hbody : Joined ((scan limit source).tokens.dropLast.map Token.plain) body)
    (hlead : Trivia lead) (htrail : Trivia trail) :
    (scan limit (String.ofList (lead ++ body ++ trail))).errors = [] ∧
      (scan limit (String.ofList (lead ++ body ++ trail))).tokens.map Token.plain =
        (scan limit source).tokens.map Token.plain := by
  have hrespells : ∀ t ∈ (scan limit source).tokens.dropLast.map Token.plain,
      Respells limit t := by
    intro t ht
    obtain ⟨u, hu, rfl⟩ := List.mem_map.1 ht
    exact all_of_mem_scan (Lexeme.stable_read limit) hu
  have hyields := (Yields.joined hbody hrespells htrail).trivia hlead
  rw [← List.append_assoc] at hyields
  refine ⟨(scan_of_yields hyields).1, (scan_of_yields hyields).2.trans ?_⟩
  rw [scan, List.dropLast_concat, List.map_append]
  rfl

/-- A text with a word over the limit; a comment stands between its last two tokens when they are
written again. -/
theorem scan_joined_faulty :
    Joined ((scan 4 "a=~05 bcdef;").tokens.dropLast.map Token.plain) "a = ~5 #e\n;".toList ∧
      Trivia ['\n'] ∧ (scan 4 "a=~05 bcdef;").errors ≠ [] ∧
      (scan 4 (String.ofList (['\n'] ++ "a = ~5 #e\n;".toList ++ []))).errors = [] ∧
      (scan 4 (String.ofList (['\n'] ++ "a = ~5 #e\n;".toList ++ []))).tokens.map Token.plain =
        (scan 4 "a=~05 bcdef;").tokens.map Token.plain := by
  obtain ⟨htokens, herrors⟩ : (scan 4 "a=~05 bcdef;").tokens.dropLast.map Token.plain =
      [(.identifier, "a"), (.assign, "="), (.negIntLit, "-5"), (.semicolon, ";")] ∧
        (scan 4 "a=~05 bcdef;").errors ≠ [] := by
    decide +kernel
  have hspace : Trivia [' '] := .blank (by decide) .nil
  have hcomment : Trivia [' ', '#', 'e', '\n'] :=
    .blank (by decide) (@Trivia.comment ['e'] [] (by decide) .nil)
  have hlead : Trivia ['\n'] := .blank (by decide) .nil
  have hbody : Joined ((scan 4 "a=~05 bcdef;").tokens.dropLast.map Token.plain)
      "a = ~5 #e\n;".toList := by
    rw [htokens]
    exact .cons _ hspace (by simp) <| .cons _ hspace (by simp) <|
      .cons _ hcomment (by simp) (.single _)
  exact ⟨hbody, hlead, herrors, scan_joined hbody hlead .nil⟩

end

end FrontEnd
