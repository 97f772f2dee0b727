import FrontEnd.Proofs.Lexeme.Faithful
import FrontEnd.Proofs.Scan.Lines
import FrontEnd.Proofs.Scan.Spelling

/-!
# Scanning partitions a text

Every character of a text belongs to exactly one segment, and what a segment gives is told from its
text and the place where it stands (`PlacedSegment.Sound`).  A place is counted in the text
(`Position.behind`), not in the course of scanning.

Positions go with the text: the tokens of a segment start on it, the first one where it starts, and
its errors stand where it starts or where it ends.  So over all segments the tokens stand one after
the other and the errors never go back; `Partition` collects what a scan consists of, and
`partition_scan` proves it for every text and every limit.
-/

namespace FrontEnd

/-! ### Counting places -/

namespace Position

variable {p q r : Position} {c : Char} {text : List Char}

/-- The place behind a text: a line for every line feed, a column for every character of the last
line. -/
def behind (text : List Char) : Position :=
  ⟨text.count '\n' + 1, (text.reverse.takeWhile (· != '\n')).length + 1⟩

theorem behind_concat (text : List Char) (c : Char) :
    behind (text ++ [c]) = (behind text).next c := by
  by_cases hc : c = '\n' <;> simp [behind, next, hc]

/-- Scanning counts places as they stand in the text. -/
theorem advance_start (text : List Char) : start.advance text = behind text := by
  induction text using List.reverseRecOn with
  | nil => rfl
  | append_singleton text c ih => rw [advance_append, ih, behind_concat, advance_cons, advance_nil]

theorem behind_append (a b : List Char) : behind (a ++ b) = (behind a).advance b := by
  rw [← advance_start, ← advance_start, advance_append]

/-- Strictly earlier in the text. -/
def Before (p q : Position) : Prop :=
  p.line < q.line ∨ p.line = q.line ∧ p.column < q.column

theorem before_next (p : Position) (c : Char) : p.Before (p.next c) := by
  unfold Before next
  split <;> simp

theorem Before.trans (h : p.Before q) (h' : q.Before r) : p.Before r := by
  unfold Before at *
  omega

theorem before_advance (p : Position) (h : text ≠ []) : p.Before (p.advance text) := by
  induction text generalizing p with
  | nil => exact absurd rfl h
  | cons c text ih =>
    cases text with
    | nil => exact before_next p c
    | cons d text => exact (before_next p c).trans (ih _ (by simp))

theorem Before.ne (h : p.Before q) : p ≠ q := by
  rintro rfl
  simp [Before] at h

theorem le_iff : p.le q ↔ p = q ∨ p.Before q := by
  obtain ⟨pl, pc⟩ := p
  obtain ⟨ql, qc⟩ := q
  simp only [le, Before, Bool.or_eq_true, Bool.and_eq_true, beq_iff_eq, decide_eq_true_eq, mk.injEq]
  omega

theorem le_advance (p : Position) (text : List Char) : p.le (p.advance text) := by
  cases text with
  | nil => exact le_iff.2 (.inl rfl)
  | cons c text => exact le_iff.2 (.inr (before_advance p (by simp)))

theorem le_trans (h : p.le q) (h' : q.le r) : p.le r := by
  rw [le_iff] at *
  rcases h with rfl | h
  · exact h'
  · rcases h' with rfl | h'
    · exact .inr h
    · exact .inr (h.trans h')

theorem before_of_le_of_before (h : p.le q) (h' : q.Before r) : p.Before r := by
  rcases le_iff.1 h with rfl | h
  · exact h'
  · exact h.trans h'

theorem before_of_before_of_le (h : p.Before q) (h' : q.le r) : p.Before r := by
  rcases le_iff.1 h' with rfl | h'
  · exact h
  · exact h.trans h'

end Position

/-- Tokens that stand one after the other. -/
def Ascending (ts : List Token) : Prop :=
  ts.Pairwise fun t u ↦ t.position.Before u.position

/-- The tokens start on a stretch of text between two places. -/
def StartWithin (p q : Position) (ts : List Token) : Prop :=
  ∀ t ∈ ts, p.le t.position ∧ t.position.Before q

section

variable {limit : Nat} {p q r : Position} {text : List Char} {ts us : List Token}

/-- Tokens of two stretches, one after the other. -/
theorem Ascending.append (hts : Ascending ts) (hus : Ascending us) (h : StartWithin p q ts)
    (h' : StartWithin q r us) : Ascending (ts ++ us) :=
  List.pairwise_append.2 ⟨hts, hus, fun t ht u hu ↦
    Position.before_of_before_of_le (h t ht).2 (h' u hu).1⟩

theorem StartWithin.append (h : StartWithin p q ts) (h' : StartWithin q r us) (hpq : p.le q)
    (hqr : q.le r) : StartWithin p r (ts ++ us) := by
  intro t ht
  rcases List.mem_append.1 ht with ht | ht
  · exact ⟨(h t ht).1, Position.before_of_before_of_le (h t ht).2 hqr⟩
  · exact ⟨Position.le_trans hpq (h' t ht).1, (h' t ht).2⟩

/-! ### The tokens of a segment -/

/-- A token of a group stands behind the lexemes of those before it. -/
theorem exists_append_of_mem_placeGroup {group : List (Kind × String)} {t : Token}
    (h : t ∈ placeGroup p group) :
    ∃ before after, group = before ++ t.plain :: after ∧
      t.position = p.advance (before.flatMap fun u ↦ u.2.toList) := by
  induction group generalizing p with
  | nil => cases h
  | cons u group ih =>
    rcases List.mem_cons.1 h with rfl | h
    · exact ⟨[], group, rfl, rfl⟩
    · obtain ⟨before, after, rfl, hposition⟩ := ih h
      exact ⟨u :: before, after, rfl, by
        rw [hposition, List.flatMap_cons, Position.advance_append]⟩

theorem placeGroup_ordered {group : List (Kind × String)} (h : ∀ u ∈ group, u.2.toList ≠ []) :
    Ascending (placeGroup p group) ∧
      StartWithin p (p.advance (group.flatMap fun u ↦ u.2.toList)) (placeGroup p group) := by
  induction group generalizing p with
  | nil => exact ⟨.nil, fun t ht ↦ by cases ht⟩
  | cons u group ih =>
    obtain ⟨hu, hrest⟩ := List.forall_mem_cons.1 h
    obtain ⟨hascending, hwithin⟩ := ih (p := p.advance u.2.toList) hrest
    have hfirst : StartWithin p (p.advance u.2.toList) [⟨u.1, u.2, p⟩] := by
      intro t ht
      rw [List.mem_singleton.1 ht]
      exact ⟨Position.le_iff.2 (.inl rfl), Position.before_advance p hu⟩
    rw [List.flatMap_cons, Position.advance_append]
    have hsingle : Ascending [⟨u.1, u.2, p⟩] := List.pairwise_singleton _ _
    exact ⟨hsingle.append hascending hfirst hwithin,
      hfirst.append hwithin (Position.le_advance _ _) (Position.le_advance _ _)⟩

/-- A lexeme of a text is true to its own text. -/
theorem faithful_of_mem_segments {c : Char} {others : List Char} {meaning : Meaning}
    (h : .lexeme c others meaning ∈ segments limit text) :
    (Lexeme.mk others.length meaning).Faithful (c :: others) := by
  obtain ⟨cs, rfl, rfl⟩ := exists_read_of_mem_segments h
  exact Lexeme.faithful_read limit c cs

namespace PlacedSegment

variable {s : PlacedSegment}

theorem before_stop (s : PlacedSegment) : s.position.Before s.stop :=
  Position.before_advance _ s.segment.text_ne_nil

/-- The tokens of a segment stand one after the other, on the segment. -/
theorem tokens_ordered (hs : s.segment ∈ segments limit text) :
    Ascending s.tokens ∧ StartWithin s.position s.stop s.tokens := by
  have hstop := s.before_stop
  unfold stop at *
  unfold tokens
  split
  next c others group hsegment =>
    rw [hsegment] at hs hstop
    rw [hsegment]
    rcases ((faithful_of_mem_segments hs).2 group rfl).2 with ⟨t, rfl, -⟩ | ⟨htext, hgroup⟩
    · refine ⟨List.pairwise_singleton _ _, fun t ht ↦ ?_⟩
      rw [List.mem_singleton.1 ht]
      exact ⟨Position.le_iff.2 (.inl rfl), hstop⟩
    · have hordered := placeGroup_ordered (p := s.position) fun u hu ↦ (htext u hu).2
      rwa [hgroup] at hordered
  next => exact ⟨.nil, fun t ht ↦ by cases ht⟩

/-- A segment has at most one error, where it starts or where another segment follows. -/
theorem errors_cases (s : PlacedSegment) :
    s.errors = [] ∨ ∃ e, s.errors = [e] ∧
      (e.position = s.position ∨ e.position = s.stop ∧ s.next.isSome) := by
  unfold errors
  split
  · unfold delimiterErrors
    split
    next c _ hnext =>
      split
      · exact .inl rfl
      · exact .inr ⟨_, rfl, .inr ⟨rfl, by simp [hnext]⟩⟩
    next => exact .inl rfl
  · exact .inr ⟨_, rfl, .inl rfl⟩
  · exact .inl rfl

/-- What a segment gives, by what it is.  A blank and a comment, which runs to the end of its line,
give nothing.  A lexeme gives one error of its own where it starts; or it gives tokens, a value alone
or tokens whose lexemes make up the lexeme, and then no error but one at the character behind it,
which may not stand there. -/
def Sound (s : PlacedSegment) : Prop :=
  match s.segment with
  | .blank c => Text.isBlank c ∧ s.tokens = [] ∧ s.errors = []
  | .comment line =>
    '\n' ∉ line ∧ (s.next = none ∨ s.next = some '\n') ∧ s.tokens = [] ∧ s.errors = []
  | .lexeme c others _ =>
    (Text.isBlank c = false ∧ c ≠ '#') ∧
      ((s.tokens = [] ∧ ∃ cause : Fault, cause.isDelimiter = false ∧
          s.errors = [⟨cause, s.position⟩]) ∨
        (s.tokens ≠ [] ∧ Retells (c :: others) (s.tokens.map Token.plain) ∧
          (s.errors = [] ∨ ∃ found after, s.next = some found ∧
            s.errors = [⟨.invalidDelimiter found after, s.stop⟩])))

theorem map_plain_placeGroup (p : Position) (group : List (Kind × String)) :
    (placeGroup p group).map Token.plain = group := by
  induction group generalizing p with
  | nil => rfl
  | cons u group ih => rw [placeGroup, List.map_cons, ih, Token.plain]

theorem delimiterErrors_cases (group : List (Kind × String)) (next : Option Char) (p : Position) :
    delimiterErrors group next p = [] ∨ ∃ found after, next = some found ∧
      delimiterErrors group next p = [⟨.invalidDelimiter found after, p⟩] := by
  unfold delimiterErrors
  split
  · split
    · exact .inl rfl
    · exact .inr ⟨_, _, rfl, rfl⟩
  · exact .inl rfl

theorem sound_lexeme {c : Char} {others : List Char} {meaning : Meaning} {next : Option Char}
    (hblank : ¬ Text.isBlank c) (hhash : c ≠ '#')
    (h : (Lexeme.mk others.length meaning).Faithful (c :: others)) :
    Sound ⟨p, .lexeme c others meaning, next⟩ := by
  refine ⟨⟨by simpa using hblank, hhash⟩, ?_⟩
  cases meaning with
  | fault cause => exact .inl ⟨rfl, cause, h.1 cause rfl, rfl⟩
  | tokens group =>
    obtain ⟨hne, hretells⟩ := h.2 group rfl
    have hplain := map_plain_placeGroup p group
    refine .inr ⟨fun hnil ↦ hne ?_, ?_, delimiterErrors_cases group next _⟩
    · rw [← hplain, show placeGroup p group = [] from hnil, List.map_nil]
    · exact hplain.symm ▸ hretells

end PlacedSegment

theorem head?_drop_takeWhile_newline (cs : List Char) :
    (cs.drop (cs.takeWhile (· != '\n')).length).head? = none ∨
      (cs.drop (cs.takeWhile (· != '\n')).length).head? = some '\n' := by
  induction cs with
  | nil => exact .inl rfl
  | cons c cs ih =>
    by_cases hc : c = '\n'
    · simp [hc]
    · simpa [hc] using ih

/-- The segments of a text are sound, wherever it starts. -/
theorem sound_placeSegments (limit : Nat) (p : Position) (text : List Char) :
    ∀ s ∈ placeSegments p (segments limit text), s.Sound := by
  fun_induction segments limit text generalizing p with
  | case1 => simp [placeSegments]
  | case2 c cs hblank ih => exact List.forall_mem_cons.2 ⟨⟨hblank, rfl, rfl⟩, ih _⟩
  | case3 cs line _ ih =>
    refine List.forall_mem_cons.2 ⟨?_, ih _⟩
    have hline : '\n' ∉ line := fun hmem ↦ by simpa using List.mem_takeWhile_imp hmem
    rw [head?_segments]
    exact ⟨hline, head?_drop_takeWhile_newline cs, rfl, rfl⟩
  | case4 c cs hblank hhash l ih =>
    have hfaithful := Lexeme.faithful_read limit c cs
    exact List.forall_mem_cons.2 ⟨PlacedSegment.sound_lexeme hblank hhash hfaithful, ih _⟩

/-! ### All segments -/

theorem text_placeSegments (p : Position) (ss : List Segment) :
    (placeSegments p ss).flatMap (fun s ↦ s.segment.text) = ss.flatMap Segment.text := by
  induction ss generalizing p with
  | nil => rfl
  | cons s ss ih => rw [placeSegments, List.flatMap_cons, List.flatMap_cons, ih]

/-- Where a segment stands among the others, and what follows it. -/
theorem located_of_placeSegments {s : PlacedSegment} {ss : List Segment}
    {before after : List PlacedSegment} (h : placeSegments p ss = before ++ s :: after) :
    s.position = p.advance (before.flatMap fun u ↦ u.segment.text) ∧
      s.next = (after.flatMap fun u ↦ u.segment.text).head? := by
  induction ss generalizing p before with
  | nil => simp [placeSegments] at h
  | cons first ss ih =>
    cases before with
    | nil =>
      obtain ⟨rfl, rfl⟩ := List.cons.inj h
      refine ⟨rfl, ?_⟩
      rw [text_placeSegments]
      cases ss with
      | nil => rfl
      | cons u ss =>
        obtain ⟨c, cs, hu⟩ := List.exists_cons_of_ne_nil u.text_ne_nil
        simp [hu]
    | cons u before =>
      obtain ⟨rfl, hrest⟩ := List.cons.inj h
      rw [List.flatMap_cons, Position.advance_append]
      exact ih hrest

theorem tokens_placeSegments_ordered {ss : List Segment} (h : ∀ s ∈ ss, s ∈ segments limit text) :
    Ascending ((placeSegments p ss).flatMap PlacedSegment.tokens) ∧
      StartWithin p (p.advance (ss.flatMap Segment.text))
        ((placeSegments p ss).flatMap PlacedSegment.tokens) := by
  induction ss generalizing p with
  | nil => exact ⟨.nil, fun t ht ↦ by cases ht⟩
  | cons s ss ih =>
    obtain ⟨hs, hrest⟩ := List.forall_mem_cons.1 h
    obtain ⟨hascending, hwithin⟩ := ih (p := p.advance s.text) hrest
    obtain ⟨hfirst, hon⟩ := PlacedSegment.tokens_ordered
      (s := ⟨p, s, ss.head?.bind fun following ↦ following.text.head?⟩) hs
    rw [placeSegments, List.flatMap_cons, List.flatMap_cons, Position.advance_append]
    exact ⟨hfirst.append hascending hon hwithin,
      hon.append hwithin (Position.le_advance _ _) (Position.le_advance _ _)⟩

theorem errors_placeSegments_ordered (ss : List Segment) :
    ((placeSegments p ss).flatMap PlacedSegment.errors).Pairwise
        (fun e e' ↦ e.position.le e'.position) ∧
      ∀ e ∈ (placeSegments p ss).flatMap PlacedSegment.errors,
        p.le e.position ∧ e.position.Before (p.advance (ss.flatMap Segment.text)) := by
  induction ss generalizing p with
  | nil => exact ⟨.nil, fun e he ↦ by cases he⟩
  | cons s ss ih =>
    obtain ⟨hordered, hwithin⟩ := ih (p := p.advance s.text)
    rw [placeSegments, List.flatMap_cons, List.flatMap_cons, Position.advance_append]
    have hrest : ∀ e ∈ (placeSegments (p.advance s.text) ss).flatMap PlacedSegment.errors,
        p.le e.position ∧
          e.position.Before ((p.advance s.text).advance (ss.flatMap Segment.text)) :=
      fun e he ↦ ⟨Position.le_trans (Position.le_advance _ _) (hwithin e he).1, (hwithin e he).2⟩
    rcases PlacedSegment.errors_cases
      ⟨p, s, ss.head?.bind fun following ↦ following.text.head?⟩ with herrors | ⟨e, herrors, he⟩
    · rw [herrors]
      exact ⟨hordered, hrest⟩
    · have hstart : p.le e.position ∧ e.position.le (p.advance s.text) ∧
          e.position.Before ((p.advance s.text).advance (ss.flatMap Segment.text)) := by
        rcases he with he | ⟨he, hnext⟩
        · rw [he]
          have hstop := p.before_advance s.text_ne_nil
          exact ⟨Position.le_iff.2 (.inl rfl), Position.le_advance _ _,
            Position.before_of_before_of_le hstop (Position.le_advance _ _)⟩
        · -- Something follows, so the text goes on behind the segment.
          have hmore : ss.flatMap Segment.text ≠ [] := by
            cases ss with
            | nil => cases hnext
            | cons u ss => simp [u.text_ne_nil]
          rw [he]
          exact ⟨Position.le_advance _ _, Position.le_iff.2 (.inl rfl),
            Position.before_advance _ hmore⟩
      rw [herrors, List.singleton_append]
      refine ⟨List.pairwise_cons.2 ⟨fun e' he' ↦ ?_, hordered⟩,
        List.forall_mem_cons.2 ⟨⟨hstart.1, hstart.2.2⟩, hrest⟩⟩
      exact Position.le_trans hstart.2.1 (hwithin e' he').1

/-! ### The scan of a text -/

/-- The token was read from the stretch of the text that starts at its position.  Its lexeme is that
stretch, unless it is a value. -/
def Transcribed (source : List Char) (t : Token) : Prop :=
  ∃ before spelling after, source = before ++ spelling ++ after ∧ spelling ≠ [] ∧
    t.position = .behind before ∧ (t.kind.isValue = false → t.lexeme.toList = spelling)

/-- How a text, its placed segments and its scan belong together. -/
structure Partition (source : List Char) (placed : List PlacedSegment) (result : Scan) : Prop where
  /-- The segments make up the text. -/
  text : placed.flatMap (fun s ↦ s.segment.text) = source
  /-- No segment is empty. -/
  nonempty : ∀ s ∈ placed, s.segment.text ≠ []
  /-- A segment stands behind the text of those before it and before the text of those after it. -/
  located : ∀ before s after, placed = before ++ s :: after →
    s.position = .behind (before.flatMap fun u ↦ u.segment.text) ∧
      s.next = (after.flatMap fun u ↦ u.segment.text).head?
  /-- A segment gives what its text says. -/
  sound : ∀ s ∈ placed, s.Sound
  /-- Every token is on a stretch of the text, and none ends the input. -/
  transcribed : ∀ t ∈ placed.flatMap PlacedSegment.tokens, t.kind ≠ .eof ∧ Transcribed source t
  /-- The tokens of all segments and the end of the text stand one after the other. -/
  ascending : Ascending (placed.flatMap PlacedSegment.tokens ++ [.endOfInput (.behind source)])
  /-- The errors are those of all segments. -/
  errors : result.errors = placed.flatMap PlacedSegment.errors
  /-- Errors never go back. -/
  ordered : result.errors.Pairwise fun e e' ↦ e.position.le e'.position
  /-- No error stands at the end of the text. -/
  unended : ∀ e ∈ result.errors, e.position.Before (.behind source)
  /-- The scan has the tokens that start at no error, and the end of the input. -/
  tokens : result.tokens =
    Scan.keepClean result.errors (placed.flatMap PlacedSegment.tokens) ++
      [.endOfInput (.behind source)]
  /-- The tokens of the scan stand one after the other. -/
  increasing : Ascending result.tokens

variable {source : String}

theorem kind_ne_eof_of_mem_textSegments {t : Token}
    (h : t ∈ (textSegments limit source).flatMap PlacedSegment.tokens) : t.kind ≠ .eof := by
  obtain ⟨s, hs, ht⟩ := List.mem_flatMap.1 h
  obtain ⟨c, others, group, hsegment, htokens⟩ := PlacedSegment.exists_lexeme ht
  obtain ⟨cs, -, hcs⟩ :=
    exists_read_of_mem_segments (hsegment ▸ segment_mem_of_mem_placeSegments hs)
  rw [htokens] at ht
  exact Lexeme.unended_read limit c cs group hcs.symm _ (plain_mem_of_mem_placeGroup ht)

/-- The stretch of a segment that a token of it was read from: all of it if the token is a value, the
characters of the lexeme if not. -/
def PlacedSegment.spelling (s : PlacedSegment) (t : Token) : List Char :=
  if t.kind.isValue then s.segment.text else t.lexeme.toList

/-- Where a token stands in its segment: at its end, or in front of another token. -/
inductive PlacedSegment.Holds (s : PlacedSegment) (t : Token) (upto after : List Char) : Prop
  | last {c : Char} {others : List Char} {first : List (Kind × String)}
    (segment : s.segment = .lexeme c others (.tokens (first ++ [t.plain])))
    (stop : s.stop = .behind upto) (next : s.next = after.head?)
  | inner {c : Char} {others : List Char} {first last : List (Kind × String)} {u : Kind × String}
    (segment : s.segment = .lexeme c others (.tokens (first ++ t.plain :: u :: last)))
    (stop : (Position.behind upto).Before s.stop) (next : after.head? = u.2.toList.head?)

/-- Every token of a segment was read from a stretch of the segment. -/
theorem exists_append_of_mem_tokens {s : PlacedSegment} {t : Token}
    (hs : s ∈ textSegments limit source) (ht : t ∈ s.tokens) :
    ∃ before after, source.toList = before ++ s.spelling t ++ after ∧ t.position = .behind before ∧
      s.spelling t ≠ [] ∧ s.Holds t (before ++ s.spelling t) after := by
  obtain ⟨c, others, group, hsegment, htokens⟩ := PlacedSegment.exists_lexeme ht
  obtain ⟨front, back, hplaced⟩ := List.append_of_mem hs
  obtain ⟨hposition, hnext⟩ := located_of_placeSegments hplaced
  have hmem : s.segment ∈ segments limit source.toList := segment_mem_of_mem_placeSegments hs
  have htext : source.toList = front.flatMap (fun u ↦ u.segment.text) ++
      (s.segment.text ++ back.flatMap fun u ↦ u.segment.text) := by
    rw [← flatMap_text_segments limit source.toList, ← text_placeSegments .start]
    change (textSegments limit source).flatMap _ = _
    rw [hplaced, List.flatMap_append, List.flatMap_cons]
  have hstop : s.stop = .behind (front.flatMap (fun u ↦ u.segment.text) ++ s.segment.text) := by
    rw [PlacedSegment.stop, hposition, ← Position.advance_append, Position.advance_start]
  rw [hsegment] at hmem
  -- A token is alone on its segment, or the segment is spelled by the lexemes of a run of signs.
  rcases ((faithful_of_mem_segments hmem).2 group rfl).2 with ⟨u, rfl, hvalue⟩ | ⟨hlexemes, hgroup⟩
  · obtain rfl : t = ⟨u.1, u.2, s.position⟩ := by
      rw [htokens] at ht
      exact List.mem_singleton.1 ht
    have hlast : s.segment = .lexeme c others (.tokens ([] ++ [u])) := hsegment
    rw [PlacedSegment.spelling, if_pos hvalue]
    exact ⟨_, _, by rw [htext, List.append_assoc], hposition.trans (Position.advance_start _),
      s.segment.text_ne_nil, .last hlast hstop hnext⟩
  · rw [htokens] at ht
    obtain ⟨first, last, rfl, hstart⟩ := exists_append_of_mem_placeGroup ht
    obtain ⟨hvalue, hne⟩ := hlexemes t.plain (by simp)
    have hsplit : s.segment.text = first.flatMap (fun u ↦ u.2.toList) ++
        (t.lexeme.toList ++ last.flatMap fun u ↦ u.2.toList) := by
      rw [hsegment, Segment.text, ← hgroup, List.flatMap_append, List.flatMap_cons]
      rfl
    have hspelling : s.spelling t = t.lexeme.toList := if_neg (ne_true_of_eq_false hvalue)
    rw [hspelling]
    refine ⟨front.flatMap (fun u ↦ u.segment.text) ++ first.flatMap (fun u ↦ u.2.toList),
      last.flatMap (fun u ↦ u.2.toList) ++ back.flatMap fun u ↦ u.segment.text, ?_, ?_, hne, ?_⟩
    · rw [htext, hsplit]
      simp
    · rw [hstart, hposition, ← Position.advance_append, Position.advance_start]
    · cases last with
      | nil =>
        refine .last hsegment ?_ hnext
        rw [hstop, hsplit]
        simp
      | cons u last =>
        have hu : u.2.toList ≠ [] := (hlexemes u (by simp)).2
        refine .inner hsegment ?_ ?_
        · rw [hstop, hsplit, ← List.append_assoc, ← List.append_assoc, Position.behind_append _
            (List.flatMap _ (u :: last))]
          exact Position.before_advance _ (by simp [hu])
        · obtain ⟨d, ds, hd⟩ := List.exists_cons_of_ne_nil hu
          simp [hd]

theorem transcribed_of_mem_textSegments {t : Token}
    (h : t ∈ (textSegments limit source).flatMap PlacedSegment.tokens) :
    Transcribed source.toList t := by
  obtain ⟨s, hs, ht⟩ := List.mem_flatMap.1 h
  obtain ⟨before, after, htext, hposition, hne, -⟩ := exists_append_of_mem_tokens hs ht
  exact ⟨before, _, after, htext, hne, hposition,
    fun hvalue ↦ (if_neg (ne_true_of_eq_false hvalue)).symm⟩

/-- Scanning partitions every text, whatever the limit for words. -/
theorem partition_scan (limit : Nat) (source : String) :
    Partition source.toList (textSegments limit source) (scan limit source) := by
  have htext := flatMap_text_segments limit source.toList
  have hend : Position.start.advance ((segments limit source.toList).flatMap Segment.text) =
      .behind source.toList := by
    rw [htext, Position.advance_start]
  have hall : ∀ s ∈ segments limit source.toList, s ∈ segments limit source.toList := fun s hs ↦ hs
  obtain ⟨hascending, hwithin⟩ := tokens_placeSegments_ordered (p := .start) hall
  obtain ⟨hordered, herrors⟩ := errors_placeSegments_ordered (p := .start)
    (segments limit source.toList)
  rw [hend] at hwithin herrors
  have htokens : (scan limit source).tokens =
      Scan.keepClean (scan limit source).errors
          ((textSegments limit source).flatMap PlacedSegment.tokens) ++
        [.endOfInput (.behind source.toList)] := by
    rw [← Position.advance_start]
    rfl
  -- The end of the input stands behind all tokens, as it stands behind all segments.
  have hordering : Ascending ((textSegments limit source).flatMap PlacedSegment.tokens ++
      [.endOfInput (.behind source.toList)]) := by
    refine List.pairwise_append.2 ⟨hascending, List.pairwise_singleton _ _, fun t ht u hu ↦ ?_⟩
    rw [List.mem_singleton.1 hu]
    exact (hwithin t ht).2
  exact {
    text := (text_placeSegments _ _).trans htext
    nonempty := fun s _ ↦ s.segment.text_ne_nil
    located := fun before s after h ↦ by
      rw [← Position.advance_start]
      exact located_of_placeSegments h
    sound := sound_placeSegments limit .start source.toList
    transcribed := fun t ht ↦
      ⟨kind_ne_eof_of_mem_textSegments ht, transcribed_of_mem_textSegments ht⟩
    ascending := hordering
    errors := rfl
    ordered := hordered
    unended := fun e he ↦ (herrors e he).2
    tokens := htokens
    increasing := by
      rw [htokens]
      exact hordering.sublist (List.filter_sublist.append_right _) }

end

end FrontEnd
