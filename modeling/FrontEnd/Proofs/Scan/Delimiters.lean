import FrontEnd.Proofs.Scan.Partition
import FrontEnd.Token.Follow
import Mathlib.Data.List.Pairwise

/-!
# What stands behind a token

The last token of a lexeme is looked at together with the character behind it; the other tokens of a
run of signs are not.  They need not be: what follows them is the same sign again, which may follow
every token of a run (`Lexeme.linked_read`).  So for every token that is read there is an error behind
it exactly if the character there may not follow it.

A scan drops the tokens that start where any error stands.  The errors of other lexemes stand where
these start, which is where no token starts, so the tokens that are dropped are those that start where
a character may not follow the token before it.  Both rest on places: segments do not overlap
(`textSegments_apart`), and an error of this sort stands where its segment ends.
-/

namespace FrontEnd

namespace Lexeme

variable {limit : Nat} {c : Char}

/-- Each token of the lexeme may be followed by the first character of the next one. -/
def Linked (l : Lexeme) : Prop :=
  ∀ group, l.meaning = .tokens group → ∀ first t u last, group = first ++ t :: u :: last →
    t.1.allows u.2.toList.head?

theorem linked_of_length_le_one {l : Lexeme}
    (h : ∀ group, l.meaning = .tokens group → group.length ≤ 1) : l.Linked := by
  rintro group hgroup first t u last rfl
  have hlength := h _ hgroup
  simp only [List.length_append, List.length_cons] at hlength
  omega

theorem linked_refused (extra : Nat) (cause : Fault) : (refused extra cause).Linked :=
  linked_of_length_le_one fun _ h ↦ by cases h

theorem linked_token (extra : Nat) (k : Kind) (s : String) : (token extra k s).Linked :=
  linked_of_length_le_one fun _ h ↦ by cases h; exact Nat.le_refl 1

theorem linked_signRun {kinds : SignKinds} (h : signKinds? c = some kinds) (cs : List Char) :
    (signRun kinds c cs).Linked := by
  obtain ⟨hsingle, hstep, -⟩ := spelling_of_signKinds? h
  have hallowed : kinds.single.allows (some c) ∧ kinds.step.allows (some c) := by
    rcases signKinds?_eq_some h with ⟨rfl, rfl⟩ | ⟨rfl, rfl⟩ <;> decide
  rw [signRun]
  split
  · split <;> exact linked_token _ _ _
  · rintro group ⟨⟩ first t u last hgroup
    have hparts : ∀ v ∈ first ++ t :: u :: last, ∃ k, (k = kinds.step ∨ k = kinds.single) ∧
        v = (k, k.spelling) := by
      intro v hv
      rw [← hgroup] at hv
      obtain ⟨k, hk, rfl⟩ := List.mem_map.1 hv
      exact ⟨k, mem_division hk, rfl⟩
    obtain ⟨k, hk, rfl⟩ := hparts t (by simp)
    obtain ⟨j, hj, rfl⟩ := hparts u (by simp)
    have hhead : j.spelling.toList.head? = some c := by
      rcases hj with rfl | rfl
      · simp [hstep]
      · simp [hsingle]
    rw [hhead]
    rcases hk with rfl | rfl
    · exact hallowed.2
    · exact hallowed.1

/-- Only runs of signs have several tokens, and the sign may follow each of them. -/
theorem linked_read (limit : Nat) (c : Char) (cs : List Char) : (read limit c cs).Linked := by
  have hnumeral (negative : Bool) (d : Char) (cs : List Char) : (numeral negative d cs).Linked := by
    have hnormal (extra : Nat) (result : Except Fault (Kind × String)) :
        (ofNormal extra result).Linked := by
      cases result with
      | ok t => exact linked_token _ _ _
      | error cause => exact linked_refused _ _
    rw [numeral]
    simp only
    split
    · exact linked_refused _ _
    · split
      · exact hnormal _ _
      · exact linked_refused _ _
    · split
      · exact hnormal _ _
      · exact linked_refused _ _
  have hclose (taken : Nat) (value cs : List Char) : (closeCharacter taken value cs).Linked := by
    unfold closeCharacter
    split
    · exact linked_token _ _ _
    · split <;> exact linked_refused _ _
  -- A lexeme of one token, or of none, is linked; only a run of signs has more.
  refine of_read (Q := fun _ _ l ↦ l.Linked) (fun cs ↦ ?_) (fun cs ↦ ?_)
    (fun d cs _ ↦ hnumeral false d cs) (fun d cs _ ↦ hnumeral true d cs) (fun c cs _ ↦ ?_)
    (fun _ cs _ h ↦ linked_signRun h cs) (fun c cs ↦ ?_) (fun _ _ ↦ linked_refused _ _) c cs
  · rw [stringLiteral]
    split
    · split
      · exact linked_refused _ _
      · exact linked_token _ _ _
    · exact linked_refused _ _
  · fun_cases characterLiteral cs
    case case5 c cs _ => exact hclose _ _ _
    case case8 c cs _ _ _ _ => exact hclose _ _ _
    all_goals exact linked_refused _ _
  · rw [word]
    split
    · exact linked_refused _ _
    split
    · exact linked_token _ _ _
    · split
      · exact linked_refused _ _
      · exact linked_token _ _ _
  · unfold operator
    split
    · exact linked_token _ _ _
    · exact linked_refused _ _

end Lexeme

/-! ### Places of errors -/

/-- Stretches of one text that end at one place are one. -/
theorem Position.eq_of_behind_eq {a b a' b' : List Char} (h : a ++ b = a' ++ b')
    (hplace : behind a = behind a') : a = a' := by
  have hrest {a c : List Char} (h : behind a = behind (a ++ c)) : c = [] := by
    by_contra hne
    rw [behind_append] at h
    exact (before_advance _ hne).ne h
  rcases List.append_eq_append_iff.1 h with ⟨c, rfl, -⟩ | ⟨c, rfl, -⟩
  · rw [hrest hplace, List.append_nil]
  · rw [hrest hplace.symm, List.append_nil]

section

variable {limit : Nat} {source : String} {t : Token} {s u : PlacedSegment} {e : LexicalError}
variable {before spelling after : List Char}

theorem pairwise_placeSegments (p : Position) (ss : List Segment) :
    (placeSegments p ss).Pairwise fun s u ↦ s.stop.le u.position := by
  induction ss generalizing p with
  | nil => exact .nil
  | cons s ss ih =>
    refine List.pairwise_cons.2 ⟨fun u hu ↦ ?_, ih _⟩
    obtain ⟨front, -, -, hposition⟩ := exists_append_of_mem_placeSegments hu
    rw [hposition]
    exact Position.le_advance _ _

/-- One of the segments ends before the other one starts. -/
def PlacedSegment.Apart (s u : PlacedSegment) : Prop :=
  s.stop.le u.position ∨ u.stop.le s.position

instance : Std.Symm PlacedSegment.Apart :=
  ⟨fun _ _ h ↦ h.symm⟩

theorem textSegments_apart (hs : s ∈ textSegments limit source) (hu : u ∈ textSegments limit source)
    (hne : s ≠ u) : s.Apart u :=
  have hpairwise : (textSegments limit source).Pairwise PlacedSegment.Apart :=
    (pairwise_placeSegments _ _).imp fun h ↦ .inl h
  hpairwise.forall hs hu hne

/-- A place on a segment that another segment ends at is the end of both. -/
theorem PlacedSegment.Apart.stop_ne {p : Position} (h : s.Apart u) (hp : s.position.Before p)
    (hstop : p.le s.stop) : u.stop ≠ p := by
  rintro rfl
  rcases h with h | h
  · exact (Position.before_of_le_of_before (Position.le_trans hstop h) u.before_stop).ne rfl
  · exact (Position.before_of_le_of_before h hp).ne rfl

/-- A place on a segment is not the start of another one. -/
theorem PlacedSegment.Apart.position_ne {p : Position} (h : s.Apart u) (hp : s.position.le p)
    (hstop : p.Before s.stop) : u.position ≠ p := by
  rintro rfl
  rcases h with h | h
  · exact (Position.before_of_before_of_le hstop h).ne rfl
  · exact (Position.before_of_before_of_le u.before_stop (Position.le_trans h hp)).ne rfl

/-- An error of a segment is one of the character behind its tokens, or it stands where the segment
starts, which then has no tokens. -/
theorem PlacedSegment.Sound.error_cases (h : s.Sound) (he : e ∈ s.errors) :
    (e.fault.isDelimiter ∧ e.position = s.stop) ∨
      (e.fault.isDelimiter = false ∧ e.position = s.position ∧ s.tokens = []) := by
  unfold Sound at h
  split at h
  · simp [h.2.2] at he
  · simp [h.2.2.2] at he
  · rcases h.2 with ⟨htokens, cause, hcause, herrors⟩ | ⟨-, -, herrors | ⟨c, lexeme, -, herrors⟩⟩
    · rw [herrors, List.mem_singleton] at he
      exact .inr ⟨he ▸ hcause, he ▸ rfl, htokens⟩
    · simp [herrors] at he
    · rw [herrors, List.mem_singleton] at he
      exact .inl ⟨he ▸ rfl, he ▸ rfl⟩

/-- The errors of characters behind tokens that stand where a segment ends, or on it behind its start,
are those of the segment. -/
theorem mem_errors_of_position (hs : s ∈ textSegments limit source)
    (he : e ∈ (scan limit source).errors) (hdelimiter : e.fault.isDelimiter)
    (hp : s.position.Before e.position) (hstop : e.position.le s.stop) :
    e ∈ s.errors ∧ e.position = s.stop := by
  obtain ⟨u, hu, heu⟩ := List.mem_flatMap.1 he
  have hplace : e.position = u.stop := by
    rcases ((partition_scan limit source).sound u hu).error_cases heu with ⟨-, h⟩ | ⟨h, -, -⟩
    · exact h
    · simp [h] at hdelimiter
  by_cases hsu : s = u
  · subst hsu
    exact ⟨heu, hplace⟩
  · exact absurd hplace.symm ((textSegments_apart hs hu hsu).stop_ne hp hstop)

/-! ### The character behind a token -/

/-- The tokens that are read from a text, with those that a scan drops. -/
def tokensRead (limit : Nat) (source : String) : List Token :=
  (textSegments limit source).flatMap PlacedSegment.tokens

/-- The token was read from a stretch of the text. -/
structure ReadFrom (limit : Nat) (source : String) (t : Token) (before spelling after : List Char) :
    Prop where
  text : source.toList = before ++ spelling ++ after
  position : t.position = .behind before
  spelling : ∃ s ∈ textSegments limit source, t ∈ s.tokens ∧ spelling = s.spelling t

theorem exists_readFrom (h : t ∈ tokensRead limit source) :
    ∃ before spelling after, ReadFrom limit source t before spelling after := by
  obtain ⟨s, hs, ht⟩ := List.mem_flatMap.1 h
  obtain ⟨before, after, htext, hposition, -⟩ := exists_append_of_mem_tokens hs ht
  exact ⟨before, _, after, htext, hposition, s, hs, ht, rfl⟩

/-- A token stands in its segment on the stretch that it was read from. -/
theorem ReadFrom.exists_holds (h : ReadFrom limit source t before spelling after) :
    ∃ s ∈ textSegments limit source, s.Holds t (before ++ spelling) after ∧
      s.position.Before (.behind (before ++ spelling)) := by
  obtain ⟨htext, hposition, s, hs, ht, rfl⟩ := h
  obtain ⟨before', after', htext', hposition', hne, hholds⟩ := exists_append_of_mem_tokens hs ht
  rw [List.append_assoc] at htext htext'
  obtain rfl : before = before' :=
    Position.eq_of_behind_eq (htext.symm.trans htext') (hposition.symm.trans hposition')
  rw [htext, List.append_cancel_left_eq, List.append_cancel_left_eq] at htext'
  obtain rfl := htext'
  obtain ⟨hstart, -⟩ := (PlacedSegment.tokens_ordered (segment_mem_of_mem_placeSegments hs)).2 t ht
  refine ⟨s, hs, hholds, Position.before_of_le_of_before hstart ?_⟩
  rw [hposition, Position.behind_append]
  exact Position.before_advance _ hne

/-- The errors of characters behind tokens, told from the text. -/
theorem ReadFrom.mem_errors_iff (h : ReadFrom limit source t before spelling after) :
    (e ∈ (scan limit source).errors ∧ e.fault.isDelimiter ∧
        e.position = .behind (before ++ spelling)) ↔
      ∃ c, after.head? = some c ∧ t.kind.allows (some c) = false ∧
        e = ⟨.invalidDelimiter c t.lexeme, .behind (before ++ spelling)⟩ := by
  obtain ⟨s, hs, hholds, hbehind⟩ := h.exists_holds
  cases hholds with
  -- The last token of a segment is the one that is checked.
  | @last c others first hsegment hstop hnext =>
    have herrors : s.errors =
        PlacedSegment.delimiterErrors (first ++ [t.plain]) after.head? (.behind (before ++ spelling)) := by
      rw [PlacedSegment.errors, hsegment, hnext, hstop]
    have hmem : e ∈ s.errors ↔ ∃ c, after.head? = some c ∧ t.kind.allows (some c) = false ∧
        e = ⟨.invalidDelimiter c t.lexeme, .behind (before ++ spelling)⟩ := by
      rw [herrors]
      cases after.head? with
      | none => simp [PlacedSegment.delimiterErrors]
      | some d =>
        cases hd : t.kind.allows (some d) <;> simp [PlacedSegment.delimiterErrors, Token.plain, hd]
    rw [← hmem]
    constructor
    · rintro ⟨he, hdelimiter, hposition⟩
      rw [← hposition] at hbehind hstop
      exact (mem_errors_of_position hs he hdelimiter hbehind (Position.le_iff.2 (.inl hstop.symm))).1
    · intro he
      obtain ⟨c, -, -, rfl⟩ := hmem.1 he
      exact ⟨List.mem_flatMap.2 ⟨s, hs, he⟩, rfl, rfl⟩
  -- A token inside of a run of signs is not checked, and the sign behind it may follow it.
  | @inner c others first last u hsegment hstop hnext =>
    refine iff_of_false ?_ ?_
    · rintro ⟨he, hdelimiter, hposition⟩
      rw [← hposition] at hbehind hstop
      obtain ⟨-, hend⟩ := mem_errors_of_position hs he hdelimiter hbehind (Position.le_iff.2 (.inr hstop))
      exact hstop.ne hend
    · rintro ⟨c, hc, hallows, -⟩
      have hmem := segment_mem_of_mem_placeSegments hs
      rw [hsegment] at hmem
      obtain ⟨cs, -, hcs⟩ := exists_read_of_mem_segments hmem
      have hlinked := Lexeme.linked_read limit _ cs _ hcs.symm first t.plain u last rfl
      rw [← hnext, hc] at hlinked
      exact absurd hlinked (ne_true_of_eq_false hallows)

/-! ### The tokens that are dropped -/

/-- No token starts where an error of another lexeme stands. -/
theorem isDelimiter_of_position_eq
    (ht : t ∈ tokensRead limit source)
    (he : e ∈ (scan limit source).errors) (h : e.position = t.position) : e.fault.isDelimiter := by
  obtain ⟨s, hs, hts⟩ := List.mem_flatMap.1 ht
  obtain ⟨u, hu, heu⟩ := List.mem_flatMap.1 he
  rcases ((partition_scan limit source).sound u hu).error_cases heu with
    ⟨hdelimiter, -⟩ | ⟨-, hplace, htokens⟩
  · exact hdelimiter
  · have hne : s ≠ u := by
      rintro rfl
      simp [htokens] at hts
    obtain ⟨hstart, hend⟩ :=
      (PlacedSegment.tokens_ordered (segment_mem_of_mem_placeSegments hs)).2 t hts
    exact absurd (hplace.symm.trans h) ((textSegments_apart hs hu hne).position_ne hstart hend)

/-- The character behind each token that is read is checked, and what a scan drops are the tokens that
start at a character that may not stand where it stands. -/
theorem delimiters_are_exact (limit : Nat) (source : String) :
    (∀ t ∈ tokensRead limit source, ∃ before spelling after,
      ReadFrom limit source t before spelling after) ∧
    (∀ t before spelling after, ReadFrom limit source t before spelling after → ∀ e,
      (e ∈ (scan limit source).errors ∧ e.fault.isDelimiter ∧
          e.position = .behind (before ++ spelling)) ↔
        ∃ c, after.head? = some c ∧ t.kind.allows (some c) = false ∧
          e = ⟨.invalidDelimiter c t.lexeme, .behind (before ++ spelling)⟩) ∧
    (scan limit source).tokens = ((tokensRead limit source).filter fun t ↦
        !(scan limit source).errors.any fun e ↦ e.fault.isDelimiter && e.position == t.position) ++
      [.endOfInput (.behind source.toList)] ∧
    ((scan limit source).clean →
      (scan limit source).tokens =
        tokensRead limit source ++ [.endOfInput (.behind source.toList)] ∧
      ∀ t before spelling after, ReadFrom limit source t before spelling after →
        t.kind.allows after.head?) := by
  have hpartition := partition_scan limit source
  refine ⟨fun t ht ↦ exists_readFrom ht, fun t before spelling after h e ↦ h.mem_errors_iff, ?_, ?_⟩
  · rw [hpartition.tokens]
    -- An error at the position of a token is always one of a delimiter.
    refine congrArg (· ++ _) (List.filter_congr fun t ht ↦ congrArg (!·) ?_)
    rw [Bool.eq_iff_iff, List.any_eq_true, List.any_eq_true]
    refine exists_congr fun e ↦ and_congr_right fun he ↦ ?_
    rw [Bool.and_eq_true, beq_iff_eq]
    exact ⟨fun h ↦ ⟨isDelimiter_of_position_eq ht he h, h⟩, fun h ↦ h.2⟩
  · intro hclean
    have hnone : (scan limit source).errors = [] := List.isEmpty_iff.1 hclean
    refine ⟨?_, fun t before spelling after h ↦ ?_⟩
    · rw [hpartition.tokens, hnone]
      simp [Scan.keepClean, tokensRead]
    · cases hc : after.head? with
      | none => rfl
      | some c =>
        by_contra hallows
        obtain ⟨he, -⟩ := h.mem_errors_iff.2 ⟨c, hc, by simpa using hallows, rfl⟩
        rw [hnone] at he
        cases he

end

end FrontEnd
