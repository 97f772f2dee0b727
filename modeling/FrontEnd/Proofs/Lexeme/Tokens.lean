import FrontEnd.Lexeme.Read
import FrontEnd.Proofs.Lexeme.NormalForm

/-!
# The tokens a lexeme stands for

`Lexeme.All P l` says that every token of the lexeme has a property; a refused lexeme has no tokens.
The module proves such properties of all reading: names and reserved words are told apart by their
lexemes, since only words become either and the table of reserved words decides (`worded_read`), and
the lexemes of names are the words that start with a letter and are not reserved (`named_read`).
-/

namespace FrontEnd

namespace Lexeme

variable {P : Kind × String → Prop}

/-- Every token of the lexeme has the property. -/
def All (P : Kind × String → Prop) (l : Lexeme) : Prop :=
  ∀ group, l.meaning = .tokens group → ∀ t ∈ group, P t

theorem all_refused (extra : Nat) (cause : Fault) : (refused extra cause).All P := by
  intro group h
  cases h

theorem all_token {extra : Nat} {k : Kind} {s : String} (h : P (k, s)) :
    (token extra k s).All P := by
  intro group hgroup t ht
  cases hgroup
  rwa [List.mem_singleton.1 ht]

theorem All.mono {Q : Kind × String → Prop} {l : Lexeme} (h : l.All P) (hPQ : ∀ t, P t → Q t) :
    l.All Q :=
  fun group hgroup t ht ↦ hPQ t (h group hgroup t ht)

theorem All.shifted {l : Lexeme} (h : l.All P) (more : Nat) : (l.shifted more).All P :=
  h

theorem all_closeCharacter {taken : Nat} {value : List Char} (cs : List Char)
    (h : P (.charLit, String.ofList value)) : (closeCharacter taken value cs).All P := by
  unfold closeCharacter
  split
  · exact all_token h
  · split <;> exact all_refused _ _

/-- What neither stands alone at the end nor begins an escape is no backslash. -/
theorem ne_backslash {c : Char} {cs : List Char} (hlast : c = '\\' → cs = [] → False)
    (hescape : ∀ d ds, c = '\\' → cs = d :: ds → False) : c ≠ '\\' := by
  intro hc
  cases cs with
  | nil => exact hlast hc rfl
  | cons d ds => exact hescape d ds hc rfl

end Lexeme

theorem Kind.mem_words_of_ofWord? {word : String} {k : Kind} (h : Kind.ofWord? word = some k) :
    (word, k) ∈ Kind.words := by
  obtain ⟨before, after, hwords, -⟩ := List.lookup_eq_some_iff.1 h
  rw [hwords]
  simp

theorem Kind.ne_identifier_of_ofWord? {word : String} {k : Kind} (h : Kind.ofWord? word = some k) :
    k ≠ .identifier := by
  have hall : ∀ entry ∈ Kind.words, entry.2 ≠ .identifier := by decide
  exact hall _ (Kind.mem_words_of_ofWord? h)

/-- The lexeme of a name is not reserved, and that of a reserved word is reserved for it. -/
def Worded (t : Kind × String) : Prop :=
  (t.1 = .identifier → Kind.ofWord? t.2 = none) ∧ (t.1.isKeyword → Kind.ofWord? t.2 = some t.1)

/-- Kinds that are neither names nor reserved words. -/
def Kind.isWordless (k : Kind) : Bool :=
  k != .identifier && !k.isKeyword

theorem worded_of_isWordless {k : Kind} (h : k.isWordless) (s : String) : Worded (k, s) := by
  simp only [Kind.isWordless, Bool.and_eq_true, bne_iff_ne, ne_eq, Bool.not_eq_true'] at h
  exact ⟨fun hk ↦ absurd hk h.1, fun hk ↦ by simp [h.2] at hk⟩

namespace Lexeme

variable {limit : Nat} {c : Char} {cs : List Char}

/-- Tokens that are neither names nor reserved words. -/
def Wordless (t : Kind × String) : Prop :=
  t.1.isWordless

theorem wordless_stringLiteral (cs : List Char) : (stringLiteral cs).All Wordless := by
  rw [stringLiteral]
  split
  · split
    · exact all_refused _ _
    · exact all_token rfl
  · exact all_refused _ _

theorem wordless_characterLiteral (cs : List Char) : (characterLiteral cs).All Wordless := by
  fun_cases characterLiteral cs
  case case5 c cs _ => exact all_closeCharacter cs rfl
  case case8 c cs _ _ _ _ => exact all_closeCharacter cs rfl
  all_goals exact all_refused _ _

theorem wordless_ofNormal {extra : Nat} {result : Except Fault (Kind × String)}
    (h : ∀ k s, result = .ok (k, s) → k.isWordless) : (ofNormal extra result).All Wordless := by
  cases result with
  | error cause => exact all_refused _ _
  | ok t => exact all_token (h t.1 t.2 rfl)

theorem isDigit_of_mem_takeWhile : ∀ c ∈ cs.takeWhile Char.isDigit, c.isDigit :=
  fun _ hc ↦ List.mem_takeWhile_imp hc

theorem isDigit_of_numeralTail {rest fraction : List Char}
    (h : numeralTail rest = .fraction fraction) : ∀ c ∈ fraction, c.isDigit := by
  unfold numeralTail at h
  split at h
  · simp only at h
    split at h
    · cases h
    · cases h
      exact isDigit_of_mem_takeWhile
  · cases h

/-- A number that is not refused is one of the two normal forms. -/
theorem all_numeral {P : Kind × String → Prop} {negative : Bool} {d : Char}
    (hinteger : ∀ extra,
      (ofNormal extra (normalInteger (d :: cs.takeWhile Char.isDigit) negative)).All P)
    (hdouble : ∀ extra fraction, (∀ c ∈ fraction, c.isDigit) →
      (ofNormal extra (normalDouble (d :: cs.takeWhile Char.isDigit) fraction negative)).All P) :
    (numeral negative d cs).All P := by
  rw [numeral]
  simp only
  split
  next => exact all_refused _ _
  next fraction htail =>
    split
    · exact hdouble _ fraction (isDigit_of_numeralTail htail)
    · exact all_refused _ _
  next =>
    split
    · exact hinteger _
    · exact all_refused _ _

theorem wordless_numeral (negative : Bool) (d : Char) (cs : List Char) :
    (numeral negative d cs).All Wordless := by
  have hinteger : ∀ (digits : List Char) k s, normalInteger digits negative = .ok (k, s) →
      k.isWordless := by
    intro digits k s h
    rcases normalInteger_eq_ok h with ⟨rfl, -⟩ | ⟨rfl, -⟩ <;> rfl
  have hdouble : ∀ (whole fraction : List Char) k s,
      normalDouble whole fraction negative = .ok (k, s) → k.isWordless := by
    intro whole fraction k s h
    obtain ⟨-, ⟨rfl, -⟩ | ⟨rfl, -⟩⟩ := normalDouble_eq_ok h <;> rfl
  exact all_numeral (fun _ ↦ wordless_ofNormal (hinteger _))
    fun _ fraction _ ↦ wordless_ofNormal (hdouble _ fraction)

theorem worded_word (c : Char) (cs : List Char) : (word limit c cs).All Worded := by
  rw [word]
  split
  · exact all_refused _ _
  split
  next k hk =>
    exact all_token ⟨fun hname ↦ absurd hname (Kind.ne_identifier_of_ofWord? hk), fun _ ↦ hk⟩
  next hnone =>
    split
    · exact all_refused _ _
    · exact all_token ⟨fun _ ↦ hnone, fun h ↦ by cases h⟩

/-- The signs and the kinds they take part in. -/
theorem signKinds?_eq_some {kinds : SignKinds} (h : signKinds? c = some kinds) :
    (c = '+' ∧ kinds = ⟨.plus, .increment, .plusAssign⟩) ∨
      (c = '-' ∧ kinds = ⟨.minus, .decrement, .minusAssign⟩) := by
  unfold signKinds? at h
  split at h <;> simp_all

theorem mem_division {kinds : SignKinds} {n : Nat} {k : Kind} (h : k ∈ division kinds n) :
    k = kinds.step ∨ k = kinds.single := by
  unfold division at h
  split at h
  · simpa [or_comm, or_assoc, or_left_comm] using h
  · rcases List.mem_append.1 h with h | h
    · exact .inl (List.eq_of_mem_replicate h)
    · exact .inr (List.eq_of_mem_replicate h)

theorem all_signRun {P : Kind × String → Prop} {kinds : SignKinds}
    (hsingle : P (kinds.single, kinds.single.spelling))
    (hstep : P (kinds.step, kinds.step.spelling))
    (hassign : P (kinds.assign, kinds.assign.spelling)) (c : Char) (cs : List Char) :
    (signRun kinds c cs).All P := by
  rw [signRun]
  split
  · split
    · exact all_token hassign
    · exact all_token hsingle
  · intro group hgroup t ht
    cases hgroup
    obtain ⟨k, hk, rfl⟩ := List.mem_map.1 ht
    rcases mem_division hk with rfl | rfl
    · exact hstep
    · exact hsingle

theorem wordless_signRun {kinds : SignKinds} (h : signKinds? c = some kinds) (cs : List Char) :
    (signRun kinds c cs).All Wordless := by
  obtain ⟨hsingle, hstep, hassign⟩ :
      kinds.single.isWordless ∧ kinds.step.isWordless ∧ kinds.assign.isWordless := by
    rcases signKinds?_eq_some h with ⟨-, rfl⟩ | ⟨-, rfl⟩ <;> decide
  exact all_signRun hsingle hstep hassign c cs

theorem wordless_operator (c : Char) (cs : List Char) : (operator c cs).All Wordless := by
  have hall : ∀ k ∈ Kind.operators, k.isWordless := by decide
  unfold operator
  split
  next k hk => exact all_token (hall k (List.mem_of_find?_eq_some hk))
  next => exact all_refused _ _

/-- What is read has a property if what each reader reads has it. -/
theorem of_read {Q : Char → List Char → Lexeme → Prop} (hstring : ∀ cs, Q '"' cs (stringLiteral cs))
    (hcharacter : ∀ cs, Q '\'' cs (characterLiteral cs))
    (hnumeral : ∀ d cs, d.isDigit → Q d cs (numeral false d cs))
    (hnegative : ∀ d cs, d.isDigit → Q '~' (d :: cs) ((numeral true d cs).shifted 1))
    (hword : ∀ c cs, c.isAlpha || c == '_' → Q c cs (word limit c cs))
    (hsign : ∀ c cs kinds, signKinds? c = some kinds → Q c cs (signRun kinds c cs))
    (hoperator : ∀ c cs, Q c cs (operator c cs))
    (hillegal : ∀ c cs, Q c cs (refused 0 (.illegalCharacter c))) (c : Char) (cs : List Char) :
    Q c cs (read limit c cs) := by
  unfold read
  split
  next h => exact h ▸ hstring cs
  split
  next h => exact h ▸ hcharacter cs
  split
  next hdigit => exact hnumeral c cs hdigit
  split
  next hletter => exact hword c cs hletter
  split
  next kinds hkinds => exact hsign c cs kinds hkinds
  split
  next d ds _ _ _ _ _ =>
    split
    next hdigit => exact hnegative d ds hdigit
    next => exact hillegal _ _
  next => exact hoperator c cs

/-- The tokens of what is read have a property if those of what each reader reads have it. -/
theorem all_read {P : Kind × String → Prop} (hstring : ∀ cs, (stringLiteral cs).All P)
    (hcharacter : ∀ cs, (characterLiteral cs).All P)
    (hnumeral : ∀ negative d cs, d.isDigit → (numeral negative d cs).All P)
    (hword : ∀ c cs, c.isAlpha || c == '_' → (word limit c cs).All P)
    (hsign : ∀ c cs kinds, signKinds? c = some kinds → (signRun kinds c cs).All P)
    (hoperator : ∀ c cs, (operator c cs).All P) (c : Char) (cs : List Char) :
    (read limit c cs).All P :=
  of_read hstring hcharacter (hnumeral false)
    (fun d cs hdigit ↦ (hnumeral true d cs hdigit).shifted 1) hword hsign hoperator
    (fun _ _ ↦ all_refused _ _) c cs

/-- Only words are names or reserved, so a property that all other tokens have is one of words. -/
theorem all_read_of_word {P : Kind × String → Prop} (hwordless : ∀ t, Wordless t → P t)
    (hword : ∀ c cs, c.isAlpha || c == '_' → (word limit c cs).All P) (c : Char) (cs : List Char) :
    (read limit c cs).All P :=
  all_read (fun cs ↦ (wordless_stringLiteral cs).mono hwordless)
    (fun cs ↦ (wordless_characterLiteral cs).mono hwordless)
    (fun negative d cs _ ↦ (wordless_numeral negative d cs).mono hwordless) hword
    (fun _ cs _ hkinds ↦ (wordless_signRun hkinds cs).mono hwordless)
    (fun c cs ↦ (wordless_operator c cs).mono hwordless) c cs

/-- Whatever is read tells names and reserved words apart. -/
theorem worded_read (limit : Nat) (c : Char) (cs : List Char) : (read limit c cs).All Worded :=
  all_read_of_word (fun t h ↦ worded_of_isWordless h t.2) (fun c cs _ ↦ worded_word c cs) c cs

end Lexeme

/-! ### Names -/

/-- Whether something can be a name: a word that starts with a letter and is not reserved. -/
def isName (name : String) : Bool :=
  match name.toList with
  | [] => false
  | c :: cs => c.isAlpha && cs.all Lexeme.isWordChar && (Kind.ofWord? name).isNone

theorem ofWord?_of_isName {name : String} (h : isName name) : Kind.ofWord? name = none := by
  unfold isName at h
  split at h
  · cases h
  · simp only [Bool.and_eq_true, Option.isNone_iff_eq_none] at h
    exact h.2

/-- Tokens that are names if they are identifiers. -/
def Named (t : Kind × String) : Prop :=
  t.1 = .identifier → isName t.2

namespace Lexeme

variable {limit : Nat} {c : Char} {cs : List Char}

theorem named_word (hc : c.isAlpha || c == '_') : (word limit c cs).All Named := by
  rw [word]
  split
  · exact all_refused _ _
  next hunderscore =>
    split
    next k hk => exact all_token fun hname ↦ absurd hname (Kind.ne_identifier_of_ofWord? hk)
    next hnone =>
      split
      · exact all_refused _ _
      · refine all_token fun _ ↦ ?_
        have halpha : c.isAlpha := by simpa [hunderscore] using hc
        have hall : (cs.takeWhile isWordChar).all isWordChar := List.all_takeWhile
        simp only [isName, String.toList_ofList, halpha, hall, hnone, Option.isNone_none, Bool.and_self]

/-- The lexemes of identifiers are names. -/
theorem named_read (limit : Nat) (c : Char) (cs : List Char) : (read limit c cs).All Named :=
  all_read_of_word (fun t h hname ↦ by simp [Wordless, hname, Kind.isWordless] at h)
    (fun _ _ hc ↦ named_word hc) c cs

/-! ### Kinds of tokens -/

/-- A property of kinds that holds for all readers but the one of numbers. -/
structure ReadKinds (p : Kind → Prop) : Prop where
  string : p .stringLit
  character : p .charLit
  name : p .identifier
  words : ∀ entry ∈ Kind.words, p entry.2
  signs : ∀ k ∈ [Kind.plus, .increment, .plusAssign, .minus, .decrement, .minusAssign], p k
  operators : ∀ k ∈ Kind.operators, p k

namespace ReadKinds

variable {p : Kind → Prop} (h : ReadKinds p)

include h

theorem stringLiteral (cs : List Char) : (Lexeme.stringLiteral cs).All fun t ↦ p t.1 := by
  rw [Lexeme.stringLiteral]
  split
  · split
    · exact all_refused _ _
    · exact all_token h.string
  · exact all_refused _ _

theorem characterLiteral (cs : List Char) : (Lexeme.characterLiteral cs).All fun t ↦ p t.1 := by
  fun_cases Lexeme.characterLiteral cs
  case case5 c cs _ => exact all_closeCharacter cs h.character
  case case8 c cs _ _ _ _ => exact all_closeCharacter cs h.character
  all_goals exact all_refused _ _

theorem word (c : Char) (cs : List Char) : (Lexeme.word limit c cs).All fun t ↦ p t.1 := by
  rw [Lexeme.word]
  split
  · exact all_refused _ _
  split
  next k hk => exact all_token (h.words _ (Kind.mem_words_of_ofWord? hk))
  next =>
    split
    · exact all_refused _ _
    · exact all_token h.name

theorem signRun {kinds : SignKinds} (hkinds : signKinds? c = some kinds) (cs : List Char) :
    (Lexeme.signRun kinds c cs).All fun t ↦ p t.1 := by
  rcases signKinds?_eq_some hkinds with ⟨-, rfl⟩ | ⟨-, rfl⟩ <;>
    exact all_signRun (h.signs _ (by simp)) (h.signs _ (by simp)) (h.signs _ (by simp)) c cs

theorem operator (c : Char) (cs : List Char) : (Lexeme.operator c cs).All fun t ↦ p t.1 := by
  unfold Lexeme.operator
  split
  next k hk => exact all_token (h.operators k (List.mem_of_find?_eq_some hk))
  next => exact all_refused _ _

end ReadKinds

/-- No token that is read ends the input. -/
def Unended (t : Kind × String) : Prop :=
  t.1 ≠ .eof

theorem unended_ofNormal {extra : Nat} {result : Except Fault (Kind × String)}
    (h : ∀ k s, result = .ok (k, s) → k ≠ .eof) : (ofNormal extra result).All Unended := by
  cases result with
  | error cause => exact all_refused _ _
  | ok t => exact all_token (h t.1 t.2 rfl)

theorem unended_read (limit : Nat) (c : Char) (cs : List Char) :
    (read limit c cs).All Unended := by
  have hkinds : ReadKinds (· ≠ .eof) :=
    ⟨by decide, by decide, by decide, by decide, by decide, by decide⟩
  refine all_read hkinds.stringLiteral hkinds.characterLiteral (fun negative d cs _ ↦ ?_)
    (fun c cs _ ↦ hkinds.word c cs) (fun c cs kinds h ↦ hkinds.signRun h cs) hkinds.operator c cs
  refine all_numeral (fun _ ↦ unended_ofNormal fun k s h ↦ ?_)
    fun _ fraction _ ↦ unended_ofNormal fun k s h ↦ ?_
  · rcases normalInteger_eq_ok h with ⟨rfl, -⟩ | ⟨rfl, -⟩ <;> simp
  · obtain ⟨-, ⟨rfl, -⟩ | ⟨rfl, -⟩⟩ := normalDouble_eq_ok h <;> simp

end Lexeme

end FrontEnd
