import FrontEnd.Proofs.Lexeme.Value

/-!
# The constants that literals write

A literal that writes an integer or a character writes a constant (`Text.constant?`), however it is
spelled.  The lexeme of an integer is the decimal form of its value, so literals of one value have one
lexeme (`normalInteger_eq_toString`).  The lexeme of a character is what stands between its quotes, and
a character has two of them if it can be escaped and can stand for itself too: those are the tab and the
carriage return (`eq_of_constant?_character`).
-/

namespace FrontEnd

/-- The value of a literal that is no fraction and no string. -/
inductive Constant where
  | integer (n : Int)
  | character (c : Char)
  deriving DecidableEq, Repr

/-- Whether a literal of the kind writes a constant. -/
def Kind.isConstant : Kind → Bool
  | .intLit | .negIntLit | .charLit => true
  | _ => false

namespace Text

/-- The character that an escape stands for. -/
def unescaped : Char → Char
  | 'n' => '\n'
  | 't' => '\t'
  | 'r' => '\r'
  | c => c

/-- Whether a character can stand for itself between single quotes. -/
def isRaw (c : Char) : Bool :=
  !(['\'', '\\', '\n'].contains c)

/-- The text of a character literal with something between its quotes. -/
def singleQuoted (value : List Char) : List Char :=
  '\'' :: (value ++ ['\''])

/-- The character that a literal writes after its opening quote. -/
def character? : List Char → Option Char
  | [c, close] => if close = '\'' ∧ isRaw c then some c else none
  | [escape, c, close] =>
    if escape = '\\' ∧ close = '\'' ∧ Lexeme.isEscaped '\'' c then some (unescaped c) else none
  | _ => none

/-- The constant that a text writes. -/
def constant? : List Char → Option Constant
  | '\'' :: quoted => (character? quoted).map .character
  | '~' :: digits => (digits? digits).map fun n : Nat ↦ .integer (-n)
  | digits => (digits? digits).map fun n : Nat ↦ .integer n

/-- The lexeme with which a text writes a constant. -/
def Writes (text : List Char) (lexeme : String) : Constant → Prop
  | .integer n => lexeme = toString n
  | .character _ => text = singleQuoted lexeme.toList

section

variable {digits text text' : List Char} {lexeme lexeme' : String} {c : Char} {v : Constant}

/-! ### Integers -/

theorem digit_lt_ten (hc : c.isDigit) : c.toNat - '0'.toNat < 10 := by
  simp only [Char.isDigit, Bool.and_eq_true, decide_eq_true_eq] at hc
  have hhigh : c.toNat ≤ '9'.toNat := hc.2
  simp only [Char.reduceToNat] at hhigh ⊢
  omega

theorem toDigits_digit (hc : c.isDigit) : Nat.toDigits 10 (c.toNat - '0'.toNat) = [c] := by
  have hlow : '0'.toNat ≤ c.toNat := by
    simp only [Char.isDigit, Bool.and_eq_true, decide_eq_true_eq] at hc
    exact hc.1
  have hlt := digit_lt_ten hc
  rw [Nat.toDigits_of_lt_base hlt]
  refine congrArg ([·]) (Char.toNat_inj.1 ?_)
  rw [Nat.toNat_digitChar_of_lt_ten hlt]
  simp only [Char.reduceToNat] at hlow ⊢
  omega

/-- The digits of a whole number in normal form are the decimal form of its value. -/
theorem wholePart_eq_toDigits (h : ∀ c ∈ digits, c.isDigit) :
    Lexeme.wholePart digits = Nat.toDigits 10 (digitsValue digits) := by
  induction digits using List.reverseRecOn with
  | nil => rfl
  | append_singleton digits c ih =>
    have hc := h c (by simp)
    have hdigits : ∀ d ∈ digits, d.isDigit := fun d hd ↦ h d (List.mem_append_left _ hd)
    rw [digitsValue_concat]
    by_cases hzeros : ∀ d ∈ digits, d = '0'
    · rw [(digitsValue_eq_zero_iff hdigits).2 hzeros, Nat.mul_zero, Nat.zero_add, toDigits_digit hc]
      have hstrip : Lexeme.stripLeadingZeros (digits ++ [c]) = Lexeme.stripLeadingZeros [c] := by
        have hnone : digits.dropWhile (· == '0') = [] :=
          Lexeme.stripLeadingZeros_eq_nil_iff.2 hzeros
        simp [Lexeme.stripLeadingZeros, List.dropWhile_append, hnone]
      by_cases hzero : c = '0'
      · rw [hzero] at hstrip ⊢
        exact Lexeme.wholePart_of_eq_nil hstrip
      · rw [Lexeme.wholePart, hstrip]
        simp [Lexeme.stripLeadingZeros, hzero]
    · have hne : Lexeme.stripLeadingZeros digits ≠ [] :=
        fun hnil ↦ hzeros (Lexeme.stripLeadingZeros_eq_nil_iff.1 hnil)
      have hstrip : Lexeme.stripLeadingZeros (digits ++ [c]) =
          Lexeme.stripLeadingZeros digits ++ [c] := by
        have hsome : (digits.dropWhile (· == '0')).isEmpty = false := by
          rw [List.isEmpty_eq_false_iff]
          exact hne
        simp [Lexeme.stripLeadingZeros, List.dropWhile_append, hsome]
      have hpos : 0 < digitsValue digits :=
        Nat.pos_of_ne_zero fun hvalue ↦ hzeros ((digitsValue_eq_zero_iff hdigits).1 hvalue)
      rw [Lexeme.wholePart_of_ne_nil (by simp [hstrip]), hstrip,
        ← Lexeme.wholePart_of_ne_nil hne, ih hdigits, ← toDigits_digit hc]
      exact Nat.toDigits_append_toDigits (by decide) hpos (digit_lt_ten hc)

theorem constant?_digits (hne : digits ≠ []) (h : ∀ c ∈ digits, c.isDigit) :
    constant? digits = some (.integer (digitsValue digits)) := by
  have hvalue := digits?_of_isDigit hne h
  obtain ⟨d, ds, rfl⟩ := List.exists_cons_of_ne_nil hne
  have hd := h d (by simp)
  unfold constant?
  split
  next heq => cases heq; cases hd
  next heq => cases heq; cases hd
  next => rw [hvalue, Option.map_some]

theorem constant?_negative (hne : digits ≠ []) (h : ∀ c ∈ digits, c.isDigit) :
    constant? ('~' :: digits) = some (.integer (-(digitsValue digits : Int))) := by
  unfold constant?
  split
  next heq => cases heq
  next heq =>
    cases heq
    rw [digits?_of_isDigit hne h, Option.map_some]
  next hother => exact absurd rfl (hother digits)

/-! ### Characters -/

theorem constant?_raw (hc : isRaw c) : constant? (singleQuoted [c]) = some (.character c) :=
  congrArg (Option.map Constant.character) (if_pos ⟨rfl, hc⟩)

theorem constant?_escape (hc : Lexeme.isEscaped '\'' c) :
    constant? (singleQuoted ['\\', c]) = some (.character (unescaped c)) :=
  congrArg (Option.map Constant.character) (if_pos ⟨rfl, rfl, hc⟩)

theorem eq_of_character? (h : character? text = some c) :
    (isRaw c ∧ text = [c, '\'']) ∨
      ∃ e, Lexeme.isEscaped '\'' e ∧ unescaped e = c ∧ text = ['\\', e, '\''] := by
  unfold character? at h
  split at h
  next d close =>
    split at h
    next hraw =>
      cases h
      exact .inl ⟨hraw.2, congrArg (fun last ↦ [c, last]) hraw.1⟩
    next => cases h
  next escape e close =>
    split at h
    next hescaped =>
      obtain ⟨rfl, rfl, he⟩ := hescaped
      cases h
      exact .inr ⟨e, he, rfl, rfl⟩
    next => cases h
  next => cases h

/-- A text that writes a character is in quotes, with the character or with one of its escapes between
them. -/
theorem eq_of_constant?_character (h : constant? text = some (.character c)) :
    (isRaw c ∧ text = singleQuoted [c]) ∨
      ∃ e, Lexeme.isEscaped '\'' e ∧ unescaped e = c ∧ text = singleQuoted ['\\', e] := by
  unfold constant? at h
  split at h
  next quoted =>
    obtain ⟨d, hd, hdc⟩ := Option.map_eq_some_iff.1 h
    cases hdc
    rcases eq_of_character? hd with ⟨hraw, rfl⟩ | ⟨e, he, hvalue, rfl⟩
    · exact .inl ⟨hraw, rfl⟩
    · exact .inr ⟨e, he, hvalue, rfl⟩
  next => simp at h
  next => simp at h

/-- Escapes of one character are one. -/
theorem unescaped_inj {d e : Char} (hd : Lexeme.isEscaped '\'' d) (he : Lexeme.isEscaped '\'' e)
    (h : unescaped d = unescaped e) : d = e := by
  simp only [Lexeme.isEscaped, Bool.or_eq_true, beq_iff_eq, List.contains_eq_mem, List.mem_cons,
    List.not_mem_nil, or_false, decide_eq_true_eq] at hd he
  rcases hd with rfl | rfl | rfl | rfl | rfl <;> rcases he with rfl | rfl | rfl | rfl | rfl <;>
    first | rfl | exact absurd h (by decide)

/-- The characters that can be escaped and can stand for themselves too. -/
theorem mem_of_isRaw_unescaped {e : Char} (he : Lexeme.isEscaped '\'' e)
    (hraw : isRaw (unescaped e)) : e ∈ ['t', 'r'] := by
  simp only [Lexeme.isEscaped, Bool.or_eq_true, beq_iff_eq, List.contains_eq_mem, List.mem_cons,
    List.not_mem_nil, or_false, decide_eq_true_eq] at he
  rcases he with rfl | rfl | rfl | rfl | rfl <;> first | decide | exact absurd hraw (by decide)

/-! ### Lexemes -/

/-- The two ways to write a character that can be escaped and can stand for itself too. -/
def WrittenTwice (e : Char) (text text' : List Char) : Prop :=
  text = singleQuoted ['\\', e] ∧ text' = singleQuoted [unescaped e]

/-- Texts that write one constant with different lexemes write a tab or a carriage return, one of them
as an escape and the other as the character itself. -/
theorem exists_writtenTwice (h : constant? text = some v) (h' : constant? text' = some v)
    (hwrites : Writes text lexeme v) (hwrites' : Writes text' lexeme' v) (hne : lexeme ≠ lexeme') :
    ∃ e ∈ ['t', 'r'], v = .character (unescaped e) ∧
      (WrittenTwice e text text' ∨ WrittenTwice e text' text) := by
  cases v with
  | integer n => exact absurd (hwrites.trans hwrites'.symm) hne
  | character c =>
    have htexts : text ≠ text' := by
      rintro rfl
      have hsame : singleQuoted lexeme.toList = singleQuoted lexeme'.toList :=
        hwrites.symm.trans hwrites'
      simp only [singleQuoted, List.cons.injEq, true_and, List.append_cancel_right_eq] at hsame
      exact hne (String.toList_inj.1 hsame)
    rcases eq_of_constant?_character h with ⟨hraw, htext⟩ | ⟨d, hd, rfl, htext⟩ <;>
      rcases eq_of_constant?_character h' with ⟨hraw', htext'⟩ | ⟨e, he, hvalue, htext'⟩
    · exact absurd (htext.trans htext'.symm) htexts
    · subst hvalue
      exact ⟨e, mem_of_isRaw_unescaped he hraw, rfl, .inr ⟨htext', htext⟩⟩
    · exact ⟨d, mem_of_isRaw_unescaped hd hraw', rfl, .inl ⟨htext, htext'⟩⟩
    · obtain rfl := unescaped_inj hd he hvalue.symm
      exact absurd (htext.trans htext'.symm) htexts

end

end Text

namespace Lexeme

variable {digits cs : List Char} {negative : Bool} {k : Kind} {s : String}

/-- The lexeme of an integer is the decimal form of its value. -/
theorem normalInteger_eq_toString (hdigits : ∀ c ∈ digits, c.isDigit)
    (h : normalInteger digits negative = .ok (k, s)) :
    s = toString (if negative then -(Text.digitsValue digits : Int) else Text.digitsValue digits) := by
  have hwhole := Text.wholePart_eq_toDigits hdigits
  unfold normalInteger at h
  simp only at h
  split at h
  · cases h
  split at h
  next hempty =>
    have hzero := (Text.digitsValue_eq_zero_iff hdigits).2
      (stripLeadingZeros_eq_nil_iff.1 (List.isEmpty_iff.1 hempty))
    cases h
    rw [hzero]
    cases negative <;> rfl
  next hempty =>
    have hne : stripLeadingZeros digits ≠ [] := fun hnil ↦ hempty (List.isEmpty_iff.2 hnil)
    rw [wholePart_of_ne_nil hne] at hwhole
    have hpos : Text.digitsValue digits ≠ 0 := fun hzero ↦
      hne (stripLeadingZeros_eq_nil_iff.2 ((Text.digitsValue_eq_zero_iff hdigits).1 hzero))
    obtain ⟨n, hn⟩ := Nat.exists_eq_succ_of_ne_zero hpos
    rw [hwhole, hn] at h
    rw [hn]
    split at h
    next hnegative =>
      cases h
      rw [if_pos hnegative, String.ofList_cons, ← Nat.toString_eq_ofList_toDigits]
      rfl
    next hnegative =>
      cases h
      rw [if_neg hnegative, ← Nat.toString_eq_ofList_toDigits]
      rfl

/-! ### Reading constants -/

/-- A token among those of a lexeme with a text that writes a constant is the only one, and the text
writes the constant with its lexeme. -/
def ConstantOf (text : List Char) (l : Lexeme) : Prop :=
  ∀ group, l.meaning = .tokens group → ∀ t ∈ group, t.1.isConstant →
    group = [t] ∧ ∃ v, Text.constant? text = some v ∧ Text.Writes text t.2 v

section

variable {text value : List Char} {c : Char} {extra taken : Nat}

theorem constantOf_of_all {l : Lexeme} (h : l.All fun t ↦ t.1.isConstant = false) :
    ConstantOf text l := by
  intro group hgroup t ht hconstant
  simp [h group hgroup t ht] at hconstant

theorem constantOf_refused {cause : Fault} : ConstantOf text (refused extra cause) :=
  constantOf_of_all (all_refused _ _)

theorem constantOf_token {v : Constant} (h : Text.constant? text = some v)
    (hwrites : Text.Writes text s v) : ConstantOf text (token extra k s) := by
  intro group hgroup t ht _
  cases hgroup
  obtain rfl := List.mem_singleton.1 ht
  exact ⟨rfl, v, h, hwrites⟩

theorem constantOf_closeCharacter (h : Text.constant? (Text.singleQuoted value) = some (.character c))
    (hlength : value.length = taken) (cs : List Char) :
    ConstantOf ('\'' :: (value ++ cs).take (closeCharacter taken value cs).extra)
      (closeCharacter taken value cs) := by
  unfold closeCharacter
  split
  next rest =>
    have htext : '\'' :: (value ++ '\'' :: rest).take (taken + 1) = Text.singleQuoted value := by
      rw [← hlength, List.take_length_add_append]
      rfl
    show ConstantOf ('\'' :: (value ++ '\'' :: rest).take (taken + 1)) _
    rw [htext]
    exact constantOf_token h (by rw [Text.Writes, String.toList_ofList])
  next => split <;> exact constantOf_refused

theorem constantOf_characterLiteral (cs : List Char) :
    ConstantOf ('\'' :: cs.take (characterLiteral cs).extra) (characterLiteral cs) := by
  fun_cases characterLiteral cs
  case case5 c cs hescaped => exact constantOf_closeCharacter (Text.constant?_escape hescaped) rfl cs
  case case8 c cs hnewline hquote hlast hescape =>
    have hbackslash : c ≠ '\\' := ne_backslash hlast hescape
    have hraw : Text.isRaw c := by
      simp only [Text.isRaw, Bool.not_eq_true', List.contains_eq_mem, List.mem_cons, List.not_mem_nil,
        or_false, decide_eq_false_iff_not, not_or]
      exact ⟨hquote, hbackslash, hnewline⟩
    exact constantOf_closeCharacter (Text.constant?_raw hraw) rfl cs
  all_goals exact constantOf_refused

theorem constantOf_numeral (negative : Bool) {d : Char} (hd : d.isDigit) (cs : List Char) :
    ConstantOf ((if negative then ['~'] else []) ++ d :: cs.take (numeral negative d cs).extra)
      (numeral negative d cs) := by
  have hdigits : ∀ c ∈ d :: cs.takeWhile Char.isDigit, c.isDigit :=
    List.forall_mem_cons.2 ⟨hd, isDigit_of_mem_takeWhile⟩
  generalize hmark : (if negative then ['~'] else []) = mark
  rw [numeral]
  simp only
  split
  next => exact constantOf_refused
  next fraction _ =>
    split
    · refine constantOf_of_all ?_
      cases hresult : normalDouble (d :: cs.takeWhile Char.isDigit) fraction negative with
      | error cause => exact all_refused _ _
      | ok t =>
        obtain ⟨-, ⟨hk, -⟩ | ⟨hk, -⟩⟩ := normalDouble_eq_ok hresult <;>
          exact all_token (by rw [hk]; rfl)
    · exact constantOf_refused
  next =>
    split
    · cases hresult : normalInteger (d :: cs.takeWhile Char.isDigit) negative with
      | error cause => exact constantOf_refused
      | ok t =>
        have hlexeme := normalInteger_eq_toString hdigits hresult
        show ConstantOf (mark ++ d :: cs.take (cs.takeWhile Char.isDigit).length) _
        rw [take_length_takeWhile, ← hmark]
        cases negative with
        | false => exact constantOf_token (Text.constant?_digits (by simp) hdigits) hlexeme
        | true => exact constantOf_token (Text.constant?_negative (by simp) hdigits) hlexeme
    · exact constantOf_refused

end

/-- A token that writes a constant is the only one of its lexeme, whose text writes the constant. -/
theorem constants_read (limit : Nat) (c : Char) (cs : List Char) :
    ConstantOf (c :: cs.take (read limit c cs).extra) (read limit c cs) := by
  have hwords : ∀ entry ∈ Kind.words, entry.2.isConstant = false := by decide
  have hoperators : ∀ k ∈ Kind.operators, k.isConstant = false := by decide
  refine of_read (Q := fun c cs l ↦ ConstantOf (c :: cs.take l.extra) l)
    (fun cs ↦ constantOf_of_all ?_) constantOf_characterLiteral
    (fun d cs hd ↦ constantOf_numeral false hd cs)
    (fun d cs hd ↦ constantOf_numeral true hd cs)
    (fun c cs _ ↦ constantOf_of_all ?_) (fun c cs kinds hkinds ↦ constantOf_of_all ?_)
    (fun c cs ↦ constantOf_of_all ?_) (fun _ _ ↦ constantOf_refused) c cs
  · rw [stringLiteral]
    split
    · split
      · exact all_refused _ _
      · exact all_token rfl
    · exact all_refused _ _
  · rw [word]
    split
    · exact all_refused _ _
    split
    next k hk => exact all_token (hwords _ (Kind.mem_words_of_ofWord? hk))
    next =>
      split
      · exact all_refused _ _
      · exact all_token rfl
  · rcases signKinds?_eq_some hkinds with ⟨-, rfl⟩ | ⟨-, rfl⟩ <;>
      exact all_signRun (P := fun t ↦ t.1.isConstant = false) rfl rfl rfl c cs
  · unfold operator
    split
    next k hk => exact all_token (hoperators k (List.mem_of_find?_eq_some hk))
    next => exact all_refused _ _

end Lexeme

end FrontEnd
