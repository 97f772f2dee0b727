import FrontEnd.Proofs.Lexeme.Line
import FrontEnd.Proofs.Lexeme.Zero

/-!
# Lexemes and their text

A lexeme is refused for a fault of its own, or it is one value alone on its text, or the lexemes of
its tokens, none of them empty, make up its text (`faithful_read`).  The last is the case of names,
reserved words, operators, marks and runs of signs; a run of signs is the only one with more than
one token, and no sign of it is lost or taken twice, however it is divided (`flatMap_division`).
-/

namespace FrontEnd

/-- Whether a fault is one of the character after a token. -/
def Fault.isDelimiter : Fault → Bool
  | .invalidDelimiter .. => true
  | _ => false

/-- Whether the lexeme of a token is a value and not the text that was read: numbers are in normal
form, strings and characters are without their quotes. -/
def Kind.isValue (k : Kind) : Bool :=
  k.isNumber || k == .stringLit || k == .charLit

/-- Whether the tokens are one value, or their lexemes make up the text. -/
def Retells (text : List Char) (group : List (Kind × String)) : Prop :=
  (∃ t, group = [t] ∧ t.1.isValue) ∨
    (∀ t ∈ group, t.1.isValue = false ∧ t.2.toList ≠ []) ∧
      group.flatMap (fun t ↦ t.2.toList) = text

namespace Lexeme

variable {limit extra : Nat} {c : Char} {cs text : List Char}

/-- The lexeme is refused for a fault of its own, or its tokens are true to the text. -/
def Faithful (text : List Char) (l : Lexeme) : Prop :=
  (∀ cause, l.meaning = .fault cause → cause.isDelimiter = false) ∧
    ∀ group, l.meaning = .tokens group → group ≠ [] ∧ Retells text group

theorem faithful_refused {cause : Fault} (h : cause.isDelimiter = false) :
    (refused extra cause).Faithful text := by
  refine ⟨fun cause' hcause ↦ ?_, fun group hgroup ↦ ?_⟩
  · cases hcause
    exact h
  · cases hgroup

theorem faithful_tokens {group : List (Kind × String)} (hne : group ≠ [])
    (h : Retells text group) : (Lexeme.mk extra (.tokens group)).Faithful text := by
  refine ⟨fun cause hcause ↦ ?_, fun group' hgroup ↦ ?_⟩
  · cases hcause
  · cases hgroup
    exact ⟨hne, h⟩

theorem faithful_value {k : Kind} (hk : k.isValue) (s : String) :
    (token extra k s).Faithful text :=
  faithful_tokens (by simp) (.inl ⟨(k, s), rfl, hk⟩)

theorem faithful_text {k : Kind} (hk : k.isValue = false) {s : String} (hs : s.toList = text)
    (hne : text ≠ []) : (token extra k s).Faithful text :=
  faithful_tokens (by simp) <| .inr ⟨List.forall_mem_singleton.2 ⟨hk, hs ▸ hne⟩, by simpa using hs⟩

/-! ### Quoted literals and numbers -/

theorem faithful_stringLiteral (cs : List Char) : (stringLiteral cs).Faithful text := by
  rw [stringLiteral]
  split
  · split
    · exact faithful_refused rfl
    · exact faithful_value (by decide) _
  · exact faithful_refused rfl

theorem faithful_closeCharacter (taken : Nat) (value cs : List Char) :
    (closeCharacter taken value cs).Faithful text := by
  unfold closeCharacter
  split
  · exact faithful_value (by decide) _
  · split <;> exact faithful_refused rfl

theorem faithful_characterLiteral (cs : List Char) : (characterLiteral cs).Faithful text := by
  fun_cases characterLiteral cs
  case case5 c cs _ => exact faithful_closeCharacter _ _ _
  case case8 c cs _ _ _ _ => exact faithful_closeCharacter _ _ _
  all_goals exact faithful_refused rfl

theorem faithful_ofNormal {result : Except Fault (Kind × String)}
    (hok : ∀ k s, result = .ok (k, s) → k.isValue)
    (herror : ∀ cause, result = .error cause → cause.isDelimiter = false) :
    (ofNormal extra result).Faithful text := by
  cases result with
  | error cause => exact faithful_refused (herror cause rfl)
  | ok t => exact faithful_value (hok t.1 t.2 rfl) t.2

theorem faithful_normalInteger (digits : List Char) (negative : Bool) :
    (ofNormal extra (normalInteger digits negative)).Faithful text := by
  refine faithful_ofNormal (fun k s h ↦ ?_) fun cause h ↦ ?_
  · rcases normalInteger_eq_ok h with ⟨rfl, -⟩ | ⟨rfl, -⟩ <;> decide
  · unfold normalInteger at h
    grind [Fault.isDelimiter]

theorem faithful_normalDouble (whole fraction : List Char) (negative : Bool) :
    (ofNormal extra (normalDouble whole fraction negative)).Faithful text := by
  refine faithful_ofNormal (fun k s h ↦ ?_) fun cause h ↦ ?_
  · obtain ⟨-, ⟨rfl, -⟩ | ⟨rfl, -⟩⟩ := normalDouble_eq_ok h <;> decide
  · unfold normalDouble at h
    grind [Fault.isDelimiter]

theorem faithful_numeral (negative : Bool) (d : Char) (cs : List Char) :
    (numeral negative d cs).Faithful text := by
  rw [numeral]
  simp only
  split
  next => exact faithful_refused rfl
  next =>
    split
    · exact faithful_normalDouble _ _ _
    · exact faithful_refused rfl
  next =>
    split
    · exact faithful_normalInteger _ _
    · exact faithful_refused rfl

/-! ### Words, signs and operators -/

theorem faithful_word (c : Char) (cs : List Char) :
    (word limit c cs).Faithful (c :: cs.take (word limit c cs).extra) := by
  have hwords : ∀ entry ∈ Kind.words, entry.2.isValue = false := by decide
  have htail : cs.take (cs.takeWhile isWordChar).length = cs.takeWhile isWordChar :=
    take_length_takeWhile _ cs
  rw [word]
  split
  · exact faithful_refused rfl
  split
  next k hk =>
    have hvalue := hwords _ (Kind.mem_words_of_ofWord? hk)
    exact faithful_text hvalue (by simp [token, htail]) (by simp)
  next =>
    split
    · exact faithful_refused rfl
    · exact faithful_text (by decide) (by simp [token, htail]) (by simp)

/-- However a run of signs is divided, the parts make up the run. -/
theorem flatMap_division {kinds : SignKinds} (hsign : signKinds? c = some kinds) (n : Nat) :
    (division kinds n).flatMap (fun k ↦ k.spelling.toList) = List.replicate n c := by
  obtain ⟨hsingle, hstep, -⟩ := spelling_of_signKinds? hsign
  unfold division
  split
  next hn => simp [hn, hsingle, hstep, List.replicate]
  next =>
    have hsteps (m : Nat) : (List.replicate m kinds.step).flatMap (fun k ↦ k.spelling.toList) =
        List.replicate (2 * m) c := by
      induction m with
      | zero => rfl
      | succ m ih => simp [List.replicate_succ, ih, hstep, Nat.mul_succ]
    have hsingles (m : Nat) : (List.replicate m kinds.single).flatMap (fun k ↦ k.spelling.toList) =
        List.replicate m c := by
      induction m with
      | zero => rfl
      | succ m ih => simp [List.replicate_succ, ih, hsingle]
    rw [List.flatMap_append, hsteps, hsingles, List.replicate_append_replicate,
      Nat.div_add_mod]

theorem takeWhile_eq_replicate (c : Char) (cs : List Char) :
    cs.takeWhile (· == c) = List.replicate (cs.takeWhile (· == c)).length c :=
  List.eq_replicate_of_mem fun d hd ↦ by simpa using List.mem_takeWhile_imp hd

theorem faithful_signRun {kinds : SignKinds} (hsign : signKinds? c = some kinds) (cs : List Char) :
    (signRun kinds c cs).Faithful (c :: cs.take (signRun kinds c cs).extra) := by
  obtain ⟨hsingle, hstep, hassign⟩ := spelling_of_signKinds? hsign
  have hvalues : kinds.single.isValue = false ∧ kinds.step.isValue = false ∧
      kinds.assign.isValue = false := by
    rcases signKinds?_eq_some hsign with ⟨-, rfl⟩ | ⟨-, rfl⟩ <;> decide
  simp only [signRun]
  split
  · split
    next hequals =>
      obtain ⟨ds, rfl⟩ : ∃ ds, cs = '=' :: ds := List.head?_eq_some_iff.1 hequals
      exact faithful_text hvalues.2.2 (by simp [token, hassign]) (by simp)
    next => exact faithful_text hvalues.1 (by simp [token, hsingle]) (by simp)
  next hfurther =>
    have hparts := flatMap_division hsign ((cs.takeWhile (· == c)).length + 1)
    refine faithful_tokens ?_ (.inr ⟨fun t ht ↦ ?_, ?_⟩)
    · rintro hnil
      rw [List.map_eq_nil_iff.1 hnil] at hparts
      cases hparts
    · obtain ⟨k, hk, rfl⟩ := List.mem_map.1 ht
      rcases mem_division hk with rfl | rfl
      · exact ⟨hvalues.2.1, by simp [hstep]⟩
      · exact ⟨hvalues.1, by simp [hsingle]⟩
    · rw [List.flatMap_map, take_length_takeWhile, hparts, List.replicate_succ,
        ← takeWhile_eq_replicate]

theorem faithful_operator (c : Char) (cs : List Char) :
    (operator c cs).Faithful (c :: cs.take (operator c cs).extra) := by
  have hvalues : ∀ k ∈ Kind.operators, k.isValue = false := by decide
  unfold operator
  split
  next k hk =>
    have hmem := List.mem_of_find?_eq_some hk
    have hfits := List.find?_some hk
    have hspelled : k.spelling.toList <+: c :: cs := List.isPrefixOf_iff_prefix.1 hfits
    obtain ⟨d, ds, hd⟩ : ∃ d ds, k.spelling.toList = d :: ds := by
      have hhead := operator_head k hmem
      cases h : k.spelling.toList with
      | nil => simp [h] at hhead
      | cons d ds => exact ⟨d, ds, rfl⟩
    have hlength : k.spelling.length = ds.length + 1 := by
      rw [← String.length_toList, hd, List.length_cons]
    rw [hd, List.cons_prefix_cons] at hspelled
    refine faithful_text (hvalues k hmem) ?_ (by simp)
    simp only [token, hlength, Nat.add_sub_cancel]
    rw [hd, ← List.prefix_iff_eq_take.1 hspelled.2, hspelled.1]
  next => exact faithful_refused rfl

/-- What is read is true to the text it is read from. -/
theorem faithful_read (limit : Nat) (c : Char) (cs : List Char) :
    (read limit c cs).Faithful (c :: cs.take (read limit c cs).extra) :=
  of_read (Q := fun c cs l ↦ l.Faithful (c :: cs.take l.extra)) (fun cs ↦ faithful_stringLiteral cs)
    (fun cs ↦ faithful_characterLiteral cs) (fun d cs _ ↦ faithful_numeral false d cs)
    (fun d cs _ ↦ faithful_numeral true d cs) (fun c cs _ ↦ faithful_word c cs)
    (fun _ cs _ hsign ↦ faithful_signRun hsign cs) faithful_operator
    (fun _ _ ↦ faithful_refused rfl) c cs

end Lexeme

end FrontEnd
