import FrontEnd.Proofs.Check.Attentive
import FrontEnd.Proofs.Check.Leads

/-!
# Well-typed expressions are walked over

What the rules give a type, the walk gives the same type: the converse of the walk typing what it goes
over.  A walk over a `ValueAt` stretch goes to its end and changes no table (`Completes`), whatever
calls, indices and parentheses with commas of their own stand inside, and all that can stop it is a
limit that is too small for the stretch (`Exhausted`).

The proof is that of climbing precedences with the rules in place of trees.  Along the left spine of a
term, what is said is not that the walk over it ends, but that the rounds after it may go on
(`ensures_spine_typed`); the right sides are the induction in `completes_chain`, and what stands inside of
operands is the one in `completesOperands_operand`.
-/

namespace FrontEnd

open Check

/-! ### Stretches the rules take in -/

/-- Whether commas may stand outside of the brackets of a form. -/
def Form.commas : Form → Bool
  | .values _ | .arguments _ => true
  | _ => false

section

variable {text : Text} {names : Names} {form : Form} {i j k m : Nat} {type : DataType}

/-- The brackets that open inside of what the rules take in are closed there. -/
theorem Typed.phrase (h : Typed text names form i j) : Phrase text.kind form.commas i j := by
  have hplain {k : Kind} {i : Nat} {b : Bool} (hk : text.kind i = k) (hplain : k.isPlain) :
      Phrase text.kind b i (i + 1) := .one (hk ▸ hplain)
  have hcount {i : Nat} {b : Bool} (h : text.CountAt i) : Phrase text.kind b i (i + 1) :=
    h.elim (hplain · rfl) (hplain · rfl)
  have hparens {i j : Nat} {b : Bool} (hi : text.kind i = .leftParen)
      (h : Phrase text.kind true (i + 1) j) (hj : text.kind j = .rightParen) :
      Phrase text.kind b i (j + 1) :=
    .brackets (by rw [hi]; rfl) (by simp [hi]) h hj
  induction h with
  | literal hliteral => exact hplain rfl (isPlain_of_literal hliteral)
  | read _ ih | result _ ih | one _ _ ih | value _ ih | target _ _ ih | arguments _ ih => exact ih
  | parenthesised hopen _ hclose ih => exact hparens hopen ih.withCommas hclose
  | negated hword _ ih => exact (hplain hword rfl).trans ih
  | countedBefore hsign _ ih => exact (hcount hsign).trans ih
  | countedAfter _ hsign ih => exact ih.trans (hcount hsign)
  | joined _ hop _ _ _ _ ihleft ihright =>
    exact ihleft.trans ((hplain rfl (isPlain_of_operator hop)).trans ihright)
  | whole hname => exact hplain hname.1 rfl
  | element hname _ _ _ ih => exact (hplain hname.1 rfl).trans ih
  | member hname _ hdot hmember =>
    exact (hplain hname.1 rfl).trans ((hplain hdot rfl).trans (hplain hmember rfl))
  | noIndex | noArgument => exact .nil
  | index hopen _ hclose _ ihvalue ih =>
    exact .group (by rw [hopen]; rfl) (by simp [hopen]) ihvalue.withCommas hclose ih
  | firstValue _ ih => exact ih.withCommas
  | nextValue _ hcomma _ ih ihvalue => exact ih.trans (.comma hcomma ihvalue.withCommas)
  | declared hname _ hopen _ hclose ih => exact (hplain hname.1 rfl).trans (hparens hopen ih hclose)
  | builtin hname _ _ hopen _ hclose ih => exact (hplain hname rfl).trans (hparens hopen ih hclose)
  | lengthOfArray hname _ _ hopen hargument _ hclose =>
    exact (hplain hname rfl).trans (hparens hopen (hplain hargument.1 rfl) hclose)

theorem Typed.le (h : Typed text names form i j) : i ≤ j :=
  h.phrase.le

/-- Only no indices and no arguments take in nothing. -/
theorem Typed.lt (h : Typed text names form i j) (hindices : form ≠ .indices 0)
    (harguments : form ≠ .arguments []) : i < j := by
  induction h with
  | literal | countedAfter | whole | member | lengthOfArray => omega
  | read _ ih | result _ ih | one _ _ ih | value _ ih | target _ _ ih | firstValue _ ih
    | arguments _ ih => exact ih nofun nofun
  | parenthesised _ h _ | negated _ h | countedBefore _ h | element _ _ _ h => have := h.le; omega
  | joined _ _ h _ _ _ ih => have := h.le; have := ih nofun nofun; omega
  | index _ h _ h' | nextValue h _ h' => have := h.le; have := h'.le; omega
  | declared _ _ _ h | builtin _ _ _ _ h => have := h.le; omega
  | noIndex => exact absurd rfl hindices
  | noArgument => exact absurd rfl harguments

theorem Typed.value_lt (h : Typed text names (.value type) i j) : i < j :=
  h.lt nofun nofun

/-- Places and calls begin with names. -/
theorem Typed.kind_eq_identifier (h : Typed text names form i j)
    (hform : (∃ symbol type, form = .place symbol type) ∨ (∃ type, form = .target type) ∨
      ∃ type, form = .call type) : text.kind i = .identifier := by
  induction h with
  | whole h | element h | member h | declared h => exact h.1
  | builtin h | lengthOfArray h => exact h
  | target _ _ ih => exact ih (.inl ⟨_, _, rfl⟩)
  | _ => simp at hform

theorem Typed.operand_lt (h : Typed text names (.operand type) i j) : i < j :=
  h.lt nofun nofun

end

/-! ### Well-typed stretches -/

/-- Between two indices nothing is divided by a zero that is written out, and an array that is accessed
has an index for each of its dimensions, in bounds where that can be told from literals. -/
structure Text.Faultless (text : Text) (names : Names) (i j : Nat) : Prop where
  division : ∀ k, i ≤ k → k < j → (text.kind k).isDivision →
    (text.token (k + 1)).isZeroLiteral = false
  access : ∀ k symbol sizes m, i ≤ k → k < j → text.NameAt names k symbol →
    symbol.array = some sizes → Typed text names (.indices sizes.length) (k + 1) m →
      text.kind (k + 1) = .leftBracket ∧ IndexedBy text names sizes (k + 1) m

/-- An expression of a type in which the check finds no fault. -/
structure ValueAt (text : Text) (names : Names) (type : DataType) (i j : Nat) : Prop where
  typed : Typed text names (.value type) i j
  faultless : text.Faultless names i j

/-- Expressions with commas between them, each with its type and the index it starts at. -/
inductive ValuesAt (text : Text) (names : Names) : List (DataType × Nat) → Nat → Nat → Prop
  | last {i j : Nat} {type : DataType} :
    ValueAt text names type i j → ValuesAt text names [(type, i)] i j
  | cons {i m j : Nat} {type : DataType} {arguments : List (DataType × Nat)} :
    ValueAt text names type i m → text.kind m = .comma →
      ValuesAt text names arguments (m + 1) j → ValuesAt text names ((type, i) :: arguments) i j

/-- Expressions with commas between them, or nothing. -/
inductive ArgumentsAt (text : Text) (names : Names) : List (DataType × Nat) → Nat → Nat → Prop
  | none {i : Nat} : ArgumentsAt text names [] i i
  | some {i j : Nat} {arguments : List (DataType × Nat)} :
    ValuesAt text names arguments i j → ArgumentsAt text names arguments i j

section

variable {text : Text} {names : Names} {i j k m : Nat} {type : DataType}
  {arguments : List (DataType × Nat)} {types : List DataType}

theorem Text.Faultless.mono (h : text.Faultless names i j) (hi : i ≤ k) (hj : m ≤ j) :
    text.Faultless names k m where
  division n hn hm := h.division n (Nat.le_trans hi hn) (Nat.lt_of_lt_of_le hm hj)
  access n symbol sizes l hn hm :=
    h.access n symbol sizes l (Nat.le_trans hi hn) (Nat.lt_of_lt_of_le hm hj)

theorem IndexedBy.le {sizes : List Dimension} (h : IndexedBy text names sizes i j) : i ≤ j := by
  induction h with
  | nil => exact Nat.le_refl _
  | cons _ hvalue _ _ _ ih => have := hvalue.le; omega

namespace ValuesAt

theorem lt (h : ValuesAt text names arguments i j) : i < j := by
  induction h with
  | last h => exact h.typed.value_lt
  | cons h _ _ ih => have := h.typed.value_lt; omega

/-- One more expression behind a comma. -/
theorem concat (h : ValuesAt text names arguments i m) (hcomma : text.kind m = .comma)
    (hlast : ValueAt text names type (m + 1) j) :
    ValuesAt text names (arguments ++ [(type, m + 1)]) i j := by
  induction h with
  | last h => exact .cons h hcomma (.last hlast)
  | cons h hfirst _ ih => exact .cons h hfirst (ih hcomma hlast)

theorem phrase (h : ValuesAt text names arguments i j) : Phrase text.kind true i j := by
  induction h with
  | last h => exact h.typed.phrase.withCommas
  | cons h hcomma _ ih => exact h.typed.phrase.withCommas.trans (.comma hcomma ih)

end ValuesAt

theorem ArgumentsAt.phrase (h : ArgumentsAt text names arguments i j) :
    Phrase text.kind true i j := by
  cases h with
  | none => exact .nil
  | some h => exact h.phrase

/-- Values without faults are expressions with commas between them. -/
theorem Typed.exists_valuesAt (h : Typed text names (.values types) i j)
    (hfaultless : text.Faultless names i j) :
    ∃ arguments, ValuesAt text names arguments i j ∧ arguments.map Prod.fst = types := by
  generalize hform : Form.values types = form at h
  induction h generalizing types with
  | firstValue h _ =>
    cases hform
    exact ⟨_, .last ⟨h, hfaultless⟩, rfl⟩
  | nextValue hvalues hcomma hvalue ih _ =>
    cases hform
    have hle := hvalues.le
    have hlt := hvalue.value_lt
    obtain ⟨arguments, hvalues, htypes⟩ := ih (hfaultless.mono (Nat.le_refl _) (by omega)) rfl
    refine ⟨_, hvalues.concat hcomma ⟨hvalue, hfaultless.mono (by omega) (Nat.le_refl _)⟩, ?_⟩
    rw [List.map_append, htypes]
    rfl
  | _ => cases hform

theorem Typed.exists_argumentsAt (h : Typed text names (.arguments types) i j)
    (hfaultless : text.Faultless names i j) :
    ∃ arguments, ArgumentsAt text names arguments i j ∧ arguments.map Prod.fst = types := by
  cases h with
  | noArgument => exact ⟨[], .none, rfl⟩
  | arguments h =>
    obtain ⟨arguments, hvalues, htypes⟩ := h.exists_valuesAt hfaultless
    exact ⟨arguments, .some hvalues, htypes⟩

end

/-! ### Walks to an end -/

/-- A walk is at a limit that is too small for the tokens between two indices. -/
def Exhausted (levels scan i j : Nat) (e : SemanticError) : Prop :=
  e.violation.isLimit ∧ (i + levels < j ∨ i + scan < j)

/-- A walk came to an index and changed no table. -/
structure Reached (s : State) (j : Nat) (after : State) : Prop where
  position : after.position = j
  tables : SameTables s after

/-- A check ends at an index with a result of a kind and changes no table, unless it is stopped by a
limit that is too small for the tokens it goes over. -/
def Completes {α : Type} (x : Check α) (c : Context) (s : State) (levels j : Nat) (p : α → Prop) : Prop :=
  Ensures x c s (Exhausted levels c.limits.scan s.position j) fun a after ↦ p a ∧ Reached s j after

/-- An expression that ends at an index is not continued there: an operator follows that binds more
loosely than the bound, or the stretch is over and no token follows that belongs to a name. -/
structure Context.Finishes (c : Context) (bound j stop : Nat) : Prop extends c.Ends bound j stop where
  closed : (c.kindAt stop).extendsName = false

/-- Operands are walked over to their ends, given so many levels. -/
def CompletesOperands (operand : Nat → Check DataType) (levels : Nat) : Prop :=
  ∀ {c : Context} {s : State} {names : Names} {j stop : Nat} {type : DataType},
    s.arena.names c.scope = names → Typed c.text names (.operand type) s.position j → type ≠ .void →
      c.text.Faultless names s.position j → c.Finishes (Operator.maxPrecedence + 2) j stop →
        Completes (operand stop) c s levels j (· = type)

/-- Right operands of the operators from a floor on are walked over to their ends. -/
def CompletesRight (side : Nat → Check DataType) (c : Context) (names : Names) (levels floor stop : Nat) :
    Prop :=
  ∀ {op : Operator} {s : State} {j q : Nat} {type : DataType}, floor ≤ op.precedence →
    s.arena.names c.scope = names → Typed c.text names (.term q type) s.position j →
      op.precedence < q → c.text.Faultless names s.position j →
        c.Finishes (op.precedence + 1) j stop →
          Completes (side (op.precedence + 1)) c s levels j (· = type)

section

variable {c : Context} {names : Names} {s after later : State} {i j k m stop floor levels : Nat}
  {symbol : Symbol} {type : DataType} {E : SemanticError → Prop}

theorem Exhausted.mono {levels' scan : Nat} {e : SemanticError} (h : Exhausted levels scan i j e)
    (hlevels : i + levels < j → k + levels' < m) (hscan : i + scan < j → k + scan < m) :
    Exhausted levels' scan k m e :=
  ⟨h.1, h.2.imp hlevels hscan⟩

/-- A limit that is too small for a stretch is too small for a longer one. -/
theorem Exhausted.widen {scan : Nat} {e : SemanticError} (h : Exhausted levels scan i j e)
    (hi : k ≤ i) (hj : j ≤ m) : Exhausted levels scan k m e :=
  h.mono (by omega) (by omega)

namespace Reached

theorem refl (s : State) : Reached s s.position s :=
  ⟨rfl, .refl s⟩

theorem trans (h : Reached s i after) (h' : Reached after j later) : Reached s j later :=
  ⟨h'.position, h.tables.trans h'.tables⟩

theorem movedTo (s : State) (i : Nat) : Reached s i (s.movedTo i) :=
  ⟨rfl, by simp⟩

theorem of_movedTo (h : Reached (s.movedTo i) j after) : Reached s j after :=
  ⟨h.position, SameTables.of_movedTo.1 h.tables⟩

theorem names_eq (h : Reached s j after) (hnames : s.arena.names c.scope = names) :
    after.arena.names c.scope = names := by
  rw [h.tables.arena, hnames]

/-- A walk that goes on by one token. -/
theorem next (h : Reached s j after) (hj : c.kindAt j ≠ .eof) :
    Reached s (j + 1) (after.movedTo (c.after after.position)) := by
  rw [h.position, Context.after_of_ne_eof hj]
  exact h.trans (movedTo after (j + 1))

end Reached

namespace Context.Finishes

theorem mono {bound bound' : Nat} (h : c.Finishes bound j stop) (hbound : bound ≤ bound') :
    c.Finishes bound' j stop :=
  ⟨h.toEnds.mono hbound, h.closed⟩

/-- What follows does not belong to a name. -/
theorem extendsName {bound : Nat} (h : c.Finishes bound j stop) :
    (c.kindAt j).extendsName = false := by
  rcases Nat.lt_or_eq_of_le h.le with hlt | rfl
  · obtain ⟨op, hkind, -⟩ := h.loose hlt
    rw [hkind, op.extendsName_kind]
  · exact h.closed

theorem of_closed (h : (c.kindAt j).extendsName = false) (bound : Nat) : c.Finishes bound j j :=
  ⟨⟨Nat.le_refl j, fun hlt ↦ absurd hlt (Nat.lt_irrefl j)⟩, h⟩

end Context.Finishes

/-! ### Chains -/

theorem Operator.isDivision_kind (op : Operator) : op.kind.isDivision = op.isDivision := by
  cases op <;> rfl

/-- A round that takes in an operator and its right side. -/
theorem ensures_roundsFrom_joined {side : Nat → Check DataType} {op : Operator} {left : Nat}
    {leftType rightType : DataType} {Q : DataType → State → Prop}
    (hkind : c.kindAt s.position = op.kind) (hfloor : floor ≤ op.precedence)
    (hdivision : op.isDivision → (c.tokenAt (s.position + 1)).isZeroLiteral = false)
    (hlt : s.position + 1 < j) (hstop : j ≤ stop)
    (hside : Completes (side (op.precedence + 1)) c (s.movedTo (s.position + 1)) levels j (· = rightType))
    (hresult : op.resultType leftType rightType = some type)
    (hE : ∀ e, Exhausted levels c.limits.scan (s.position + 1) j e → E e)
    (hlimit : left = 0 → ∀ p, E ⟨.scanLimit c.limits.scan, p⟩)
    (hrest : ∀ rest after, left = rest + 1 → Reached s j after →
      Ensures (roundsFrom (within stop) (chainRound side stop floor) rest type) c after E Q) :
    Ensures (roundsFrom (within stop) (chainRound side stop floor) left leftType) c s E Q := by
  have hhere : s.position < stop := by omega
  cases left with
  | zero =>
    refine ensures_roundsFrom_zero.2 ⟨fun _ ↦ hlimit rfl _, fun hover ↦ ?_⟩
    exact absurd hhere (of_decide_eq_false hover)
  | succ rest =>
    refine ensures_roundsFrom_succ.2
      ⟨fun _ ↦ ?_, fun hover ↦ absurd hhere (of_decide_eq_false hover)⟩
    rw [chainRound, ensures_bind, ensures_operator?_of_kind hkind hfloor (by omega)]
    refine ⟨fun hzero ↦ ?_, fun _ ↦ ?_⟩
    · simp [hdivision hzero.1] at hzero
    rw [ensures_bind]
    refine hside.imp hE ?_
    rintro _ after ⟨rfl, hafter⟩
    rw [ensures_bind, apply, hresult]
    exact hrest rest after rfl hafter.of_movedTo

/-- The rounds of a chain from the first operand of a term on take in the term and go on behind it,
given that right operands are walked over. -/
theorem ensures_spine_typed {operand side : Nat → Check DataType} (hoperand : CompletesOperands operand levels)
    (hside : CompletesRight side c names levels floor stop) {p : Nat} {Q : DataType → State → Prop}
    (hnames : s.arena.names c.scope = names) (hterm : Typed c.text names (.term p type) s.position j)
    (hfaultless : c.text.Faultless names s.position j) (hfloor : floor ≤ p)
    (hfinishes : c.Finishes (p + 1) j stop)
    (hE : ∀ e, Exhausted levels c.limits.scan s.position j e → E e)
    (hrest : ∀ left after, s.position + c.limits.scan < left + j → Reached s j after →
      Ensures (roundsFrom (within stop) (chainRound side stop floor) left type) c after E Q) :
    Ensures (operand stop >>= roundsFrom (within stop) (chainRound side stop floor) c.limits.scan)
      c s E Q := by
  -- Along the left spine; what is ensured grows by the rounds of the operators passed.
  generalize hform : Form.term p type = form at hterm
  generalize hi : s.position = i at hterm
  induction hterm generalizing p type Q with
  | one hone hvoid =>
    cases hform
    subst hi
    rw [ensures_bind]
    refine (hoperand hnames hone hvoid hfaultless hfinishes).imp hE ?_
    rintro _ after ⟨rfl, hafter⟩
    have hlt := hone.operand_lt
    exact hrest _ after (by omega) hafter
  | @joined i m j q r op left right type hleft hop hright hle hlt hresult ihleft ihright =>
    cases hform
    subst hi
    have hkind : c.kindAt m = op.kind := Operator.kind_of_ofKind? hop
    have hleftLt := hleft.lt nofun nofun
    have hrightLt := hright.lt nofun nofun
    have hstop := hfinishes.le
    have hmid : c.Finishes (q + 1) m stop :=
      ⟨⟨by omega, fun _ ↦ ⟨op, hkind, Nat.lt_succ_of_le hle⟩⟩, hfinishes.closed⟩
    -- The left side is followed by the operator, which is not looser than the floor.
    refine ihleft (hfaultless.mono (Nat.le_refl _) (by omega)) (Nat.le_trans hfloor hle) hmid
      (fun e he ↦ hE e (he.widen (Nat.le_refl _) (by omega))) (fun rest after hscan hafter ↦ ?_) rfl rfl
    obtain rfl := hafter.position
    have hdivision : op.isDivision → (c.tokenAt (after.position + 1)).isZeroLiteral = false :=
      fun h ↦ hfaultless.division after.position (by omega) (by omega)
        (by rw [show c.text.kind after.position = op.kind from hkind, op.isDivision_kind, h])
    have hwalk : Completes (side (op.precedence + 1)) c (after.movedTo (after.position + 1)) levels j
        (· = right) :=
      hside (Nat.le_trans hfloor (Nat.le_refl _)) (hafter.names_eq hnames) hright hlt
        (hfaultless.mono (by rw [State.position_movedTo]; omega) (Nat.le_refl _)) hfinishes
    refine ensures_roundsFrom_joined hkind hfloor hdivision hrightLt hstop hwalk hresult
      (fun e he ↦ hE e (he.widen (by omega) (Nat.le_refl _))) (fun hzero p ↦ ?_)
      fun left later hleft hlater ↦ ?_
    · exact hE _ ⟨rfl, .inr (by omega)⟩
    · exact hrest left later (by omega) (hafter.trans hlater)
  | _ => cases hform

/-- One level of a chain is walked over, if its operands and its right operands are. -/
theorem completes_rounds {operand side : Nat → Check DataType} (hoperand : CompletesOperands operand levels)
    (hside : CompletesRight side c names levels floor stop) {p : Nat}
    (hnames : s.arena.names c.scope = names) (hterm : Typed c.text names (.term p type) s.position j)
    (hfaultless : c.text.Faultless names s.position j) (hfloor : floor ≤ p)
    (hfinishes : c.Finishes floor j stop) :
    Completes (operand stop >>= roundsWhile (within stop) (chainRound side stop floor)) c s levels j
      (· = type) := by
  refine ensures_spine_typed hoperand hside hnames hterm hfaultless hfloor
    (hfinishes.mono (Nat.le_succ_of_le hfloor)) (fun _ he ↦ he) fun left after hscan hafter ↦ ?_
  refine ensures_roundsFrom_ended ?_ (fun hzero p ↦ ⟨rfl, .inr (by omega)⟩) ⟨rfl, hafter⟩
  rw [hafter.position]
  exact hfinishes.toEnds

/-- A chain of operands is walked over, if its operands are. -/
theorem completes_chain {operand : Nat → Check DataType} (hoperand : CompletesOperands operand levels)
    {climbs p : Nat} (hclimbs : Operator.maxPrecedence < climbs + floor)
    (hnames : s.arena.names c.scope = names) (hterm : Typed c.text names (.term p type) s.position j)
    (hfaultless : c.text.Faultless names s.position j) (hfloor : floor ≤ p)
    (hfinishes : c.Finishes floor j stop) :
    Completes (chain operand stop climbs floor) c s levels j (· = type) := by
  induction climbs generalizing floor p s j type with
  | zero =>
    -- No operator is above the last floor.
    refine completes_rounds hoperand (fun {op} _ _ _ _ hle _ _ _ _ _ ↦ absurd hclimbs ?_) hnames hterm
      hfaultless hfloor hfinishes
    rw [Nat.zero_add]
    exact Nat.not_lt_of_le (Nat.le_trans hle op.precedence_le)
  | succ climbs ih =>
    refine completes_rounds hoperand (fun hle hrest hright htight hright' hends ↦ ?_) hnames hterm
      hfaultless hfloor hfinishes
    exact ih (by omega) hrest hright hright' htight hends

/-- A well-typed expression is walked over, if its operands are. -/
theorem completes_expressionWith {operand : Nat → Check DataType} (hoperand : CompletesOperands operand levels)
    (hnames : s.arena.names c.scope = names) (h : ValueAt c.text names type s.position j)
    (hclosed : (c.kindAt j).extendsName = false) :
    Completes (expressionWith operand j) c s levels j (· = type) := by
  obtain ⟨htyped, hfaultless⟩ := h
  have hlt := htyped.value_lt
  unfold Completes expressionWith
  simp only [ensures_bind, ensures_here, ensures_ite, ensures_violate, ensures_peek, ensures_pure]
  refine ⟨fun hempty ↦ absurd hlt (Nat.not_lt_of_le hempty), fun _ ↦ ?_⟩
  cases htyped with | value hterm => ?_
  refine (completes_chain hoperand (by omega) hnames hterm hfaultless (Nat.zero_le _)
    (.of_closed hclosed 0)).mono ?_
  rintro found after ⟨hfound, hafter⟩
  exact ⟨fun hless ↦ absurd hless (by rw [hafter.position]; exact Nat.lt_irrefl j),
    fun _ ↦ ⟨hfound, hafter⟩⟩

/-! ### Searches ahead -/

/-- A search comes to its limit only if it is too small for the stretch with both of its ends. -/
def Unfinished (scan i j : Nat) (e : SemanticError) : Prop :=
  e.violation.isLimit ∧ i + scan ≤ j

theorem Unfinished.exhausted {scan : Nat} {e : SemanticError} (h : Unfinished scan i j e)
    (hi : k ≤ i) (hj : j < m) : Exhausted levels scan k m e :=
  ⟨h.1, .inr (Nat.lt_of_le_of_lt (Nat.le_trans (Nat.add_le_add_right hi scan) h.2) hj)⟩

/-- The bracket right behind a phrase is found for the one in front of it. -/
theorem ensures_matchingClose_phrase {closing : Kind} (hopening : (c.kindAt i).closer? = some closing)
    (h : Phrase c.kindAt true (i + 1) j) (hj : c.kindAt j = closing)
    (hE : ∀ e, Unfinished c.limits.scan i j e → E e) {Q : Nat → State → Prop} (hQ : Q j s) :
    Ensures (matchingClose i) c s E Q := by
  rw [ensures_matchingClose_iff hopening]
  rcases h.searchClose_eq hopening hj c.limits.scan with ⟨hlimit, hsearch⟩ | hsearch
  · simpa [hsearch] using hE _ ⟨rfl, hlimit⟩
  · simpa [hsearch] using hQ

/-- An argument ends where a phrase does, at a comma or a closing bracket. -/
theorem ensures_expressionEnd_phrase (h : Phrase c.kindAt false s.position j)
    (hj : (c.kindAt j).endsExpression [.comma])
    (hE : ∀ e, Unfinished c.limits.scan s.position j e → E e) {Q : Nat → State → Prop} (hQ : Q j s) :
    Ensures (expressionEnd [.comma]) c s E Q := by
  simp only [expressionEnd, ensures_bind, ensures_read, ensures_here]
  rcases h.searchEnd_eq (by simp [Kind.isPlain]) hj c.limits.scan with ⟨hlimit, hsearch⟩ | hsearch
  · rw [hsearch]
    exact hE _ ⟨rfl, hlimit⟩
  · rw [hsearch]
    exact hQ

/-! ### Places -/

/-- An index that is within its dimension passes. -/
theorem ensures_checkLiteralIndex_of_within {size : Dimension} (h : WithinSize c.text size i (i + 1))
    (hne : c.kindAt i ≠ .eof) {Q : Unit → State → Prop} (hQ : Q () s) :
    Ensures (checkLiteralIndex (c.tokenAt i) size) c s E Q := by
  have hkind := Context.kind_tokenAt_of_ne_eof hne
  unfold checkLiteralIndex
  cases size with
  | named => exact hQ
  | literal size =>
    simp only [ensures_ite, ensures_pure, hkind, Bool.or_eq_true, decide_eq_true_eq]
    refine ⟨fun hliteral ↦ ?_, fun _ ↦ hQ⟩
    split
    · exact hQ
    next value hvalue =>
      have hbounds := h size rfl rfl hliteral value hvalue
      simp only [ensures_ite, ensures_violateAt, ensures_pure]
      exact ⟨fun hpast ↦ by omega, fun _ ↦ hQ⟩

section

variable {operand : Nat → Check DataType} (hoperand : CompletesOperands operand levels)

include hoperand

theorem completes_oneIndex {size : Dimension} (hnames : s.arena.names c.scope = names)
    (hopen : c.kindAt s.position = .leftBracket) (h : ValueAt c.text names .int (s.position + 1) j)
    (hclose : c.kindAt j = .rightBracket) (hwithin : WithinSize c.text size (s.position + 1) j) :
    Completes (oneIndex operand size) c s levels (j + 1) fun _ ↦ True := by
  have hcloser : (c.kindAt s.position).closer? = some .rightBracket := by rw [hopen]; rfl
  have hfirst := Context.after_of_kindAt hopen (by simp)
  have hlt := h.typed.value_lt
  unfold Completes
  simp only [oneIndex, ensures_bind, ensures_here]
  refine ensures_matchingClose_phrase hcloser h.typed.phrase.withCommas hclose
    (fun e he ↦ he.exhausted (Nat.le_refl _) (Nat.lt_succ_self j)) ?_
  simp only [ensures_discard, ensures_advance, ensures_peek, ensures_ite, ensures_bind,
    ensures_violateAt, hfirst, State.position_movedTo]
  have hvalue : Ensures (expressionWith operand j) c (s.movedTo (s.position + 1))
      (Exhausted levels c.limits.scan s.position (j + 1)) fun found after ↦ found = .int ∧
        Reached s (j + 1) (after.movedTo (c.after after.position)) := by
    refine (completes_expressionWith hoperand (s := s.movedTo (s.position + 1)) hnames h
      (by rw [hclose]; rfl)).imp (fun e he ↦ he.widen (Nat.le_succ s.position) (Nat.le_succ j))
      fun found after hafter ↦ ?_
    exact ⟨hafter.1, hafter.2.of_movedTo.next (by simp [hclose])⟩
  constructor
  · intro hsingle
    refine ensures_checkLiteralIndex_of_within (hsingle ▸ hwithin) (h.typed.phrase.ne_eof hlt) ?_
    exact hvalue.mono fun _ _ hafter ↦
      ⟨fun hother ↦ absurd hafter.1 hother, fun _ ↦ ⟨trivial, hafter.2⟩⟩
  · intro _
    exact hvalue.mono fun _ _ hafter ↦
      ⟨fun hother ↦ absurd hafter.1 hother, fun _ ↦ ⟨trivial, hafter.2⟩⟩

theorem completes_indices {wrongCount : Check Unit} {sizes : List Dimension}
    (hnames : s.arena.names c.scope = names) (h : IndexedBy c.text names sizes s.position j)
    (hfaultless : c.text.Faultless names s.position j) :
    Completes (indices operand wrongCount sizes) c s levels j fun _ ↦ True := by
  generalize hi : s.position = i at h
  induction h generalizing s with
  | nil =>
    subst hi
    exact ⟨trivial, .refl s⟩
  | @cons size sizes i m j hopen hvalue hclose hwithin hrest ih =>
    subst hi
    have hlt := hvalue.value_lt
    have hle := hrest.le
    have hindex : ValueAt c.text names .int (s.position + 1) m :=
      ⟨hvalue, hfaultless.mono (Nat.le_succ _) (by omega)⟩
    unfold Completes
    simp only [indices, ensures_bind, ensures_next?, ensures_ite, beq_iff_eq]
    refine ⟨fun _ ↦ ?_, fun hother ↦ absurd hopen hother⟩
    refine (completes_oneIndex hoperand hnames hopen hindex hclose hwithin).imp
      (fun e he ↦ he.widen (Nat.le_refl _) hle) fun _ after hafter ↦ ?_
    have hthere := hafter.2.position
    refine (ih (hafter.2.names_eq hnames) (hfaultless.mono (by omega) (Nat.le_refl j)) hthere).imp
      (fun e he ↦ he.widen (by omega) (Nat.le_refl j)) fun _ later hlater ↦ ?_
    exact ⟨trivial, hafter.2.trans hlater.2⟩

/-- The indices behind the name of an array are walked over. -/
theorem completes_elementType {sizes : List Dimension} (hnames : s.arena.names c.scope = names)
    (hsizes : symbol.array = some sizes) (h : IndexedBy c.text names sizes s.position j)
    (hfaultless : c.text.Faultless names s.position j) (hnext : c.kindAt j ≠ .leftBracket) (t : Token) :
    Completes (elementType operand symbol t) c s levels j (· = symbol.type) := by
  unfold Completes elementType
  simp only [hsizes, ensures_bind, ensures_next?, ensures_ite, ensures_pure, beq_iff_eq]
  refine (completes_indices hoperand hnames h hfaultless).mono fun _ after hafter ↦ ?_
  rw [hafter.2.position]
  exact ⟨fun hmore ↦ absurd hmore hnext, fun _ ↦ ⟨trivial, hafter.2⟩⟩

omit hoperand in
/-- A name that stands for nothing is not found. -/
theorem lookup_eq_none_of_names {name : String} (hnames : s.arena.names c.scope = names)
    (h : names name = none) : s.arena.lookup c.scope name = none := by
  rw [← hnames] at h
  exact Option.map_eq_none_iff.1 h

omit hoperand in
/-- A name that stands for a declared symbol is found. -/
theorem exists_lookup_of_nameAt {declared : Symbol} (hnames : s.arena.names c.scope = names)
    (h : c.text.NameAt names i declared) :
    ∃ symbol, s.arena.lookup c.scope (c.tokenAt i).lexeme = some symbol ∧ symbol.declared = declared := by
  have hfound := h.2
  rw [← hnames] at hfound
  exact Option.map_eq_some_iff.1 hfound

omit hoperand in
/-- What is declared as an instance of a struct is one. -/
theorem Symbol.exists_kind_of_instance {structName : String} {given : List String}
    (h : symbol.declared.kind = .structInstance structName given) :
    ∃ given, symbol.kind = .structInstance structName given := by
  rw [Symbol.kind_declared] at h
  cases hk : symbol.kind <;> rw [hk] at h <;> cases h
  exact ⟨_, rfl⟩

omit hoperand in
/-- The member behind the name of an instance is read. -/
theorem completes_member (levels : Nat) {structName : String} {given : List String} {struct : Symbol}
    {members : List TypedName} {m : TypedName} (hnames : s.arena.names c.scope = names)
    (hkind : symbol.kind = .structInstance structName given) (hdot : c.kindAt s.position = .dot)
    (hmember : c.kindAt (s.position + 1) = .identifier) (hstruct : names structName = some struct)
    (hmembers : struct.kind = .struct members)
    (hm : members.find? (fun other ↦ other.name == (c.tokenAt (s.position + 1)).lexeme) = some m)
    (t : Token) :
    Completes (member symbol t) c s levels (s.position + 2) (Member.type · = m.type) := by
  have hfirst := Context.after_of_kindAt hdot (by simp)
  have hsecond := Context.after_of_kindAt hmember (by simp)
  have hlookup : (s.arena.lookup c.scope structName).map Symbol.kind = some (.struct members) := by
    rw [← hnames] at hstruct
    obtain ⟨found, hfound, rfl⟩ := Option.map_eq_some_iff.1 hstruct
    rw [hfound, Option.map_some]
    rw [Symbol.kind_declared] at hmembers
    cases hk : found.kind <;> rw [hk] at hmembers <;> cases hmembers
    rfl
  unfold Completes member
  simp only [hkind, ensures_bind, ensures_discard, ensures_expectMark, ensures_expect, ensures_resolve,
    hfirst, State.position_movedTo, State.movedTo_movedTo, hsecond]
  refine ⟨fun _ ↦ ⟨fun _ ↦ ?_, fun hother ↦ absurd hmember hother⟩, fun hother ↦ absurd hdot hother⟩
  have hthere : ((s.movedTo (s.position + 1 + 1)).arena.lookup c.scope structName).map Symbol.kind =
      some (.struct members) := hlookup
  rw [hthere]
  simp only [hm, ensures_pure]
  exact ⟨trivial, .movedTo s _⟩

/-! ### Names that stand as operands -/

omit hoperand in
theorem ensures_valueSymbol_of_isValue {t : Token} {Q : Symbol → State → Prop}
    (hfound : s.arena.lookup c.scope t.lexeme = some symbol) (hvalue : symbol.isValue) (hQ : Q symbol s) :
    Ensures (valueSymbol t) c s E Q := by
  simp only [valueSymbol, ensures_bind, ensures_resolve, hfound]
  unfold Symbol.isValue at hvalue
  split
  next hk => rw [hk] at hvalue; cases hvalue
  next hk => rw [hk] at hvalue; cases hvalue
  next => exact hQ

omit hoperand in
/-- A name of a value that no parenthesis follows inside of the expression. -/
theorem ensures_nameOperand_of_isValue {t : Token} {Q : DataType → State → Prop} {after : Kind}
    (hkind : c.kindAt s.position = .identifier)
    (hfound : s.arena.lookup c.scope t.lexeme = some symbol) (hvalue : symbol.isValue)
    (hafter : (if s.position + 1 < stop then c.kindAt (s.position + 1) else .eof) = after)
    (hparen : after ≠ .leftParen)
    (hQ : Ensures (nameType operand symbol t after) c (s.movedTo (s.position + 1)) E Q) :
    Ensures (nameOperand operand stop t) c s E Q := by
  have hstep := Context.after_of_kindAt hkind (by simp)
  have hrest : Ensures (do
      if after = .leftParen then
        let type ← call operand
        if type = .void then violateAt (.voidInExpression t.lexeme) t
        return type
      else
        let symbol ← valueSymbol t
        discard advance
        nameType operand symbol t after) c s E Q := by
    simp only [if_neg hparen, ensures_bind, ensures_discard, ensures_advance]
    refine ensures_valueSymbol_of_isValue hfound hvalue ?_
    rwa [hstep]
  simp only [nameOperand, ensures_bind, ensures_here]
  split
  next hmore =>
    rw [if_pos hmore] at hafter
    rw [ensures_bind, ensures_secondKind, hafter]
    exact hrest
  next hmore =>
    rw [if_neg hmore] at hafter
    rw [pure_bind, hafter]
    exact hrest

omit hoperand in
/-- A name with nothing behind it that belongs to it. -/
theorem ensures_nameType_whole {t : Token} {after : Kind} (hafter : after.extendsName = false)
    (harray : symbol.array = none) :
    Ensures (nameType operand symbol t after) c s E fun type later ↦
      type = symbol.type ∧ Reached s s.position later := by
  have hwhole : symbol.isArray = false := by rw [Symbol.isArray, harray]; rfl
  unfold nameType
  split
  · cases hafter
  · cases hafter
  · cases hafter
  · cases hafter
  · simp only [hwhole, warn, ensures_bind, ensures_ite, ensures_pure, ensures_modify]
    exact ⟨by simp, fun _ ↦ ⟨fun _ ↦ ⟨trivial, .refl s⟩, fun _ ↦ ⟨trivial, rfl, rfl, rfl, rfl, rfl⟩⟩⟩

/-- A place that is read as an operand. -/
theorem completes_nameOperand_place {declared : Symbol} (hnames : s.arena.names c.scope = names)
    (h : Typed c.text names (.place declared type) s.position j)
    (hfaultless : c.text.Faultless names s.position j) {bound : Nat} (hfinishes : c.Finishes bound j stop) :
    Completes (nameOperand operand stop (c.tokenAt s.position)) c s (levels + 1) j (· = type) := by
  have hlt := h.lt nofun nofun
  have hle := hfinishes.le
  have hnext := hfinishes.extendsName
  cases h with
  | whole hname hvalue harray =>
    obtain ⟨symbol, hfound, rfl⟩ := exists_lookup_of_nameAt hnames hname
    rw [Symbol.isValue_declared] at hvalue
    rw [Symbol.array_declared] at harray
    have hafter : (if s.position + 1 < stop then c.kindAt (s.position + 1) else .eof).extendsName =
        false := by
      split
      · exact hnext
      · rfl
    refine ensures_nameOperand_of_isValue hname.1 hfound hvalue rfl (fun hparen ↦ ?_) ?_
    · rw [hparen] at hafter
      cases hafter
    · refine (ensures_nameType_whole hafter harray).mono fun found after hread ↦ ?_
      exact ⟨hread.1, hread.2.of_movedTo⟩
  | element hname hvalue harray hindices =>
    obtain ⟨symbol, hfound, rfl⟩ := exists_lookup_of_nameAt hnames hname
    rw [Symbol.isValue_declared] at hvalue
    obtain ⟨hopen, hindexed⟩ :=
      hfaultless.access s.position _ _ j (Nat.le_refl _) hlt hname harray hindices
    -- The bracket is in front of the end, since what is there does not go on with a name.
    have hmore : s.position + 1 < stop := by
      refine Nat.lt_of_lt_of_le (Nat.lt_of_le_of_ne hindexed.le ?_) hle
      rintro rfl
      rw [show c.kindAt (s.position + 1) = .leftBracket from hopen] at hnext
      cases hnext
    refine ensures_nameOperand_of_isValue hname.1 hfound hvalue ((if_pos hmore).trans hopen) (by simp) ?_
    refine (completes_elementType hoperand (s := s.movedTo (s.position + 1)) hnames harray hindexed
      (hfaultless.mono (Nat.le_succ _) (Nat.le_refl j)) ?_ _).imp
      (fun e he ↦ he.mono (by rw [State.position_movedTo]; omega) (by rw [State.position_movedTo]; omega))
      fun found after hread ↦ ⟨hread.1, hread.2.of_movedTo⟩
    intro hbracket
    rw [hbracket] at hnext
    cases hnext
  | member hname hkind hdot hmember hstruct hmembers hm =>
    obtain ⟨symbol, hfound, rfl⟩ := exists_lookup_of_nameAt hnames hname
    obtain ⟨given, hinstance⟩ := Symbol.exists_kind_of_instance hkind
    have hvalue : symbol.isValue := by rw [Symbol.isValue, hinstance]
    have hmore : s.position + 1 < stop := by omega
    refine ensures_nameOperand_of_isValue hname.1 hfound hvalue ((if_pos hmore).trans hdot) (by simp) ?_
    rw [nameType, ensures_bind]
    refine (completes_member levels (s := s.movedTo (s.position + 1)) hnames hinstance hdot
      hmember hstruct hmembers hm _).imp
      (fun e he ↦ he.mono (by rw [State.position_movedTo]; omega) (by rw [State.position_movedTo]; omega))
      fun found after hread ↦ ?_
    have hreached : Reached s (s.position + 3) after := hread.2.of_movedTo
    simp only [warn, ensures_bind, ensures_ite, ensures_pure, ensures_modify]
    exact ⟨fun _ ↦ ⟨hread.1, hreached⟩, fun _ ↦ ⟨hread.1, hreached.position, hreached.tables.arena,
      hreached.tables.functions, hreached.tables.headers, hreached.tables.sawReturn⟩⟩

omit hoperand in
/-- A place that is one name is that of a whole symbol. -/
theorem Typed.whole_of_place {text : Text} (h : Typed text names (.place symbol type) i (i + 1))
    (hfaultless : text.Faultless names i (i + 1)) (hnext : text.kind (i + 1) ≠ .leftBracket) :
    text.NameAt names i symbol ∧ symbol.isValue ∧ symbol.array = none ∧ type = symbol.type := by
  generalize hend : i + 1 = j at h
  cases h with
  | whole hname hvalue harray => exact ⟨hname, hvalue, harray, rfl⟩
  | element hname hvalue harray hindices =>
    subst hend
    exact absurd (hfaultless.access i _ _ _ (Nat.le_refl i) (Nat.lt_succ_self i) hname harray
      hindices).1 hnext
  | member => omega

omit hoperand in
theorem CountAt.ne (h : c.text.CountAt i) {k : Kind} (hk : k ≠ .increment ∧ k ≠ .decrement) :
    c.kindAt i ≠ k := by
  rcases h with hsign | hsign
  · exact fun hkind ↦ hk.1 (hkind.symm.trans hsign)
  · exact fun hkind ↦ hk.2 (hkind.symm.trans hsign)

omit hoperand in
/-- A variable with a count behind it. -/
theorem completes_nameOperand_count (hnames : s.arena.names c.scope = names)
    (h : Typed c.text names (.target .int) s.position (s.position + 1))
    (hcount : c.text.CountAt (s.position + 1))
    (hfaultless : c.text.Faultless names s.position (s.position + 2)) (hstop : s.position + 2 ≤ stop) :
    Completes (nameOperand operand stop (c.tokenAt s.position)) c s (levels + 1) (s.position + 2)
      (· = .int) := by
  cases h with | target hplace hconstant => ?_
  obtain ⟨hname, hvalue, harray, hint⟩ := hplace.whole_of_place
    (hfaultless.mono (Nat.le_refl _) (Nat.le_succ _)) (CountAt.ne hcount (by simp))
  obtain ⟨symbol, hfound, rfl⟩ := exists_lookup_of_nameAt hnames hname
  rw [Symbol.isValue_declared] at hvalue
  rw [Symbol.isConstant_declared] at hconstant
  rw [Symbol.type_declared] at hint
  have hwhole : symbol.isArray = false := by
    rw [Symbol.array_declared] at harray
    rw [Symbol.isArray, harray]
    rfl
  have hstep : c.after (s.position + 1) = s.position + 2 :=
    Context.after_of_ne_eof (CountAt.ne hcount (by simp))
  have hread : Ensures (do
      if symbol.isConstant then violateAt (.constantReassignment symbol.name) (c.tokenAt s.position)
      if symbol.isArray || symbol.type ≠ .int then
        violateAt (.countRequiresInt symbol.type) (c.tokenAt s.position)
      discard advance
      return .int : Check DataType) c (s.movedTo (s.position + 1))
      (Exhausted (levels + 1) c.limits.scan s.position (s.position + 2)) fun found after ↦
        found = .int ∧ Reached s (s.position + 2) after := by
    simp only [hconstant, hwhole, ← hint, ensures_bind, ensures_ite, ensures_discard, ensures_advance,
      ensures_pure, State.position_movedTo, State.movedTo_movedTo, hstep]
    exact ⟨by simp, fun _ ↦ ⟨by simp, fun _ ↦ ⟨trivial, .movedTo s _⟩⟩⟩
  refine ensures_nameOperand_of_isValue hname.1 hfound hvalue (if_pos hstop)
    (CountAt.ne hcount (by simp)) ?_
  rcases hcount with hsign | hsign
  · rw [show c.kindAt (s.position + 1) = .increment from hsign]
    exact hread
  · rw [show c.kindAt (s.position + 1) = .decrement from hsign]
    exact hread

omit hoperand in
theorem ensures_writable_of_isValue {t : Token} {Q : Symbol → State → Prop}
    (hfound : s.arena.lookup c.scope t.lexeme = some symbol) (hvalue : symbol.isValue)
    (hconstant : symbol.isConstant = false) (hQ : Q symbol s) :
    Ensures (writable t) c s E Q := by
  simp only [writable, ensures_bind, ensures_resolve, hfound, hvalue, hconstant, ensures_ite,
    ensures_pure]
  exact ⟨by simp, fun _ ↦ ⟨by simp, fun _ ↦ hQ⟩⟩

/-- A place that is written to. -/
theorem completes_target (hnames : s.arena.names c.scope = names)
    (h : Typed c.text names (.target type) s.position j)
    (hfaultless : c.text.Faultless names s.position j) (hnext : (c.kindAt j).extendsName = false) :
    Completes (target operand) c s levels j (Target.type · = type) := by
  have hlt := h.lt nofun nofun
  cases h with | target hplace hconstant => ?_
  unfold Completes target
  simp only [ensures_bind, ensures_expect]
  cases hplace with
  | whole hname hvalue harray =>
    obtain ⟨symbol, hfound, rfl⟩ := exists_lookup_of_nameAt hnames hname
    rw [Symbol.isValue_declared] at hvalue
    rw [Symbol.isConstant_declared] at hconstant
    rw [Symbol.array_declared] at harray
    have hwhole : symbol.isArray = false := by rw [Symbol.isArray, harray]; rfl
    refine ⟨fun _ ↦ ?_, fun hother ↦ absurd hname.1 hother⟩
    rw [Context.after_of_kindAt hname.1 (by simp)]
    refine ensures_writable_of_isValue hfound hvalue hconstant ?_
    rw [ensures_peekKind, State.position_movedTo]
    -- What stands behind a target does not go on with the name.
    split
    next hk => rw [hk] at hnext; cases hnext
    next hk => rw [hk] at hnext; cases hnext
    next =>
      simp only [hwhole, ensures_bind, ensures_ite, ensures_pure]
      exact ⟨by simp, fun _ ↦ ⟨rfl, .movedTo s _⟩⟩
  | element hname hvalue harray hindices =>
    obtain ⟨symbol, hfound, rfl⟩ := exists_lookup_of_nameAt hnames hname
    rw [Symbol.isValue_declared] at hvalue
    rw [Symbol.isConstant_declared] at hconstant
    obtain ⟨hopen, hindexed⟩ :=
      hfaultless.access s.position _ _ j (Nat.le_refl _) hlt hname harray hindices
    refine ⟨fun _ ↦ ?_, fun hother ↦ absurd hname.1 hother⟩
    rw [Context.after_of_kindAt hname.1 (by simp)]
    refine ensures_writable_of_isValue hfound hvalue hconstant ?_
    rw [ensures_peekKind, State.position_movedTo, show c.kindAt (s.position + 1) = .leftBracket from hopen]
    simp only [ensures_bind]
    refine (completes_elementType hoperand (s := s.movedTo (s.position + 1)) hnames harray hindexed
      (hfaultless.mono (Nat.le_succ _) (Nat.le_refl j)) ?_ _).imp
      (fun e he ↦ he.widen (Nat.le_succ s.position) (Nat.le_refl j))
      fun found after hread ↦ ⟨hread.1, hread.2.of_movedTo⟩
    intro hbracket
    rw [hbracket] at hnext
    cases hnext
  | member hname hkind hdot hmember hstruct hmembers hm =>
    obtain ⟨symbol, hfound, rfl⟩ := exists_lookup_of_nameAt hnames hname
    obtain ⟨given, hinstance⟩ := Symbol.exists_kind_of_instance hkind
    have hvalue : symbol.isValue := by rw [Symbol.isValue, hinstance]
    rw [Symbol.isConstant_declared] at hconstant
    refine ⟨fun _ ↦ ?_, fun hother ↦ absurd hname.1 hother⟩
    rw [Context.after_of_kindAt hname.1 (by simp)]
    refine ensures_writable_of_isValue hfound hvalue hconstant ?_
    rw [ensures_peekKind, State.position_movedTo, show c.kindAt (s.position + 1) = .dot from hdot]
    simp only [ensures_bind]
    exact (completes_member levels (s := s.movedTo (s.position + 1)) hnames hinstance hdot
      hmember hstruct hmembers hm _).imp
      (fun e he ↦ he.widen (Nat.le_succ s.position) (Nat.le_refl _))
      fun found after hread ↦ ⟨hread.1, hread.2.of_movedTo⟩

/-! ### Calls -/

omit hoperand in
theorem ensures_checkTypes_of_eq {found : List Argument} {parameters : List DataType}
    (h : found.map Prod.fst = parameters) (index : Nat) {Q : Unit → State → Prop} (hQ : Q () s) :
    Ensures (checkTypes index found parameters) c s E Q := by
  subst h
  induction found generalizing index with
  | nil => exact hQ
  | cons argument found ih =>
    simp only [List.map_cons, checkTypes, ensures_bind, ensures_ite]
    exact ⟨fun hother ↦ absurd rfl hother, fun _ ↦ ih (index + 1)⟩

/-- One round over arguments reads one of them and the comma behind it. -/
theorem ensures_argumentRound (hnames : s.arena.names c.scope = names)
    (hvalue : ValueAt c.text names type s.position m)
    (hend : m = j ∧ c.kindAt m = .rightParen ∨ m < j ∧ c.kindAt m = .comma) (hi : i ≤ s.position)
    (before : List Argument) :
    Ensures (argumentRound operand j before) c s (Exhausted levels c.limits.scan i (j + 1))
      (AfterRound
        (fun found after ↦ m < j ∧ found = before ++ [(type, c.tokenAt s.position)] ∧
          Reached s (m + 1) after)
        fun found after ↦ m = j ∧ found = before ++ [(type, c.tokenAt s.position)] ∧
          Reached s j after) := by
  have hle : m ≤ j := hend.elim (fun h ↦ Nat.le_of_eq h.1) fun h ↦ Nat.le_of_lt h.1
  have hends : (c.kindAt m).endsExpression [.comma] := by
    rcases hend with ⟨-, hkind⟩ | ⟨-, hkind⟩ <;> rw [hkind] <;> rfl
  have hclosed : (c.kindAt m).extendsName = false := by
    rcases hend with ⟨-, hkind⟩ | ⟨-, hkind⟩ <;> rw [hkind] <;> rfl
  simp only [argumentRound, ensures_bind, ensures_peek]
  refine ensures_expressionEnd_phrase hvalue.typed.phrase hends
    (fun e he ↦ he.exhausted hi (Nat.lt_succ_of_le hle)) ?_
  rw [Nat.min_eq_left hle]
  refine (completes_expressionWith hoperand hnames hvalue hclosed).imp
    (fun e he ↦ he.widen hi (Nat.le_succ_of_le hle)) ?_
  rintro _ after ⟨rfl, hafter⟩
  simp only [ensures_bind, ensures_here, ensures_ite, ensures_pure, ensures_discard, ensures_expect,
    afterRound_done, afterRound_yield, hafter.position]
  rcases hend with ⟨rfl, -⟩ | ⟨hlt, hcomma⟩
  · exact ⟨fun _ ↦ ⟨rfl, trivial, hafter⟩, fun hother ↦ absurd rfl hother⟩
  · refine ⟨fun hlast ↦ absurd hlast (Nat.ne_of_lt hlt), fun _ ↦ ⟨fun _ ↦ ⟨hlt, trivial, ?_⟩,
      fun hother ↦ absurd hcomma hother⟩⟩
    have hnext := hafter.next (c := c) (by simp [hcomma])
    rwa [hafter.position] at hnext

omit hoperand in
/-- Rounds that are always due run, or the limit is reached. -/
theorem ensures_roundsFrom_always {σ : Type} {round : σ → Check (ForInStep σ)} {value : σ} {left : Nat}
    {D : σ → State → Prop} (hlimit : left = 0 → ∀ p, E ⟨.scanLimit c.limits.scan, p⟩)
    (h : ∀ rest, left = rest + 1 → Ensures (round value) c s E
      (AfterRound (fun value later ↦ Ensures (roundsFrom (return true) round rest value) c later E D) D)) :
    Ensures (roundsFrom (return true) round left value) c s E D := by
  cases left with
  | zero => exact ensures_roundsFrom_zero.2 ⟨fun _ ↦ hlimit rfl _, nofun⟩
  | succ rest => exact ensures_roundsFrom_succ.2 ⟨fun _ ↦ h rest rfl, nofun⟩

/-- Rounds over arguments read them all, each with its type and its first token. -/
theorem ensures_argumentRounds {arguments : List (DataType × Nat)}
    (hnames : s.arena.names c.scope = names)
    (h : ValuesAt c.text names arguments s.position j) (hclose : c.kindAt j = .rightParen)
    (hi : i ≤ s.position) {left : Nat} (hleft : i + c.limits.scan ≤ left + s.position)
    (before : List Argument) :
    Ensures (roundsFrom (return true) (argumentRound operand j) left before) c s
      (Exhausted levels c.limits.scan i (j + 1)) fun found after ↦
        found = before ++ arguments.map (Prod.map id c.tokenAt) ∧ Reached s j after := by
  generalize hstart : s.position = a at h
  induction h generalizing s left before with
  | last hvalue =>
    subst hstart
    have hlt := hvalue.typed.value_lt
    refine ensures_roundsFrom_always (fun _ _ ↦ ⟨rfl, .inr (by omega)⟩) fun rest _ ↦ ?_
    refine (ensures_argumentRound hoperand hnames hvalue (.inl ⟨rfl, hclose⟩) hi before).mono ?_
    rintro (found | found) after hafter
    · exact hafter.2
    · exact absurd hafter.1 (Nat.lt_irrefl _)
  | @cons a m j type arguments hvalue hcomma hrest ih =>
    subst hstart
    have hlt := hvalue.typed.value_lt
    have hrestLt := hrest.lt
    refine ensures_roundsFrom_always (fun _ _ ↦ ⟨rfl, .inr (by omega)⟩) fun rest hrounds ↦ ?_
    refine (ensures_argumentRound hoperand hnames hvalue (.inr ⟨by omega, hcomma⟩) hi before).mono ?_
    rintro (found | found) after hafter
    · exact absurd hafter.1 (by omega)
    · obtain ⟨-, rfl, hafter⟩ := hafter
      have hthere := hafter.position
      refine (ih (hafter.names_eq hnames) hclose (by omega) (by omega) _ hthere).mono ?_
      rintro found later ⟨rfl, hlater⟩
      exact ⟨by simp, hafter.trans hlater⟩

/-- Arguments are read up to the closing parenthesis, each with its type and its first token. -/
theorem ensures_arguments_at {arguments : List (DataType × Nat)}
    (hnames : s.arena.names c.scope = names)
    (h : ArgumentsAt c.text names arguments s.position j) (hclose : c.kindAt j = .rightParen) :
    Ensures (Check.arguments operand j) c s (Exhausted levels c.limits.scan s.position (j + 1))
      fun found after ↦ found = arguments.map (Prod.map id c.tokenAt) ∧ Reached s j after := by
  simp only [Check.arguments, ensures_bind, ensures_here, ensures_ite, ensures_pure]
  cases h with
  | none => exact ⟨fun _ ↦ ⟨rfl, .refl s⟩, fun hother ↦ absurd rfl hother⟩
  | some h =>
    refine ⟨fun hempty ↦ absurd hempty (Nat.ne_of_lt h.lt), fun _ ↦ ?_⟩
    exact ensures_argumentRounds hoperand hnames h hclose (Nat.le_refl _) (by omega) []

/-- The arguments of a call, as many as its parameters and of their types, and the closing
parenthesis. -/
theorem completes_callRest {arguments : List (DataType × Nat)} {parameters : List DataType} {count : Nat}
    (hnames : s.arena.names c.scope = names)
    (h : ArgumentsAt c.text names arguments s.position j) (htypes : arguments.map Prod.fst = parameters)
    (hclose : c.kindAt j = .rightParen) (hcount : count = parameters.length) (name : Token)
    (function : String) (returns : DataType) :
    Completes (do
      let found ← Check.arguments operand j
      discard <| expectMark .rightParen
      checkArity name function count found.length
      checkTypes 1 found parameters
      return returns) c s levels (j + 1) (· = returns) := by
  unfold Completes
  simp only [ensures_bind, ensures_discard, ensures_expectMark]
  refine (ensures_arguments_at hoperand hnames h hclose).mono ?_
  rintro _ after ⟨rfl, hafter⟩
  rw [hafter.position]
  refine ⟨fun _ ↦ ?_, fun hother ↦ absurd hclose hother⟩
  simp only [checkArity, ensures_ite, ensures_violateAt]
  refine ⟨fun hother ↦ absurd ?_ hother, fun _ ↦ ensures_checkTypes_of_eq ?_ 1 ⟨rfl, ?_⟩⟩
  · rw [List.length_map, hcount, ← htypes, List.length_map]
  · rw [← htypes, List.map_map]
    rfl
  · have hnext := hafter.next (c := c) (by simp [hclose])
    rwa [hafter.position] at hnext

omit hoperand in
/-- A name that stands as an expression of its own is no array. -/
theorem Typed.not_isArray_of_value {text : Text} (h : Typed text names (.value type) i (i + 1))
    (hkind : text.kind i = .identifier) (hfaultless : text.Faultless names i (i + 1))
    (hnext : text.kind (i + 1) ≠ .leftBracket) (hname : names (text.token i).lexeme = some symbol) :
    symbol.isArray = false := by
  generalize hend : i + 1 = j at h
  cases h with | value hterm => ?_
  cases hterm with
  | joined hleft _ hright =>
    have := hleft.lt nofun nofun
    have := hright.lt nofun nofun
    omega
  | one hone _ => ?_
  cases hone with
  | read hplace =>
    subst hend
    obtain ⟨hat, -, harray, -⟩ := hplace.whole_of_place hfaultless hnext
    obtain rfl : symbol = _ := Option.some.inj (hname.symm.trans hat.2)
    rw [Symbol.isArray, harray]
    rfl
  | literal hliteral => rw [hkind] at hliteral; cases hliteral
  | parenthesised hopen => rw [hkind] at hopen; cases hopen
  | negated hword => rw [hkind] at hword; cases hword
  | countedBefore hsign => rcases hsign with hsign | hsign <;> rw [hkind] at hsign <;> cases hsign
  | countedAfter => omega
  | result hcall =>
    cases hcall with
    | declared _ _ _ h | builtin _ _ _ _ h => have := h.le; omega
    | lengthOfArray => omega

omit hoperand in
/-- Arguments on one token are one expression. -/
theorem Typed.exists_value {text : Text} {types : List DataType}
    (h : Typed text names (.arguments types) i (i + 1)) : ∃ type, Typed text names (.value type) i (i + 1) := by
  generalize hend : i + 1 = j at h
  cases h with
  | noArgument => omega
  | arguments h =>
    cases h with
    | firstValue h => exact ⟨_, h⟩
    | nextValue h _ h' =>
      have := h.lt nofun nofun
      have := h'.value_lt
      omega

omit hoperand in
/-- A call is taken apart up to its arguments. -/
theorem ensures_call_of (called : Callee) {Q : DataType → State → Prop}
    (hkind : c.kindAt s.position = .identifier) (hopen : c.kindAt (s.position + 1) = .leftParen)
    (h : Phrase c.kindAt true (s.position + 2) j) (hclose : c.kindAt j = .rightParen)
    (hE : ∀ e, Unfinished c.limits.scan (s.position + 1) j e → E e)
    (hcallee : ∀ {t : State} {Q : Callee → State → Prop}, t.arena = s.arena → Q called t →
      Ensures (callee (c.tokenAt s.position)) c t E Q)
    (hrest : Ensures (match called with
      | .declared info => declaredCall operand info (c.tokenAt s.position) j
      | .builtin b => builtinCall operand b (c.tokenAt s.position) j) c (s.movedTo (s.position + 2)) E Q) :
    Ensures (call operand) c s E Q := by
  have hfirst := Context.after_of_kindAt hkind (by simp)
  have hsecond := Context.after_of_kindAt hopen (by simp)
  have hcloser : (c.kindAt (s.position + 1)).closer? = some .rightParen := by rw [hopen]; rfl
  simp only [call, ensures_bind, ensures_expect]
  refine ⟨fun _ ↦ hcallee rfl ?_, fun hother ↦ absurd hkind hother⟩
  rw [hfirst, ensures_here, State.position_movedTo]
  refine ensures_matchingClose_phrase hcloser h hclose hE ?_
  rw [ensures_discard, ensures_advance, State.position_movedTo, hsecond, State.movedTo_movedTo]
  exact hrest

omit hoperand in
theorem ensures_wholeArray_iff {close : Nat} {Q : Bool → State → Prop} :
    Ensures (wholeArray close) c s E Q ↔ Q (close = s.position + 1 &&
      (c.tokenAt s.position).kind = .identifier &&
        (s.arena.lookup c.scope (c.tokenAt s.position).lexeme).any Symbol.isArray) s := by
  simp only [wholeArray, ensures_bind, ensures_peek, ensures_here]
  split
  next h => simp [ensures_resolve, (Bool.and_eq_true_iff.1 h)]
  next h => simp [Bool.eq_false_iff.2 h]

omit hoperand in
/-- The length of a whole array. -/
theorem ensures_builtinCall_array (hkind : c.kindAt s.position = .identifier)
    (hfound : s.arena.lookup c.scope (c.tokenAt s.position).lexeme = some symbol) (harray : symbol.isArray)
    (hclose : c.kindAt (s.position + 1) = .rightParen) (name : Token) {Q : DataType → State → Prop}
    (hQ : Q .int (s.movedTo (s.position + 2))) :
    Ensures (builtinCall operand .len name (s.position + 1)) c s E Q := by
  have hidentifier := Context.kind_tokenAt_of_kindAt hkind (by simp)
  have hfirst := Context.after_of_kindAt hkind (by simp)
  have hsecond := Context.after_of_kindAt hclose (by simp)
  have hwhole {Q : Bool → State → Prop} :
      Ensures (wholeArray (s.position + 1)) c s E Q ↔ Q true s := by
    rw [ensures_wholeArray_iff]
    simp [hidentifier, hfound, harray]
  simp only [builtinCall, ensures_bind, hwhole, decide_true, Bool.and_true, if_true, ensures_discard,
    ensures_advance, ensures_expectMark, ensures_pure, State.position_movedTo, State.movedTo_movedTo,
    hfirst, hsecond]
  exact ⟨fun _ ↦ hQ, fun hother ↦ absurd hclose hother⟩

/-- A call of a built-in function. -/
theorem completes_builtinCall {b : Builtin} (hnames : s.arena.names c.scope = names)
    (h : Typed c.text names (.arguments b.parameters) s.position j) (hclose : c.kindAt j = .rightParen)
    (hfaultless : c.text.Faultless names s.position j) (name : Token) :
    Completes (builtinCall operand b name j) c s levels (j + 1) (· = b.returns) := by
  have harity : b.arity = b.parameters.length := by cases b <;> rfl
  have hsplit : builtinCall operand b name j = (do
      let whole ← wholeArray j
      if b = .len && whole then
        discard advance
        discard <| expectMark .rightParen
        return b.returns
      else
        let found ← Check.arguments operand j
        discard <| expectMark .rightParen
        checkArity name b.name b.arity found.length
        checkTypes 1 found b.parameters
        return b.returns) := by
    cases b <;> rfl
  -- An expression is not the name of an array.
  have hother : (b = .len && (j = s.position + 1 && (c.tokenAt s.position).kind = .identifier &&
      (s.arena.lookup c.scope (c.tokenAt s.position).lexeme).any Symbol.isArray)) = false := by
    refine Bool.eq_false_iff.2 fun hwhole ↦ ?_
    simp only [Bool.and_eq_true, decide_eq_true_eq, Option.any_eq_true] at hwhole
    obtain ⟨rfl, ⟨rfl, hkind⟩, symbol, hfound, harray⟩ := hwhole
    obtain ⟨type, hvalue⟩ := h.exists_value
    have hidentifier : c.kindAt s.position = .identifier := by
      rwa [← Context.kind_tokenAt_of_ne_eof (hvalue.phrase.ne_eof (Nat.lt_succ_self _))]
    have hname : names (c.tokenAt s.position).lexeme = some symbol.declared := by
      rw [← hnames, Arena.names, hfound]
      rfl
    have hnot := hvalue.not_isArray_of_value hidentifier hfaultless (by simp [hclose]) hname
    rw [Symbol.isArray_declared, harray] at hnot
    cases hnot
  obtain ⟨arguments, harguments, htypes⟩ := h.exists_argumentsAt hfaultless
  unfold Completes
  rw [hsplit, ensures_bind, ensures_wholeArray_iff, hother]
  exact completes_callRest hoperand hnames harguments htypes hclose harity name b.name b.returns

omit hoperand in
theorem ensures_callee_declared {name : Token} {info : FunctionInfo} {Q : Callee → State → Prop}
    (hfound : s.arena.lookup c.scope name.lexeme = some symbol) (hinfo : symbol.functionInfo? = some info)
    (hQ : Q (.declared info) s) : Ensures (callee name) c s E Q := by
  simp only [callee, ensures_bind, ensures_resolve, hfound]
  rw [hinfo]
  exact hQ

omit hoperand in
theorem ensures_callee_builtin {name : Token} {b : Builtin} {Q : Callee → State → Prop}
    (hfree : s.arena.lookup c.scope name.lexeme = none) (hb : Builtin.ofName? name.lexeme = some b)
    (hQ : Q (.builtin b) s) : Ensures (callee name) c s E Q := by
  simp only [callee, ensures_bind, ensures_resolve, hfree, hb]
  exact hQ

/-- A call whose arguments have the types of the parameters. -/
theorem completes_call (hnames : s.arena.names c.scope = names)
    (h : Typed c.text names (.call type) s.position j)
    (hfaultless : c.text.Faultless names s.position j) :
    Completes (call operand) c s (levels + 1) j (· = type) := by
  have hwiden {m : Nat} {e : SemanticError}
      (he : Exhausted levels c.limits.scan (s.movedTo (s.position + 2)).position m e) :
      Exhausted (levels + 1) c.limits.scan s.position m e :=
    he.mono (by rw [State.position_movedTo]; omega) (by rw [State.position_movedTo]; omega)
  cases h with
  | @declared i j declared info hname hinfo hopen harguments hclose =>
    obtain ⟨symbol, hfound, rfl⟩ := exists_lookup_of_nameAt hnames hname
    rw [Symbol.functionInfo?_declared] at hinfo
    obtain ⟨info, hfunction, rfl⟩ := Option.map_eq_some_iff.1 hinfo
    obtain ⟨arguments, hwritten, htypes⟩ :=
      harguments.exists_argumentsAt (hfaultless.mono (by omega) (Nat.le_succ _))
    refine ensures_call_of (.declared info) hname.1 hopen harguments.phrase hclose ?_ ?_ ?_
    · exact fun e he ↦ he.exhausted (Nat.le_succ _) (Nat.lt_succ_self _)
    · exact fun harena hQ ↦ ensures_callee_declared (harena ▸ hfound) hfunction hQ
    · refine (completes_callRest hoperand (s := s.movedTo (s.position + 2)) hnames hwritten htypes hclose
        (List.length_map _).symm _ _ _).imp (fun _ ↦ hwiden) ?_
      exact fun found after hafter ↦ ⟨hafter.1, hafter.2.of_movedTo⟩
  | @builtin i j b hkind hfree hb hopen harguments hclose =>
    refine ensures_call_of (.builtin b) hkind hopen harguments.phrase hclose ?_ ?_ ?_
    · exact fun e he ↦ he.exhausted (Nat.le_succ _) (Nat.lt_succ_self _)
    · exact fun harena hQ ↦ ensures_callee_builtin (harena ▸ lookup_eq_none_of_names hnames hfree) hb hQ
    · refine (completes_builtinCall hoperand (s := s.movedTo (s.position + 2)) hnames harguments hclose
        (hfaultless.mono (by simp) (Nat.le_succ _)) _).imp (fun _ ↦ hwiden) ?_
      exact fun found after hafter ↦ ⟨hafter.1, hafter.2.of_movedTo⟩
  | @lengthOfArray i declared hkind hfree hb hopen hargument harray hclose =>
    obtain ⟨symbol, hfound, rfl⟩ := exists_lookup_of_nameAt hnames hargument
    have hphrase : Phrase c.kindAt true (s.position + 2) (s.position + 3) :=
      .one (by rw [show c.kindAt (s.position + 2) = .identifier from hargument.1]; rfl)
    refine ensures_call_of (.builtin .len) hkind hopen hphrase hclose ?_ ?_ ?_
    · exact fun e he ↦ he.exhausted (Nat.le_succ _) (Nat.lt_succ_self _)
    · exact fun harena hQ ↦ ensures_callee_builtin (harena ▸ lookup_eq_none_of_names hnames hfree) hb hQ
    · exact ensures_builtinCall_array (s := s.movedTo (s.position + 2)) hargument.1 hfound harray hclose _
        ⟨rfl, .movedTo s _⟩

/-! ### Operands -/

theorem completes_parenthesised (hnames : s.arena.names c.scope = names)
    (hopen : c.kindAt s.position = .leftParen)
    (h : ValueAt c.text names type (s.position + 1) j) (hclose : c.kindAt j = .rightParen) (hstop : j < stop) :
    Completes (parenthesised operand stop) c s (levels + 1) (j + 1) (· = type) := by
  have hcloser : (c.kindAt s.position).closer? = some .rightParen := by rw [hopen]; rfl
  have hfirst := Context.after_of_kindAt hopen (by simp)
  unfold Completes parenthesised
  rw [ensures_bind, ensures_here, ensures_bind]
  refine ensures_matchingClose_phrase hcloser h.typed.phrase.withCommas hclose
    (fun e he ↦ he.exhausted (Nat.le_refl _) (Nat.lt_succ_self j)) ?_
  simp only [ensures_pure, ensures_ite, ensures_violate, ensures_discard, ensures_advance,
    ensures_bind, hfirst]
  refine ⟨fun hpast ↦ absurd hstop (Nat.not_lt_of_le hpast), fun _ ↦ ?_⟩
  refine (completes_expressionWith hoperand (s := s.movedTo (s.position + 1)) hnames h
    (by rw [hclose]; rfl)).imp (fun e he ↦ he.mono (by simp; omega) (by simp; omega)) ?_
  intro found after hafter
  have hnext := hafter.2.of_movedTo.next (c := c) (by simp [hclose])
  exact ⟨hafter.1, hnext⟩

/-- A call that stands as an operand. -/
theorem completes_nameOperand_call (hnames : s.arena.names c.scope = names)
    (h : Typed c.text names (.call type) s.position j) (hvoid : type ≠ .void)
    (hfaultless : c.text.Faultless names s.position j) (hstop : j ≤ stop) :
    Completes (nameOperand operand stop (c.tokenAt s.position)) c s (levels + 1) j (· = type) := by
  have hopen : c.kindAt (s.position + 1) = .leftParen ∧ s.position + 1 < stop := by
    cases h with
    | declared _ _ hopen h | builtin _ _ _ hopen h => exact ⟨hopen, by have := h.le; omega⟩
    | lengthOfArray _ _ _ hopen => exact ⟨hopen, by omega⟩
  unfold Completes nameOperand
  simp only [ensures_bind, ensures_here, if_pos hopen.2, ensures_secondKind, hopen.1, if_true]
  refine (completes_call hoperand hnames h hfaultless).mono ?_
  rintro _ after ⟨rfl, hafter⟩
  simp only [ensures_ite, ensures_bind, ensures_pure]
  exact ⟨fun hnone ↦ absurd hnone hvoid, fun _ ↦ ⟨trivial, hafter⟩⟩

/-- What an operand is given, given what operands inside of it are. -/
theorem completesOperands_operandWith : CompletesOperands (operandWith operand) (levels + 1) := by
  intro c s names j stop type hnames h hvoid hfaultless hfinishes
  have hlt := h.operand_lt
  have hhere : ¬ s.position ≥ stop := Nat.not_le_of_lt (Nat.lt_of_lt_of_le hlt hfinishes.le)
  have hne : c.kindAt s.position ≠ .eof := h.phrase.ne_eof hlt
  have hkind := Context.kind_tokenAt_of_ne_eof hne
  unfold Completes operandWith
  simp only [ensures_bind, ensures_here, if_neg hhere, ensures_peek, hkind]
  cases h with
  | literal hliteral =>
    rw [show DataType.ofLiteral? (c.kindAt s.position) = some type from hliteral]
    simp only [ensures_bind, ensures_discard, ensures_advance, ensures_pure,
      Context.after_of_ne_eof hne]
    exact ⟨trivial, .movedTo s _⟩
  | read hplace =>
    have hname := hplace.kind_eq_identifier (.inl ⟨_, _, rfl⟩)
    rw [show c.kindAt s.position = .identifier from hname]
    exact completes_nameOperand_place hoperand hnames hplace hfaultless hfinishes
  | result hcall =>
    rw [show c.kindAt s.position = .identifier from
      hcall.kind_eq_identifier (.inr (.inr ⟨_, rfl⟩))]
    exact completes_nameOperand_call hoperand hnames hcall hvoid hfaultless hfinishes.le
  | parenthesised hopen hvalue hclose =>
    rw [show c.kindAt s.position = .leftParen from hopen]
    exact completes_parenthesised hoperand hnames hopen
      ⟨hvalue, hfaultless.mono (Nat.le_succ _) (Nat.le_succ _)⟩ hclose hfinishes.le
  | negated hword hinner =>
    rw [show c.kindAt s.position = .negation from hword]
    simp only [DataType.ofLiteral?, ensures_bind, ensures_discard, ensures_advance, ensures_ite,
      ensures_violateAt, ensures_pure, Context.after_of_kindAt hword (by simp)]
    refine (hoperand (s := s.movedTo (s.position + 1)) hnames hinner (by simp)
      (hfaultless.mono (Nat.le_succ _) (Nat.le_refl j)) hfinishes).imp
      (fun e he ↦ he.mono (by rw [State.position_movedTo]; omega) (by rw [State.position_movedTo]; omega)) ?_
    rintro _ after ⟨rfl, hafter⟩
    exact ⟨fun hother ↦ absurd rfl hother, fun _ ↦ ⟨trivial, hafter.of_movedTo⟩⟩
  | countedBefore hsign htarget =>
    -- Both signs count a target in the same way.
    have hread : Ensures (do discard advance; requireInt (← target operand); return .int : Check DataType)
        c s (Exhausted (levels + 1) c.limits.scan s.position j) fun found after ↦
          found = .int ∧ Reached s j after := by
      simp only [ensures_bind, ensures_discard, ensures_advance, ensures_pure, requireInt, ensures_ite,
        ensures_violateAt, Context.after_of_ne_eof hne]
      refine (completes_target hoperand (s := s.movedTo (s.position + 1)) hnames htarget
        (hfaultless.mono (Nat.le_succ _) (Nat.le_refl j)) hfinishes.extendsName).imp
        (fun e he ↦ he.mono (by rw [State.position_movedTo]; omega) (by rw [State.position_movedTo]; omega)) ?_
      intro found after hafter
      exact ⟨fun hother ↦ absurd hafter.1 hother, fun _ ↦ ⟨trivial, hafter.2.of_movedTo⟩⟩
    rcases hsign with hsign | hsign
    · rw [show c.kindAt s.position = .increment from hsign]
      exact hread
    · rw [show c.kindAt s.position = .decrement from hsign]
      exact hread
  | countedAfter htarget hsign =>
    have hname := htarget.kind_eq_identifier (.inr (.inl ⟨_, rfl⟩))
    rw [show c.kindAt s.position = .identifier from hname]
    exact completes_nameOperand_count hnames htarget hsign hfaultless hfinishes.le

end

/-- Operands are walked over to their ends on every level. -/
theorem completesOperands_operand (levels : Nat) : CompletesOperands (operand levels) levels := by
  induction levels with
  | zero =>
    intro c s names j stop type _ h _ _ _
    exact ⟨rfl, .inl h.operand_lt⟩
  | succ levels ih => exact completesOperands_operandWith ih

end

end FrontEnd
