import FrontEnd.Proofs.Check.Straight
import FrontEnd.Proofs.Typing.Statements

/-!
# Where a well-typed program returns

Words of control flow stand in a well-typed text where a rule for statements has them, and nowhere
else: expressions, assignments, declarations and headers are free of them (`Text.Uncontrolled`).

A place inside a body is read with the names that `Comes` says: those at the start of the body, what
was declared before on the way, and nothing of the blocks that were closed.  In a well-typed body every
return returns what its function does, with the names at its place (`WellTyped.returned`).  The names at
the start of a body are those at the top and the parameters, and at the top they are found in the same
way (`TopNames`).
-/

namespace FrontEnd

open Check

/-- No word of control flow stands in a stretch of a text. -/
structure Text.Uncontrolled (text : Text) (i j : Nat) : Prop where
  le : i ≤ j
  plain : ∀ k, i ≤ k → k < j → (text.kind k).isControl = false

section

variable {text : Text} {f : Option FunctionContext} {names names' start : Names}
  {i j k m p q : Nat} {kind : Kind} {type : DataType} {form : Form}

namespace Text.Uncontrolled

theorem refl (text : Text) (i : Nat) : text.Uncontrolled i i :=
  ⟨Nat.le_refl i, fun k hi hj ↦ by omega⟩

theorem one (hi : text.kind i = kind) (hkind : kind.isControl = false) :
    text.Uncontrolled i (i + 1) := by
  refine ⟨Nat.le_succ i, fun k hk hlt ↦ ?_⟩
  obtain rfl : k = i := by omega
  exact hi ▸ hkind

theorem trans (h : text.Uncontrolled i m) (h' : text.Uncontrolled m j) : text.Uncontrolled i j := by
  refine ⟨Nat.le_trans h.le h'.le, fun k hi hj ↦ ?_⟩
  by_cases hm : k < m
  · exact h.plain k hi hm
  · exact h'.plain k (Nat.le_of_not_lt hm) hj

/-- One token and a stretch behind it. -/
theorem cons (hi : text.kind i = kind) (hkind : kind.isControl = false)
    (h : text.Uncontrolled (i + 1) j) : text.Uncontrolled i j :=
  (one hi hkind).trans h

/-- A stretch and one token behind it. -/
theorem snoc (h : text.Uncontrolled i j) (hj : text.kind j = kind) (hkind : kind.isControl = false) :
    text.Uncontrolled i (j + 1) :=
  h.trans (one hj hkind)

end Text.Uncontrolled

/-! ### Expressions -/

theorem Text.CountAt.uncontrolled (h : text.CountAt i) : text.Uncontrolled i (i + 1) := by
  obtain h | h := h
  · exact .one h rfl
  · exact .one h rfl

theorem Typed.uncontrolled (h : Typed text names form i j) : text.Uncontrolled i j := by
  induction h with
  | literal hliteral => exact .one rfl (GoesStraight.isControl_of_literal hliteral)
  | read _ ih | result _ ih | one _ _ ih | value _ ih | target _ _ ih | firstValue _ ih
    | arguments _ ih => exact ih
  | parenthesised hopen _ hclose ih => exact (ih.cons hopen rfl).snoc hclose rfl
  | negated hword _ ih => exact ih.cons hword rfl
  | countedBefore hcount _ ih => exact hcount.uncontrolled.trans ih
  | countedAfter _ hcount ih => exact ih.trans hcount.uncontrolled
  | joined _ hop _ _ _ _ ihleft ihright =>
    exact ihleft.trans (ihright.cons rfl (GoesStraight.isControl_of_operator hop))
  | whole hname => exact .one hname.1 rfl
  | element hname _ _ _ ih => exact ih.cons hname.1 rfl
  | member hname _ hdot hmember => exact ((Text.Uncontrolled.one hname.1 rfl).snoc hdot rfl).snoc hmember rfl
  | noIndex | noArgument => exact .refl text _
  | index hopen _ hclose _ ihvalue ih =>
    exact ((ihvalue.cons hopen rfl).snoc hclose rfl).trans ih
  | nextValue _ hcomma _ ih ihvalue => exact ih.trans (ihvalue.cons hcomma rfl)
  | declared hname _ hopen _ hclose ih =>
    exact ((ih.cons hopen rfl).cons hname.1 rfl).snoc hclose rfl
  | builtin hname _ _ hopen _ hclose ih => exact ((ih.cons hopen rfl).cons hname rfl).snoc hclose rfl
  | lengthOfArray hname _ _ hopen hargument _ hclose =>
    exact (((Text.Uncontrolled.one hname rfl).snoc hopen rfl).snoc hargument.1 rfl).snoc hclose rfl

/-! ### Assignments and declarations -/

theorem isControl_of_word (h : DataType.ofWord? kind = some type) : kind.isControl = false := by
  cases kind <;> first | rfl | cases h

theorem Text.TypeWordAt.uncontrolled (h : text.TypeWordAt i type) : text.Uncontrolled i (i + 1) :=
  .one rfl (isControl_of_word (Option.filter_eq_some_iff.1 h).1)

theorem Given.uncontrolled (h : Given text names type i j) : text.Uncontrolled i j := by
  cases h with
  | value h => exact h.uncontrolled
  | input _ h =>
    exact (((Text.Uncontrolled.one h.word rfl).snoc h.opens rfl).snoc h.prompt rfl).snoc h.closes rfl

theorem Assigned.uncontrolled (h : Assigned text names type i m j) : text.Uncontrolled i j := by
  cases h with
  | plain htarget hsign hvalue => exact htarget.uncontrolled.trans (hvalue.uncontrolled.cons hsign rfl)
  | compound htarget hsign _ hvalue =>
    exact htarget.uncontrolled.trans
      (hvalue.uncontrolled.cons rfl (GoesStraight.isControl_of_compound hsign))
  | counted htarget _ hcount => exact htarget.uncontrolled.trans hcount.uncontrolled

theorem ElementAt.uncontrolled (h : ElementAt text names type i) : text.Uncontrolled i (i + 1) := by
  cases h with
  | literal h => exact .one rfl (GoesStraight.isControl_of_literal h)
  | name h => exact .one h.1 rfl

theorem ElementsAt.uncontrolled (h : ElementsAt text names type i j) : text.Uncontrolled i j := by
  induction h with
  | first h => exact h.uncontrolled
  | next _ hcomma h ih => exact (ih.snoc hcomma rfl).trans h.uncontrolled

theorem RowAt.uncontrolled (h : RowAt text names type i j) : text.Uncontrolled i j := by
  cases h with
  | empty hopen hclose => exact (Text.Uncontrolled.one hopen rfl).snoc hclose rfl
  | elements hopen h hclose => exact (h.uncontrolled.cons hopen rfl).snoc hclose rfl

theorem RowsAt.uncontrolled (h : RowsAt text names type i j) : text.Uncontrolled i j := by
  induction h with
  | none => exact .refl text _
  | next _ h hcomma ih => exact (ih.trans h.uncontrolled).snoc hcomma rfl

theorem ArrayAt.uncontrolled {shape : Shape} (h : ArrayAt text names type shape i j) :
    text.Uncontrolled i j := by
  cases h with
  | row h => exact h.uncontrolled
  | table hopen hrows hlast hclose =>
    obtain rfl | hlast := hlast
    · exact (hrows.uncontrolled.cons hopen rfl).snoc hclose rfl
    · exact ((hrows.uncontrolled.trans hlast.uncontrolled).cons hopen rfl).snoc hclose rfl

theorem DimensionAt.uncontrolled {size : Dimension} (h : DimensionAt text names i size) :
    text.Uncontrolled i (i + 3) := by
  cases h with
  | literal hopen h _ hclose => exact ((Text.Uncontrolled.one hopen rfl).snoc h rfl).snoc hclose rfl
  | named hopen h _ _ hclose => exact ((Text.Uncontrolled.one hopen rfl).snoc h.1 rfl).snoc hclose rfl

theorem ShapeAt.uncontrolled {shape : Shape} (h : ShapeAt text names i shape j) :
    text.Uncontrolled i j := by
  cases h with
  | row h => exact h.uncontrolled
  | table h h' => exact h.uncontrolled.trans h'.uncontrolled

theorem DeclaratorAt.uncontrolled {isConstant : Bool} {symbol : Symbol}
    (h : DeclaratorAt text names type isConstant i j symbol) : text.Uncontrolled i j := by
  cases h with
  | bare hname => exact .one hname rfl
  | given hname hsign h => exact (h.uncontrolled.cons hsign rfl).cons hname rfl
  | array hname h => exact h.uncontrolled.cons hname rfl
  | arrayGiven hname h hsign h' =>
    exact (h.uncontrolled.cons hname rfl).trans (h'.uncontrolled.cons hsign rfl)

theorem Declarators.uncontrolled {one : Names → Nat → Nat → Symbol → Prop}
    (hone : ∀ {names i j symbol}, one names i j symbol → text.Uncontrolled i j)
    (h : Declarators text one names i j names') : text.Uncontrolled i j := by
  induction h with
  | first h => exact hone h
  | next _ hcomma h ih => exact ih.trans ((hone h).cons hcomma rfl)

theorem InstanceAt.uncontrolled {structName : String} {symbol : Symbol}
    (h : InstanceAt text structName i j symbol) : text.Uncontrolled i j := by
  obtain ⟨hname, rfl, -⟩ := h
  exact .one hname rfl

/-! ### Parts of statements -/

theorem GuardAt.uncontrolled (h : GuardAt text names i j) : text.Uncontrolled i j := by
  cases h with
  | mk hopen h _ hclose => exact (h.uncontrolled.cons hopen rfl).snoc hclose rfl

theorem UpdateAt.uncontrolled (h : UpdateAt text names i j) : text.Uncontrolled i j := by
  cases h with
  | before hcount h => exact hcount.uncontrolled.trans h.uncontrolled
  | behind h => exact h.uncontrolled

theorem ForHeaderAt.uncontrolled (h : ForHeaderAt text names i j) : text.Uncontrolled i j := by
  cases h with
  | mk hopen htarget hsign hvalue hfirst hcondition hsecond hupdate hclose =>
    have hstart := htarget.uncontrolled.trans (hvalue.uncontrolled.cons hsign rfl)
    have hmiddle := hcondition.uncontrolled.cons hfirst rfl
    have hend := hupdate.uncontrolled.cons hsecond rfl
    exact (((hstart.trans hmiddle).trans hend).cons hopen rfl).snoc hclose rfl

theorem ReturnAt.uncontrolled {g : FunctionContext} (h : ReturnAt text names g i j) :
    text.Uncontrolled i j := by
  cases h with
  | nothing => exact .refl text _
  | zero _ h => exact .one h rfl
  | value _ h => exact h.uncontrolled

/-! ### Headers -/

section

variable {c : Context} {name : Token} {info : FunctionInfo}

theorem TypedNameAt.uncontrolled {n : TypedName} (h : TypedNameAt c i n) :
    c.text.Uncontrolled i (i + 2) :=
  Text.Uncontrolled.snoc (.one rfl (isControl_of_word (Option.filter_eq_some_iff.1 h.type).1))
    h.kind rfl

theorem TypedNamesAt.uncontrolled {mark : Kind} {ns : List TypedName}
    (h : TypedNamesAt c mark i ns j) (hmark : mark.isControl = false) : c.text.Uncontrolled i j := by
  induction h with
  | nil => exact .refl c.text i
  | snoc _ hname hafter ih => exact (ih.trans hname.uncontrolled).snoc hafter hmark

theorem ParametersAt.uncontrolled {ns : List TypedName} (h : ParametersAt c i ns j) :
    c.text.Uncontrolled i j := by
  cases h with
  | none => exact .refl c.text i
  | some h hname => exact (h.uncontrolled rfl).trans hname.uncontrolled

/-- The header of a function up to the start of its body. -/
theorem HeaderAt.uncontrolled (h : HeaderAt c i name info) (hbody : IsBody c info.body) :
    c.text.Uncontrolled i info.body.start := by
  obtain ⟨opening, hopening, hbraced⟩ := hbody
  cases h with
  | @function j word returns kind _ opens parameters closes start =>
    obtain rfl : opening = j + 1 := by omega
    have hname : c.text.Uncontrolled i (i + 4) := Text.Uncontrolled.cons word rfl <|
      Text.Uncontrolled.cons rfl (isControl_of_word returns) <| (Text.Uncontrolled.one kind rfl).snoc opens rfl
    exact hopening ▸ ((hname.trans parameters.uncontrolled).snoc closes rfl).snoc hbraced.opens rfl
  | entryPoint word _ opens closes _ _ start =>
    obtain rfl : opening = i + 3 := by omega
    exact hopening ▸ (((Text.Uncontrolled.one word rfl).snoc opens rfl).snoc closes rfl).snoc
      hbraced.opens rfl

theorem StructAt.uncontrolled {members : List TypedName} {stop : Nat}
    (h : StructAt c i name members stop) : c.text.Uncontrolled i (stop + 2) := by
  have hname : c.text.Uncontrolled i (i + 3) :=
    ((Text.Uncontrolled.one h.word rfl).snoc h.kind rfl).snoc h.opens rfl
  exact ((hname.trans (h.members.uncontrolled rfl)).snoc h.closes rfl).snoc h.ends rfl

end

/-! ### Names inside a body -/

/-- A statement that starts at an index, with some names there, comes to one of its blocks at another
index. -/
inductive BlockAt (text : Text) (f : Option FunctionContext) (names : Names) (i : Nat) : Nat → Prop
  | whileBlock {j : Nat} :
    text.kind i = .whileWord → GuardAt text names (i + 1) j → BlockAt text f names i j
  | doBlock : text.kind i = .doWord → BlockAt text f names i (i + 1)
  | forBlock {j : Nat} :
    text.kind i = .forWord → ForHeaderAt text names (i + 1) j → BlockAt text f names i j
  | ifBlock {j : Nat} :
    text.kind i = .ifWord → GuardAt text names (i + 1) j → BlockAt text f names i j
  | elseIfBlock {m j : Nat} :
    WellTyped text f .branches names i m names → text.kind m = .elseIfWord →
      GuardAt text names (m + 1) j → BlockAt text f names i j
  | elseBlock {m : Nat} :
    WellTyped text f .branches names i m names → text.kind m = .elseWord →
      BlockAt text f names i (m + 1)

/-- A switch over a type starts at an index, and its cases start at another one. -/
structure CasesAt (text : Text) (names : Names) (i : Nat) (selector : DataType) (j : Nat) : Prop where
  word : text.kind i = .switchWord
  opens : text.kind (i + 1) = .leftParen
  selector : ∃ m, Typed text names (.value selector) (i + 2) m ∧ text.kind m = .rightParen ∧
    text.kind (m + 1) = .leftBrace ∧ j = m + 2

/-- From statements that start at an index with some names, a way leads to a place inside them where
other names are known: past whole statements and into blocks and cases. -/
inductive Comes (text : Text) (f : Option FunctionContext) (start : Names) (i : Nat) :
    Names → Nat → Prop
  | here : Comes text f start i start i
  | past {names names' : Names} {m j : Nat} :
    Comes text f start i names m → WellTyped text f .statement names m j names' →
      Comes text f start i names' j
  | block {names : Names} {m j : Nat} :
    Comes text f start i names m → BlockAt text f names m j → text.kind j = .leftBrace →
      Comes text f start i names (j + 1)
  | labelled {names : Names} {selector : DataType} {m n j : Nat} :
    Comes text f start i names m → CasesAt text names m selector n →
      WellTyped text f (.cases selector) names n j names → text.kind j = .caseWord →
        text.kind (j + 2) = .colon → Comes text f start i names (j + 3)
  | default {names : Names} {selector : DataType} {m n j : Nat} :
    Comes text f start i names m → CasesAt text names m selector n →
      WellTyped text f (.cases selector) names n j names → text.kind j = .defaultWord →
        text.kind (j + 1) = .colon → Comes text f start i names (j + 2)

/-- Each return in a stretch stands in a function and returns what the function does, with the names
that are known at its place. -/
def Returned (text : Text) (f : Option FunctionContext) (start : Names) (p i j : Nat) : Prop :=
  ∀ k, i ≤ k → k < j → text.kind k = .returnWord → ∃ g names m, f = some g ∧
    Comes text f start p names k ∧ ReturnAt text names g (k + 1) m ∧ text.kind m = .semicolon

namespace Returned

theorem of_uncontrolled (h : text.Uncontrolled i j) : Returned text f start p i j := by
  intro k hi hj hk
  exact absurd (h.plain k hi hj) (by simp [hk, Kind.isControl])

theorem one (hi : text.kind i = kind) (hkind : kind ≠ .returnWord) :
    Returned text f start p i (i + 1) := by
  intro k hk hlt hword
  obtain rfl : k = i := by omega
  exact absurd (hi.symm.trans hword) hkind

theorem append (h : Returned text f start p i m) (h' : Returned text f start p m j) :
    Returned text f start p i j := by
  intro k hi hj hk
  by_cases hm : k < m
  · exact h k hi hm hk
  · exact h' k (Nat.le_of_not_lt hm) hj hk

/-- A token that does not return, and a stretch behind it. -/
theorem cons (hi : text.kind i = kind) (hkind : kind ≠ .returnWord)
    (h : Returned text f start p (i + 1) j) : Returned text f start p i j :=
  (one hi hkind).append h

/-- A stretch and a token behind it that does not return. -/
theorem snoc (h : Returned text f start p i j) (hj : text.kind j = kind)
    (hkind : kind ≠ .returnWord) : Returned text f start p i (j + 1) :=
  h.append (one hj hkind)

/-- A word that does not return, a stretch without words and another stretch behind it. -/
theorem behind (hi : text.kind i = kind) (hkind : kind ≠ .returnWord)
    (h : text.Uncontrolled (i + 1) m) (h' : Returned text f start p m j) :
    Returned text f start p i j :=
  cons hi hkind ((of_uncontrolled h).append h')

end Returned

/-- A way leads past all statements of a list. -/
theorem Comes.pastStatements {part : BodyPart} (h : WellTyped text f part names i j names') :
    part = .statements → Comes text f start p names i → Comes text f start p names' j := by
  induction h with
  | noStatement => exact fun _ hcomes ↦ hcomes
  | next _ hstatement ih _ => exact fun hpart hcomes ↦ (ih hpart hcomes).past hstatement
  | _ => exact nofun

/-- A way leads to a part of a body that starts at an index, where some names are known. -/
def LeadsTo (text : Text) (f : Option FunctionContext) (start : Names) (p : Nat) (names : Names) :
    BodyPart → Nat → Prop
  | .statement, i | .statements, i | .branches, i => Comes text f start p names i
  | .block, i => ∃ m, Comes text f start p names m ∧ BlockAt text f names m i
  | .cases selector, i => ∃ m, Comes text f start p names m ∧ CasesAt text names m selector i

/-- In a well-typed part that a way leads to, each return returns what its function does. -/
theorem WellTyped.returned {part : BodyPart} (h : WellTyped text f part names i j names') :
    LeadsTo text f start p names part i → Returned text f start p i j := by
  induction h with
  -- A statement without blocks that does not return has no word of control, and nothing to show.
  | «variables» hword hdeclarators hend =>
    exact fun _ ↦ .of_uncontrolled
      ((hword.uncontrolled.trans (hdeclarators.uncontrolled DeclaratorAt.uncontrolled)).snoc hend rfl)
  | constants hconst hword hdeclarators hend =>
    exact fun _ ↦ .of_uncontrolled (((hword.uncontrolled.trans
      (hdeclarators.uncontrolled DeclaratorAt.uncontrolled)).cons hconst rfl).snoc hend rfl)
  | instances hword hname _ hdeclarators hend =>
    exact fun _ ↦ .of_uncontrolled ((((hdeclarators.uncontrolled
      InstanceAt.uncontrolled).cons hname.1 rfl).cons hword rfl).snoc hend rfl)
  | call hcall hend => exact fun _ ↦ .of_uncontrolled (hcall.uncontrolled.snoc hend rfl)
  | assignment hassigned hend =>
    exact fun _ ↦ .of_uncontrolled (hassigned.uncontrolled.snoc hend rfl)
  | count hcount htarget hend =>
    exact fun _ ↦ .of_uncontrolled ((hcount.uncontrolled.trans htarget.uncontrolled).snoc hend rfl)
  | print hword hopen harguments hclose hend =>
    exact fun _ ↦ .of_uncontrolled
      ((((harguments.uncontrolled.cons hopen rfl).cons hword rfl).snoc hclose rfl).snoc hend rfl)
  | @returns names i j g hf hword hreturn hend =>
    intro hcomes k hi hj hk
    obtain rfl | hlt := Nat.eq_or_lt_of_le hi
    · exact ⟨g, names, j, hf, hcomes, hreturn, hend⟩
    · exact absurd ((hreturn.uncontrolled.snoc hend rfl).plain k hlt hj) (by simp [hk, Kind.isControl])
  | @jump names i hword hend =>
    have hne : text.kind i ≠ .returnWord := fun hreturn ↦ by simp [hreturn] at hword
    exact fun _ ↦ (Returned.one rfl hne).snoc hend (by decide)
  -- Where there is a block, the way leads on into it behind the head of the statement.
  | whileLoop hword hguard _ ih =>
    intro hcomes
    exact (ih ⟨_, hcomes, .whileBlock hword hguard⟩).behind hword (by decide) hguard.uncontrolled
  | doLoop hword _ hwhile hguard hend ih =>
    intro hcomes
    have hbody := (ih ⟨_, hcomes, .doBlock hword⟩).cons hword (by decide)
    have hguard := hguard.uncontrolled.snoc hend rfl
    exact hbody.append (.cons hwhile (by decide) (.of_uncontrolled hguard))
  | forLoop hword hheader _ ih =>
    intro hcomes
    exact (ih ⟨_, hcomes, .forBlock hword hheader⟩).behind hword (by decide) hheader.uncontrolled
  | switch hword hopen hselector _ hclose hbrace _ hend ih =>
    intro hcomes
    have hhead := ((hselector.uncontrolled.cons hopen rfl).snoc hclose rfl).snoc hbrace rfl
    have hcases := ih ⟨_, hcomes, hword, hopen, _, hselector, hclose, hbrace, rfl⟩
    exact (hcases.behind hword (by decide) hhead).snoc hend (by decide)
  | conditional _ ih => exact ih
  | otherwise hbranches hword _ ih ihblock =>
    intro hcomes
    exact (ih hcomes).append ((ihblock ⟨_, hcomes, .elseBlock hbranches hword⟩).cons hword (by decide))
  | ifBranch hword hguard _ ih =>
    intro hcomes
    exact (ih ⟨_, hcomes, .ifBlock hword hguard⟩).behind hword (by decide) hguard.uncontrolled
  | elseIfBranch hbranches hword hguard _ ih ihblock =>
    intro hcomes
    have hblock := ihblock ⟨_, hcomes, .elseIfBlock hbranches hword hguard⟩
    exact (ih hcomes).append (hblock.behind hword (by decide) hguard.uncontrolled)
  | block hopen _ hclose ih =>
    rintro ⟨m, hcomes, hblock⟩
    exact ((ih (hcomes.block hblock hopen)).cons hopen (by decide)).snoc hclose (by decide)
  | noStatement => exact fun _ ↦ .of_uncontrolled (.refl _ _)
  | next hstatements _ ih ihstatement =>
    intro hcomes
    exact (ih hcomes).append (ihstatement (Comes.pastStatements hstatements rfl hcomes))
  | noCase => exact fun _ ↦ .of_uncontrolled (.refl _ _)
  | labelled hcases hword hlabel hcolon _ ih ihbody =>
    rintro ⟨m, hcomes, hswitch⟩
    have hlabel := Text.Uncontrolled.one rfl (GoesStraight.isControl_of_label hlabel)
    have hbody := ihbody (hcomes.labelled hswitch hcases hword hcolon)
    exact (ih ⟨m, hcomes, hswitch⟩).append (hbody.behind hword (by decide) (hlabel.snoc hcolon rfl))
  | default hcases hword hcolon _ ih ihbody =>
    rintro ⟨m, hcomes, hswitch⟩
    have hbody := ihbody (hcomes.default hswitch hcases hword hcolon)
    exact (ih ⟨m, hcomes, hswitch⟩).append (hbody.behind hword (by decide) (.one hcolon rfl))

/-! ### Names at the top -/

/-- At the top of a program, some names are known at an index: those at the start and what was
declared at the top since. -/
inductive TopNames (c : Context) (start : Names) : Names → Nat → Prop
  | start : TopNames c start start 0
  | function {names : Names} {i : Nat} {name : Token} {info : FunctionInfo} :
    TopNames c start names i → HeaderAt c i name info → IsBody c info.body →
      TopNames c start names (info.body.stop + 1)
  | struct {names : Names} {i j : Nat} {name : Token} {members : List TypedName} :
    TopNames c start names i → StructAt c i name members j → TopNames c start names (j + 2)
  | statement {names names' : Names} {i j : Nat} :
    TopNames c start names i → WellTyped c.text none .statement names i j names' →
      TopNames c start names' j

/-- In a program that starts with some names, a place in the body of a function is read with others:
from its parameters and the names at the top where it stands, a way through its body leads there. -/
structure ReadWith (c : Context) (start : Names) (name : String) (info : FunctionInfo) (names : Names)
    (k : Nat) : Prop where
  header : ∃ i token top, TopNames c start top i ∧ HeaderAt c i token info ∧ token.lexeme = name ∧
    Comes c.text (some ⟨name, info.returns, info.isEntryPoint⟩)
      (top.declaring (info.parameters.map TypedName.parameter)) info.body.start names k

/-- A return stands at an index in the body of a function and returns what the function does. -/
def ReturnsAt (c : Context) (start : Names) (name : String) (info : FunctionInfo) (k : Nat) : Prop :=
  ∃ names j, ReadWith c start name info names k ∧
    ReturnAt c.text names ⟨name, info.returns, info.isEntryPoint⟩ (k + 1) j ∧ c.kindAt j = .semicolon

/-- From an index on, the returns of a well-typed program stand in the bodies of its functions, and
each returns what its function does. -/
structure ReturnsFrom (c : Context) (start : Names) (i : Nat) (symbols : List Symbol) : Prop where
  inside : ∀ k, i ≤ k → c.kindAt k = .returnWord → ∃ name info p,
    .ofFunction name info p ∈ symbols ∧ info.body.start ≤ k ∧ k < info.body.stop
  returns : ∀ name info p, .ofFunction name info p ∈ symbols → ∀ k, info.body.start ≤ k →
    k < info.body.stop → c.kindAt k = .returnWord → ReturnsAt c start name info k

/-- In front of a program stands something that does not return. -/
theorem ReturnsFrom.behind {c : Context} {symbols : List Symbol} (h : ReturnsFrom c start m symbols)
    (hnone : ∀ k, i ≤ k → k < m → c.kindAt k ≠ .returnWord) : ReturnsFrom c start i symbols := by
  refine ⟨fun k hi hk ↦ ?_, h.returns⟩
  by_cases hm : k < m
  · exact absurd hk (hnone k hi hm)
  · exact h.inside k (Nat.le_of_not_lt hm) hk

/-- One symbol more that is no function. -/
theorem ReturnsFrom.cons {c : Context} {symbols : List Symbol} {symbol : Symbol}
    (h : ReturnsFrom c start i symbols) (hsymbol : ∀ name info p, symbol ≠ .ofFunction name info p) :
    ReturnsFrom c start i (symbol :: symbols) := by
  refine ⟨fun k hi hk ↦ ?_, fun name info p hmem ↦ ?_⟩
  · obtain ⟨name, info, p, hmem, hinside⟩ := h.inside k hi hk
    exact ⟨name, info, p, List.mem_cons_of_mem _ hmem, hinside⟩
  · obtain heq | hmem := List.mem_cons.1 hmem
    · exact absurd heq.symm (hsymbol name info p)
    · exact h.returns name info p hmem

theorem Text.Uncontrolled.ne_returnWord (h : text.Uncontrolled i j) :
    ∀ k, i ≤ k → k < j → text.kind k ≠ .returnWord := by
  intro k hi hj hk
  exact absurd (h.plain k hi hj) (by simp [hk, Kind.isControl])

/-- In a well-typed program, from where the names at the top are known on, the returns stand in
functions and return what these do. -/
theorem WellTypedFrom.returnsFrom {c : Context} {symbols : List Symbol}
    (hlast : ∀ k, c.kindAt k = .eof → c.tokens.size ≤ k + 1)
    (h : WellTypedFrom c names i symbols) :
    TopNames c start names i → ReturnsFrom c start i symbols := by
  induction h with
  | @ended names i hend =>
    refine fun _ ↦ ⟨fun k hi hk ↦ ?_, fun _ _ _ hmem ↦ absurd hmem List.not_mem_nil⟩
    -- from the end of the input on there is no token of another kind
    have hsize := hlast i hend
    have hlt := Context.lt_size_of_ne_eof fun heof ↦ by cases hk.symm.trans heof
    obtain rfl : k = i := by omega
    cases hend.symm.trans hk
  | @function names inner i token info symbols hheader hbody hstatements hclose _ ih =>
    intro htop
    have hrest := ih (htop.function hheader hbody)
    have hreturned := hstatements.returned Comes.here
    refine ⟨fun k hi hk ↦ ?_, fun name other p hmem k hstart hstop hk ↦ ?_⟩
    · by_cases hbehind : info.body.stop + 1 ≤ k
      · obtain ⟨name, other, p, hmem, hinside⟩ := hrest.inside k hbehind hk
        exact ⟨name, other, p, List.mem_cons_of_mem _ hmem, hinside⟩
      refine ⟨token.lexeme, info, token.position, List.mem_cons_self, ?_, ?_⟩
      · by_contra hbefore
        exact (hheader.uncontrolled hbody).ne_returnWord k hi (by omega) hk
      · refine Nat.lt_of_le_of_ne (by omega) ?_
        rintro rfl
        cases hclose.symm.trans hk
    · obtain heq | hmem := List.mem_cons.1 hmem
      · obtain rfl : name = token.lexeme := congrArg Symbol.name heq
        obtain rfl : other = info := SymbolKind.function.inj (congrArg Symbol.kind heq)
        obtain ⟨g, inside, j, hg, hcomes, hreturn, hend⟩ := hreturned k hstart hstop hk
        cases hg
        exact ⟨inside, j, ⟨i, token, names, htop, hheader, rfl, hcomes⟩, hreturn, hend⟩
      · exact hrest.returns name other p hmem k hstart hstop hk
  | @struct names i j token members symbols hstruct _ ih =>
    intro htop
    refine ((ih (htop.struct hstruct)).behind hstruct.uncontrolled.ne_returnWord).cons ?_
    exact fun name info p heq ↦ by cases congrArg Symbol.kind heq
  | statement hstatement _ ih =>
    intro htop
    refine (ih (htop.statement hstatement)).behind fun k hi hj hk ↦ ?_
    obtain ⟨_, _, _, hnone, -⟩ := hstatement.returned Comes.here k hi hj hk
    cases hnone

end

end FrontEnd
