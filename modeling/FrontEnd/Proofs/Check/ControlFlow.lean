import FrontEnd.Proofs.Check.Decides
import FrontEnd.Proofs.Check.Spans
import FrontEnd.Scan

/-!
# The rules of control flow are decided exactly

A check of a part of a body succeeds if the rules of control flow are kept in its skeleton, and it
stops at a violation of one of them if not (`Decides`); nothing else can stop it but a limit.  One
induction over what the text spans shows it for all parts (`Spans.decided`).

The check passes the blocks around a statement down, so the induction needs the rules relative to what
encloses a part (`Skeleton.Allowed`); for a whole body these are the rules as stated
(`Skeleton.legal_iff`).
-/

namespace FrontEnd

open Check

/-- The block a check remembers for what encloses a statement. -/
def Around.block? : Around → Option BlockKind
  | branch => none
  | loop => some .loop
  | switch => some .switch
  | case => some .case

/-- A context in which a statement is checked has the blocks that enclose it. -/
structure Surrounds (c : Context) (isEntryPoint : Bool) (around : List Around) : Prop where
  blocks : c.blocks = around.filterMap Around.block?
  depth : c.blockDepth = 0 ↔ around = []
  entry : c.function.any FunctionContext.isEntryPoint = isEntryPoint

section

variable {c : Context} {s t u : State} {P : Prop} {levels : Nat} {isEntryPoint : Bool}
  {around : List Around}

/-! ### What encloses a statement -/

namespace Surrounds

theorem entering (h : Surrounds c isEntryPoint around) (s : State) :
    Surrounds (c.entering s) isEntryPoint (.branch :: around) :=
  ⟨h.blocks, by simp [Context.entering], h.entry⟩

theorem inLoop (h : Surrounds c isEntryPoint around) (s : State) :
    Surrounds ({ c with blocks := .loop :: c.blocks }.entering s) isEntryPoint (.loop :: around) :=
  ⟨congrArg (BlockKind.loop :: ·) h.blocks, by simp [Context.entering], h.entry⟩

theorem inCase (h : Surrounds c isEntryPoint around) (s : State) :
    Surrounds { c.entering s with blocks := .case :: .switch :: c.blocks } isEntryPoint
      (.case :: .switch :: around) :=
  ⟨congrArg (BlockKind.case :: BlockKind.switch :: ·) h.blocks, by simp [Context.entering], h.entry⟩

theorem jumpTarget?_eq (h : Surrounds c isEntryPoint around) :
    jumpTarget? c.blocks =
      (around.find? fun a ↦ a == .loop || a == .case).bind Around.block? := by
  rw [h.blocks]
  clear h
  unfold jumpTarget?
  induction around with
  | nil => rfl
  | cons a around ih =>
    cases a with
    | branch => exact ih
    | loop | case => rfl
    | switch => exact ih

theorem mem_switch_iff (h : Surrounds c isEntryPoint around) :
    .switch ∈ c.blocks ↔ .switch ∈ around := by
  rw [h.blocks, List.mem_filterMap]
  constructor
  · rintro ⟨a, ha, hblock⟩
    cases a with
    | switch => exact ha
    | branch | loop | case => cases hblock
  · exact fun ha ↦ ⟨.switch, ha, rfl⟩

end Surrounds

/-! ### Statements -/

theorem ordinaryStatement_of_simple {inner : Inner} {token : Token} {check : Check Unit}
    (h : simpleStatement? levels token.kind = some check) :
    ordinaryStatement levels inner token = check := by
  unfold simpleStatement? at h
  unfold ordinaryStatement
  split at h
  case h_12 => cases h
  all_goals
    cases h
    simp only [*]

/-- A statement other than a jump out of a block is decided as its own check is. -/
theorem decides_statement {k : Kind} {check : Check Unit} (hk : c.kindAt s.position = k)
    (heof : k ≠ .eof) (hbreak : k ≠ .breakWord)
    (hcheck : ∀ token : Token, token.kind = k →
      ordinaryStatement levels (statementsBelow levels) token = check)
    (h : Decides check c s P fun _ after ↦ after = t) :
    Decides (statement levels) c s P fun ending after ↦ after = t ∧ ending = .other := by
  have hkind := Context.kind_tokenAt_of_kindAt hk heof
  refine .after (x := peek) rfl ?_
  rw [if_neg (by rw [hkind]; exact hbreak), hcheck _ hkind]
  refine .andThen (h.mono ?_)
  rintro _ _ rfl
  exact ⟨_, _, rfl, rfl, rfl⟩

theorem decides_breakStatement (h : Surrounds c isEntryPoint around)
    (hword : c.kindAt s.position = .breakWord) (hend : c.kindAt (s.position + 1) = .semicolon) :
    Decides (statement levels) c s (.loop ∈ around ∨ .case ∈ around) fun ending after ↦
      after = s.movedTo (s.position + 2) ∧ ending = .jumpOut := by
  have hkind := Context.kind_tokenAt_of_kindAt hword (by simp)
  refine .after (x := peek) rfl ?_
  rw [if_pos hkind]
  refine .andThen (.after (runFrom_advance_of_kindAt hword (by simp)) (.after (x := read) rfl ?_))
  rw [h.jumpTarget?_eq]
  cases hfind : around.find? fun a ↦ a == .loop || a == .case with
  | none =>
    rw [List.find?_eq_none] at hfind
    refine .violateAt_then rfl _ ?_
    rintro (hloop | hcase)
    · exact hfind _ hloop rfl
    · exact hfind _ hcase rfl
  | some a =>
    have hmem := List.mem_of_find?_eq_some hfind
    have ha := List.find?_some hfind
    have hallowed : Around.loop ∈ around ∨ Around.case ∈ around := by
      cases a with
      | loop => exact .inl hmem
      | case => exact .inr hmem
      | branch | switch => cases ha
    have hblock : (Around.block? a).isNone = false := by
      cases a with
      | loop | case => rfl
      | branch | switch => cases ha
    rw [Option.bind_some, hblock]
    refine (Decides.of_run (runFrom_mark hend (by simp)) ?_).iff (iff_of_true trivial hallowed)
    exact ⟨_, _, rfl, rfl, rfl⟩

theorem decides_continueStatement (h : Surrounds c isEntryPoint around)
    (hword : c.kindAt s.position = .continueWord) (hend : c.kindAt (s.position + 1) = .semicolon) :
    Decides continueStatement c s
      (around.find? (fun a ↦ a == .loop || a == .case) = some .loop) fun _ after ↦
      after = s.movedTo (s.position + 2) := by
  refine .after (runFrom_advance_of_kindAt hword (by simp)) (.after (x := read) rfl ?_)
  rw [h.jumpTarget?_eq]
  cases hfind : around.find? fun a ↦ a == .loop || a == .case with
  | none => exact .violateAt rfl _ (by simp)
  | some a =>
    have ha := List.find?_some hfind
    cases a with
    | loop => exact (Decides.of_run (runFrom_mark hend (by simp)) rfl).iff (by simp)
    | case => exact .violateAt rfl _ (by simp)
    | branch | switch => cases ha

theorem decides_endStatement (h : Surrounds c isEntryPoint around)
    (hword : c.kindAt s.position = .endWord) (hend : c.kindAt (s.position + 1) = .semicolon) :
    Decides endStatement c s
      ((isEntryPoint ∧ around = []) ∧ c.kindAt (s.position + 2) = .rightBrace) fun _ after ↦
      after = s.movedTo (s.position + 2) := by
  refine .after (runFrom_advance_of_kindAt hword (by simp)) (.after (x := read) rfl ?_)
  rw [h.entry]
  have hplace : (isEntryPoint && c.blockDepth == 0) = true ↔ isEntryPoint ∧ around = [] := by
    rw [Bool.and_eq_true, beq_iff_eq, h.depth]
  split
  next hallowed =>
    rw [hplace] at hallowed
    refine .after (runFrom_mark hend (by simp)) (.after (x := next? .rightBrace) rfl ?_)
    split
    next hlast =>
      have hlast : c.kindAt (s.position + 2) = .rightBrace := by simpa using hlast
      exact Decides.iff (c := c) (.pure rfl) (iff_of_true trivial ⟨hallowed, hlast⟩)
    next hmore => exact .violateAt rfl _ fun h ↦ hmore (by simpa using h.2)
  next hrefused =>
    rw [hplace] at hrefused
    exact .violateAt_then rfl _ fun h ↦ hrefused h.1

/-! ### All parts -/

/-- One round of a sequence of statements. -/
def statementRound (levels : Nat) (terminators : List Kind) (last : Option Ending) :
    Check (ForInStep (Option Ending)) := do
  let kind ← peekKind
  if terminators.contains kind then return .done last
  if kind = .eof then violate .unexpectedEnd
  return .yield (some (← statement levels))

/-- The rounds of a sequence of statements, with a number of them left. -/
def statementRounds (levels : Nat) (terminators : List Kind) :
    Nat → Option Ending → Check (Option Ending) :=
  roundsFrom (return true) (statementRound levels terminators)

/-- One round of the further branches of a conditional. -/
def branchRound (levels : Nat) (_ : Unit) : Check (ForInStep Unit) := do
  discard advance
  condition levels .elseIfBlock
  block (statementsBelow levels) "else-if block"
  return .yield ()

/-- What follows the first block of a conditional, with a number of rounds left. -/
def branchesFrom (levels left : Nat) : Check Unit := do
  roundsFrom (next? .elseIfWord) (branchRound levels) left ()
  if ← next? .elseWord then
    discard advance
    block (statementsBelow levels) "else block"

/-- The rounds of a switch, with a number of them left. -/
def switchRounds (levels : Nat) (selector : DataType) : Nat → SwitchSoFar → Check SwitchSoFar :=
  roundsFrom (return true) (switchRound (statementsBelow levels) selector)

/-- The check of each part of a skeleton decides the rules for what is inside it. -/
def Decided (isEntryPoint : Bool) (levels : Nat) (c : Context) (s : State) :
    {role : Role} → Skeleton role → State → Prop
  | .statement, x, t => ∀ around, Surrounds c isEntryPoint around →
    Decides (statement levels) c s
      (x.Allowed isEntryPoint around ∧ (x = .ends → c.kindAt t.position = .rightBrace))
      fun ending after ↦ after = t ∧ ending = x.ending
  | .statements, x, t => ∀ around terminators left last, Surrounds c isEntryPoint around →
    terminators ⊆ [.caseWord, .defaultWord, .rightBrace] → c.kindAt t.position ∈ terminators →
      (around = [] → c.kindAt t.position = .rightBrace) →
        Decides (statementRounds levels terminators left last) c s
          (x.Allowed isEntryPoint around ∧ .ends ∉ x.list.dropLast)
          fun value after ↦ after = t ∧ value = x.endingAfter last
  | .block label, x, t => ∀ a around, (∀ s, Surrounds (c.entering s) isEntryPoint (a :: around)) →
    Decides (block (statementsBelow levels) label) c s (x.Allowed isEntryPoint (a :: around))
      fun _ after ↦ after = t
  | .branches, x, t => ∀ around left, Surrounds c isEntryPoint around →
    Decides (branchesFrom levels left) c s (x.Allowed isEntryPoint around) fun _ after ↦ after = t
  | .cases, x, t => ∀ around selector left soFar, (∀ s, Surrounds
      { c.entering s with blocks := .case :: c.blocks } isEntryPoint (.case :: .switch :: around)) →
    Decides (switchRounds levels selector left soFar) c s
      (x.InOrder selector soFar ∧ x.Allowed isEntryPoint (.switch :: around)) fun _ after ↦ after = t

theorem ifStatement_eq (levels : Nat) : ifStatement levels (statementsBelow levels) = (do
    discard advance
    condition levels .ifBlock
    block (statementsBelow levels) "if block"
    branchesFrom levels (← read).limits.scan) := by
  simp only [ifStatement, branchesFrom, roundsWhile, bind_assoc]
  rfl

theorem forStatement_eq (levels : Nat) : forStatement levels (statementsBelow levels) = (do
    discard advance
    forHeader levels
    inBlock .loop (block (statementsBelow levels) "for block")) := by
  simp only [forStatement, forHeader, bind_assoc]
  refine bind_congr fun _ ↦ bind_congr fun _ ↦ bind_congr fun _ ↦ bind_congr fun _ ↦
    bind_congr fun _ ↦ bind_congr fun _ ↦ bind_congr fun _ ↦ bind_congr fun _ ↦ ?_
  split
  · simp only [bind_assoc]
  · rfl

/-- The rule for a statement that is no end of the program is that for what is inside it. -/
theorem decides_compound {x : Skeleton .statement} {k : Kind} {check : Check Unit}
    (hk : c.kindAt s.position = k) (heof : k ≠ .eof) (hbreak : k ≠ .breakWord)
    (hcheck : ∀ token : Token, token.kind = k →
      ordinaryStatement levels (statementsBelow levels) token = check)
    (hother : x ≠ .ends ∧ x.ending = .other)
    (h : Decides check c s (x.Allowed isEntryPoint around) fun _ after ↦ after = t) :
    Decides (statement levels) c s
      (x.Allowed isEntryPoint around ∧ (x = .ends → c.kindAt t.position = .rightBrace))
      fun ending after ↦ after = t ∧ ending = x.ending := by
  rw [hother.2]
  refine (decides_statement hk heof hbreak hcheck h).iff ?_
  exact (and_iff_left fun hends ↦ absurd hends hother.1).symm

section

variable {first : Skeleton (.block "if block")} {more : Skeleton .branches} {v : State}

theorem decided_conditional (hword : c.kindAt s.position = .ifWord)
    (hcondition : (condition levels .ifBlock).runFrom c (s.movedTo (s.position + 1)) = (.ok (), t))
    (hfirst : Decided isEntryPoint levels c t first u) (hmore : Decided isEntryPoint levels c u more v) :
    Decided isEntryPoint levels c s (.conditional first more) v := by
  intro around hc
  have hcheck (token : Token) (htoken : token.kind = .ifWord) :
      ordinaryStatement levels (statementsBelow levels) token =
        ifStatement levels (statementsBelow levels) := by
    rw [ordinaryStatement, htoken]
  refine decides_compound hword (by simp) (by simp) hcheck (by simp [Skeleton.ending])
    (Decides.iff ?_ Skeleton.allowed_conditional.symm)
  rw [ifStatement_eq]
  refine .after (runFrom_skip hword (by simp)) <| .after hcondition <| .bind <|
    (hfirst _ _ fun s ↦ hc.entering s).mono ?_
  rintro _ _ rfl
  exact .after (x := read) rfl (hmore around _ hc)

theorem decided_elseIf {body : Skeleton (.block "else-if block")}
    (hword : c.kindAt s.position = .elseIfWord)
    (hcondition : (condition levels .elseIfBlock).runFrom c (s.movedTo (s.position + 1)) =
      (.ok (), t))
    (hbody : Decided isEntryPoint levels c t body u) (hmore : Decided isEntryPoint levels c u more v) :
    Decided isEntryPoint levels c s (.elseIf body more) v := by
  intro around left hc
  have hdue : (next? .elseIfWord).runFrom c s = (.ok true, s) := by
    show ((Except.ok (c.kindAt s.position == .elseIfWord), s) : Except SemanticError Bool × State) = _
    rw [hword]
    rfl
  refine decides_round hdue fun left ↦ ?_
  simp only [branchRound, bind_assoc, pure_bind]
  refine Decides.iff ?_ Skeleton.allowed_elseIf.symm
  refine .after (runFrom_skip hword (by simp)) <| .after hcondition <| .bind <|
    (hbody _ _ fun s ↦ hc.entering s).mono ?_
  rintro _ _ rfl
  exact hmore around left hc

/-- The last block of a conditional is due where no further condition stands. -/
theorem runFrom_branchRounds (h : c.kindAt s.position ≠ .elseIfWord) (left : Nat) :
    (roundsFrom (next? .elseIfWord) (branchRound levels) left ()).runFrom c s = (.ok (), s) := by
  refine runFrom_rounds_of_not_due ?_
  show ((Except.ok (c.kindAt s.position == .elseIfWord), s) : Except SemanticError Bool × State) = _
  rw [beq_eq_false_iff_ne.2 h]

theorem decided_otherwise {body : Skeleton (.block "else block")}
    (hword : c.kindAt s.position = .elseWord)
    (hbody : Decided isEntryPoint levels c (s.movedTo (s.position + 1)) body t) :
    Decided isEntryPoint levels c s (.otherwise body) t := by
  intro around left hc
  refine .after (runFrom_branchRounds (by simp [hword]) left) (.after (x := next? .elseWord) rfl ?_)
  rw [hword]
  exact .after (runFrom_skip hword (by simp)) (hbody _ _ fun s ↦ hc.entering s)

theorem decided_noBranch (helseIf : c.kindAt s.position ≠ .elseIfWord)
    (helse : c.kindAt s.position ≠ .elseWord) : Decided isEntryPoint levels c s .noBranch s := by
  intro around left hc
  refine .after (runFrom_branchRounds helseIf left) (.after (x := next? .elseWord) rfl ?_)
  rw [beq_eq_false_iff_ne.2 helse]
  exact Decides.iff (c := c) (.pure rfl) (iff_of_true trivial Skeleton.allowed_noBranch)

end

theorem decided_whileLoop {body : Skeleton (.block "while block")}
    (hword : c.kindAt s.position = .whileWord)
    (hcondition : (condition levels .whileLoop).runFrom c (s.movedTo (s.position + 1)) = (.ok (), t))
    (hbody : Decided isEntryPoint levels { c with blocks := .loop :: c.blocks } t body u) :
    Decided isEntryPoint levels c s (.whileLoop body) u := by
  intro around hc
  have hcheck (token : Token) (htoken : token.kind = .whileWord) :
      ordinaryStatement levels (statementsBelow levels) token =
        whileStatement levels (statementsBelow levels) := by
    rw [ordinaryStatement, htoken]
  refine decides_compound hword (by simp) (by simp) hcheck (by simp [Skeleton.ending])
    (Decides.iff ?_ Skeleton.allowed_whileLoop.symm)
  exact .after (runFrom_skip hword (by simp)) <| .after hcondition <|
    hbody _ _ fun s ↦ hc.inLoop s

theorem decided_doLoop {body : Skeleton (.block "do block")} (hword : c.kindAt s.position = .doWord)
    (hbody : Decided isEntryPoint levels { c with blocks := .loop :: c.blocks }
      (s.movedTo (s.position + 1)) body t)
    (hwhile : c.kindAt t.position = .whileWord)
    (hcondition : (condition levels .doLoop).runFrom c (t.movedTo (t.position + 1)) = (.ok (), u))
    (hend : c.kindAt u.position = .semicolon) :
    Decided isEntryPoint levels c s (.doLoop body) (u.movedTo (u.position + 1)) := by
  intro around hc
  have hcheck (token : Token) (htoken : token.kind = .doWord) :
      ordinaryStatement levels (statementsBelow levels) token =
        doStatement levels (statementsBelow levels) := by
    rw [ordinaryStatement, htoken]
  refine decides_compound hword (by simp) (by simp) hcheck (by simp [Skeleton.ending])
    (Decides.iff ?_ Skeleton.allowed_doLoop.symm)
  have hblock := hbody .loop around fun s ↦ hc.inLoop s
  refine .after (runFrom_skip hword (by simp)) <| .andThen <| Decides.mono hblock ?_
  rintro _ _ rfl
  refine ⟨(), _, ?_, rfl⟩
  rw [Check.runFrom_bind, runFrom_mark hwhile (by simp)]
  show (condition levels .doLoop >>= fun _ ↦ discard (expectMark .semicolon)).runFrom c _ = _
  rw [Check.runFrom_bind, hcondition]
  exact runFrom_mark hend (by simp)

theorem decided_forLoop {body : Skeleton (.block "for block")}
    (hword : c.kindAt s.position = .forWord)
    (hheader : (forHeader levels).runFrom c (s.movedTo (s.position + 1)) = (.ok (), t))
    (hbody : Decided isEntryPoint levels { c with blocks := .loop :: c.blocks } t body u) :
    Decided isEntryPoint levels c s (.forLoop body) u := by
  intro around hc
  have hcheck (token : Token) (htoken : token.kind = .forWord) :
      ordinaryStatement levels (statementsBelow levels) token =
        forStatement levels (statementsBelow levels) := by
    rw [ordinaryStatement, htoken]
  refine decides_compound hword (by simp) (by simp) hcheck (by simp [Skeleton.ending])
    (Decides.iff ?_ Skeleton.allowed_forLoop.symm)
  rw [forStatement_eq]
  exact .after (runFrom_skip hword (by simp)) <| .after hheader <| hbody _ _ fun s ↦ hc.inLoop s

/-! ### Sequences of statements -/

section

variable {terminators : List Kind} {last : Option Ending}

theorem runFrom_statementRound (h : c.kindAt s.position ∈ terminators) :
    (statementRound levels terminators last).runFrom c s = (.ok (.done last), s) := by
  have hcontains : terminators.contains (c.kindAt s.position) = true := by simpa using h
  rw [statementRound, Check.runFrom_bind]
  show (if terminators.contains (c.kindAt s.position) = true then pure (.done last) else _ :
    Check (ForInStep (Option Ending))).runFrom c s = _
  rw [if_pos hcontains]
  rfl

theorem runFrom_statementRound_of_not_mem (h : c.kindAt s.position ∉ terminators)
    (heof : c.kindAt s.position ≠ .eof) :
    (statementRound levels terminators last).runFrom c s =
      (do return .yield (some (← statement levels)) : Check _).runFrom c s := by
  rw [statementRound, Check.runFrom_bind]
  show (if terminators.contains (c.kindAt s.position) = true then _ else
    if c.kindAt s.position = .eof then _ else _ : Check (ForInStep (Option Ending))).runFrom c s = _
  rw [if_neg (by simpa using h), if_neg heof]

end

theorem decided_empty : Decided isEntryPoint levels c s .empty s := by
  intro around terminators left last _ _ hend _
  have hrule : Skeleton.empty.Allowed isEntryPoint around ∧
      .ends ∉ Skeleton.empty.list.dropLast := by simp [Skeleton.list]
  refine Decides.iff (decides_rounds (P := True) rfl fun left ↦ ?_) (iff_of_true trivial hrule)
  refine .after (runFrom_statementRound hend) (.pure ⟨rfl, ?_⟩)
  rw [Skeleton.endingAfter]

theorem decided_next {first : Skeleton .statement} {rest : Skeleton .statements}
    (hspan : Spans levels c s first t) (hspans : Spans levels c t rest u)
    (hfirst : Decided isEntryPoint levels c s first t)
    (hrest : Decided isEntryPoint levels c t rest u) :
    Decided isEntryPoint levels c s (.next first rest) u := by
  intro around terminators left last hc hterminators hend hlast
  obtain ⟨hbegins, heof⟩ := hspan.begins
  refine Decides.iff (decides_rounds rfl fun left ↦ ?_) (Skeleton.allowed_next_iff
    (P := c.kindAt t.position = .rightBrace) fun hnil ↦ hspans.rightBrace_iff (hlast hnil))
  refine .congr (runFrom_statementRound_of_not_mem (fun h ↦ hbegins (hterminators h)) heof) ?_
  simp only [bind_assoc, pure_bind]
  refine .bind ((hfirst around hc).mono ?_)
  rintro _ _ ⟨rfl, rfl⟩
  refine (hrest around terminators left _ hc hterminators hend hlast).mono fun value after h ↦ ?_
  rwa [Skeleton.endingAfter]

theorem decided_braces {label : String} {body : Skeleton .statements}
    (hopen : c.kindAt s.position = .leftBrace)
    (hbody : Decided isEntryPoint levels (c.entering s)
      ((s.movedTo (s.position + 1)).entered c label) body t)
    (hclose : c.kindAt t.position = .rightBrace) :
    Decided isEntryPoint (levels + 1) c s (.braces body : Skeleton (.block label))
      ((t.released s.arena.size).movedTo (t.position + 1)) := by
  intro a around hc
  have hstatements := hbody (a :: around) [.rightBrace] c.limits.scan none (hc s) (by simp)
    (List.mem_singleton.2 hclose) (fun h ↦ by cases h)
  rw [Skeleton.ends_not_mem_dropLast] at hstatements
  refine .after (runFrom_mark hopen (by simp)) <| .andThen <| .discard <| .inScope <|
    .after (x := read) rfl <| Decides.mono hstatements ?_
  rintro _ _ ⟨rfl, -⟩
  exact ⟨(), _, runFrom_mark hclose (by simp), rfl⟩

/-! ### Switches -/

section

variable {inner : Inner} {selector : DataType} {soFar : SwitchSoFar}

theorem runFrom_switchRound_end (h : c.kindAt s.position = .rightBrace) :
    (switchRound inner selector soFar).runFrom c s = (.ok (.done soFar), s) := by
  have hpeek : peek.runFrom c s = (.ok (c.tokenAt s.position), s) := rfl
  rw [switchRound, Check.runFrom_bind, hpeek]
  simp only [Context.kind_tokenAt_of_kindAt h (by simp)]
  rfl

theorem runFrom_switchRound_case (h : c.kindAt s.position = .caseWord) :
    (switchRound inner selector soFar).runFrom c s = (do
      discard advance
      let label ← caseLabel selector soFar.labels
      caseBlock inner (c.tokenAt s.position) (.labelled label.lexeme)
      return .yield { soFar with labels := label.lexeme :: soFar.labels } : Check _).runFrom c s := by
  have hpeek : peek.runFrom c s = (.ok (c.tokenAt s.position), s) := rfl
  rw [switchRound, Check.runFrom_bind, hpeek]
  simp only [Context.kind_tokenAt_of_kindAt h (by simp)]

theorem runFrom_switchRound_default (h : c.kindAt s.position = .defaultWord) :
    (switchRound inner selector soFar).runFrom c s = (do
      if soFar.hadDefault then violateAt .multipleDefaults (c.tokenAt s.position)
      discard advance
      caseBlock inner (c.tokenAt s.position) .default
      return .yield { soFar with hadDefault := true } : Check _).runFrom c s := by
  have hpeek : peek.runFrom c s = (.ok (c.tokenAt s.position), s) := rfl
  rw [switchRound, Check.runFrom_bind, hpeek]
  simp only [Context.kind_tokenAt_of_kindAt h (by simp)]

end

theorem decided_noCase (hclose : c.kindAt s.position = .rightBrace) :
    Decided isEntryPoint levels c s .noCase s := by
  intro around selector left soFar hc
  have hrule : Skeleton.noCase.InOrder selector soFar ∧
      Skeleton.noCase.Allowed isEntryPoint (.switch :: around) := by simp [Skeleton.InOrder]
  refine Decides.iff (decides_rounds (P := True) rfl fun left ↦ ?_) (iff_of_true trivial hrule)
  exact .after (runFrom_switchRound_end hclose) (.pure rfl)

/-- A block of a switch is decided: what is inside it, and whether it ends with a jump out. -/
theorem decides_caseBlock {body : Skeleton .statements} {a : Around} {keyword : Token}
    {which : CaseBlock}
    (hc : Surrounds { c.entering s with blocks := .case :: c.blocks } isEntryPoint (a :: around))
    (hcolon : c.kindAt s.position = .colon)
    (hbody : Decided isEntryPoint levels { c.entering s with blocks := .case :: c.blocks }
      ((s.movedTo (s.position + 1)).entered c "case block") body t)
    (hend : c.kindAt t.position ∈ [.caseWord, .defaultWord, .rightBrace]) :
    Decides (caseBlock (statementsBelow (levels + 1)) keyword which) c s
      (body.Allowed isEntryPoint (a :: around) ∧ body.list.getLast? = some .breaks)
      fun _ after ↦ after = t.released s.arena.size := by
  have hstatements := hbody (a :: around) [.caseWord, .defaultWord, .rightBrace] c.limits.scan none
    hc (List.Subset.refl _) hend (fun h ↦ by cases h)
  rw [Skeleton.ends_not_mem_dropLast] at hstatements
  refine .after (runFrom_mark hcolon (by simp)) <| .bind <| .inScope <| .inBlock <|
    .after (x := read) rfl <| Decides.mono hstatements ?_
  rintro _ _ ⟨rfl, rfl⟩
  rw [← Skeleton.endingAfter_eq_jumpOut_iff]
  split
  next hmissing => exact .violateAt rfl _ hmissing
  next hthere => exact Decides.iff (c := c) (.pure rfl) (iff_of_true trivial (by simpa using hthere))

theorem decides_caseLabel {selector : DataType} {labels : List String}
    (hlabel : c.kindAt s.position ≠ .eof) :
    Decides (caseLabel selector labels) c s
      ((c.tokenAt s.position).kind ∈ labelKinds selector ∧ (c.tokenAt s.position).lexeme ∉ labels)
      fun label after ↦ label = c.tokenAt s.position ∧ after = s.movedTo (s.position + 1) := by
  refine .after (runFrom_advance_of_kindAt rfl hlabel) ?_
  by_cases hkind : (c.tokenAt s.position).kind ∈ labelKinds selector
  · have hcontains : (labelKinds selector).contains (c.tokenAt s.position).kind = true := by
      simpa using hkind
    rw [if_pos hcontains]
    split
    next hrepeated => exact .violateAt_then rfl _ fun h ↦ h.2 (by simpa using hrepeated)
    next hfresh =>
      exact Decides.iff (c := c) (.pure ⟨rfl, rfl⟩)
        (iff_of_true trivial ⟨hkind, by simpa using hfresh⟩)
  · rw [if_neg (by simpa using hkind)]
    exact .violateAt_then rfl _ fun h ↦ hkind h.1

theorem decided_labelled {body : Skeleton .statements} {more : Skeleton .cases}
    (hword : c.kindAt s.position = .caseWord) (hlabel : c.kindAt (s.position + 1) ≠ .eof)
    (hcolon : c.kindAt (s.position + 2) = .colon)
    (hbody : Decided isEntryPoint levels { c.entering s with blocks := .case :: c.blocks }
      ((s.movedTo (s.position + 3)).entered c "case block") body t)
    (hend : c.kindAt t.position ∈ [.caseWord, .defaultWord, .rightBrace])
    (hmore : Decided isEntryPoint (levels + 1) c (t.released s.arena.size) more u) :
    Decided isEntryPoint (levels + 1) c s (.labelled (c.tokenAt (s.position + 1)) body more) u := by
  intro around selector left soFar hc
  have hrule : (Skeleton.labelled (c.tokenAt (s.position + 1)) body more).InOrder selector soFar ∧
      (Skeleton.labelled (c.tokenAt (s.position + 1)) body more).Allowed isEntryPoint
        (.switch :: around) ↔
      ((c.tokenAt (s.position + 1)).kind ∈ labelKinds selector ∧
        (c.tokenAt (s.position + 1)).lexeme ∉ soFar.labels) ∧
      (body.Allowed isEntryPoint (.case :: .switch :: around) ∧
        body.list.getLast? = some .breaks) ∧
      more.InOrder selector
        { soFar with labels := (c.tokenAt (s.position + 1)).lexeme :: soFar.labels } ∧
      more.Allowed isEntryPoint (.switch :: around) := by
    rw [Skeleton.InOrder, Skeleton.allowed_labelled]
    grind
  refine Decides.iff (decides_rounds rfl fun left ↦ ?_) hrule.symm
  refine .congr (runFrom_switchRound_case hword) ?_
  simp only [bind_assoc, pure_bind]
  refine .after (runFrom_skip hword (by simp)) (.bind ((decides_caseLabel hlabel).mono ?_))
  rintro _ _ ⟨rfl, rfl⟩
  refine .bind ((decides_caseBlock (s := s.movedTo (s.position + 2)) (hc s) hcolon hbody hend).mono ?_)
  rintro _ _ rfl
  exact hmore around selector left _ hc

theorem decided_default {body : Skeleton .statements} {more : Skeleton .cases}
    (hword : c.kindAt s.position = .defaultWord) (hcolon : c.kindAt (s.position + 1) = .colon)
    (hbody : Decided isEntryPoint levels { c.entering s with blocks := .case :: c.blocks }
      ((s.movedTo (s.position + 2)).entered c "case block") body t)
    (hend : c.kindAt t.position ∈ [.caseWord, .defaultWord, .rightBrace])
    (hmore : Decided isEntryPoint (levels + 1) c (t.released s.arena.size) more u) :
    Decided isEntryPoint (levels + 1) c s (.default body more) u := by
  intro around selector left soFar hc
  have hrule : (Skeleton.default body more).InOrder selector soFar ∧
      (Skeleton.default body more).Allowed isEntryPoint (.switch :: around) ↔
      soFar.hadDefault = false ∧
      (body.Allowed isEntryPoint (.case :: .switch :: around) ∧
        body.list.getLast? = some .breaks) ∧
      more.InOrder selector { soFar with hadDefault := true } ∧
      more.Allowed isEntryPoint (.switch :: around) := by
    rw [Skeleton.InOrder, Skeleton.allowed_default]
    grind
  refine Decides.iff (decides_rounds rfl fun left ↦ ?_) hrule.symm
  refine .congr (runFrom_switchRound_default hword) ?_
  cases hhad : soFar.hadDefault with
  | true => exact .violateAt_then rfl _ (by simp)
  | false =>
    simp only [Bool.false_eq_true, if_false, bind_assoc, pure_bind, true_and]
    refine .after (runFrom_skip hword (by simp)) ?_
    refine .bind ((decides_caseBlock (s := s.movedTo (s.position + 1)) (hc s) hcolon hbody hend).mono ?_)
    rintro _ _ rfl
    exact hmore around selector left _ hc

theorem decided_switch {selector : DataType} {opening : Token} {cases : Skeleton .cases}
    (hword : c.kindAt s.position = .switchWord)
    (hselector : (inParentheses levels).runFrom c (s.movedTo (s.position + 1)) =
      (.ok (selector, opening), t))
    (htype : selector = .int ∨ selector = .char) (hopen : c.kindAt t.position = .leftBrace)
    (hcases : Decided isEntryPoint levels { c with blocks := .switch :: c.blocks }
      (t.movedTo (t.position + 1)) cases u)
    (hclose : c.kindAt u.position = .rightBrace) :
    Decided isEntryPoint levels c s (.switch selector cases) (u.movedTo (u.position + 1)) := by
  intro around hc
  have hcheck (token : Token) (htoken : token.kind = .switchWord) :
      ordinaryStatement levels (statementsBelow levels) token =
        switchStatement levels (statementsBelow levels) := by
    rw [ordinaryStatement, htoken]
  refine decides_compound hword (by simp) (by simp) hcheck (by simp [Skeleton.ending])
    (Decides.iff ?_ Skeleton.allowed_switch.symm)
  rw [Skeleton.ordered_iff, and_assoc]
  refine .after (runFrom_advance_of_kindAt hword (by simp)) (.after (x := read) rfl ?_)
  -- Inside of another switch this one is refused at once; otherwise its cases decide.
  by_cases hnested : Around.switch ∈ around
  · have hcontains : c.blocks.contains .switch = true := by
      simpa using hc.mem_switch_iff.2 hnested
    rw [if_pos hcontains]
    exact .violateAt_then rfl _ fun h ↦ h.1 hnested
  · have hfree : ¬ c.blocks.contains .switch = true := by
      simpa using fun h ↦ hnested (hc.mem_switch_iff.1 h)
    rw [if_neg hfree]
    have htyped : ¬ (selector ≠ .int && selector ≠ .char) = true := by
      obtain rfl | rfl := htype <;> simp
    refine Decides.iff (.after hselector ?_) (and_iff_right hnested).symm
    dsimp only
    rw [if_neg htyped]
    have hrounds := hcases around selector c.limits.scan ⟨[], false⟩ fun s ↦ hc.inCase s
    refine .after (runFrom_mark hopen (by simp)) <| .andThen <| .discard <| .inBlock <|
      .after (x := read) rfl <| Decides.mono hrounds ?_
    rintro _ _ rfl
    exact ⟨(), _, runFrom_mark hclose (by simp), rfl⟩

/-! ### Whole bodies -/

/-- What a text spans is decided: its check succeeds if the rules of control flow are kept. -/
theorem Spans.decided {role : Role} {x : Skeleton role} (h : Spans levels c s x t) :
    Decided isEntryPoint levels c s x t := by
  induction h with
  -- A statement without a body is decided on its own; the others from what they contain.
  | simple hcheck hrun =>
    intro around hc
    obtain ⟨-, heof, hbreak⟩ := not_mem_of_simpleStatement? hcheck
    refine decides_compound rfl heof hbreak (fun token htoken ↦ ?_) (by simp [Skeleton.ending])
      ((Decides.of_run hrun rfl).iff (iff_of_true trivial ?_))
    · exact ordinaryStatement_of_simple (htoken ▸ hcheck)
    · simp [Skeleton.Allowed, Skeleton.inside, Skeleton.AllowedHere]
  | returns hword hrun =>
    intro around hc
    refine decides_compound hword (by simp) (by simp) (fun token htoken ↦ ?_)
      (by simp [Skeleton.ending]) ((Decides.of_run hrun rfl).iff (iff_of_true trivial ?_))
    · rw [ordinaryStatement, htoken]
    · simp [Skeleton.Allowed, Skeleton.inside, Skeleton.AllowedHere]
  | breaks hword hend =>
    intro around hc
    refine (decides_breakStatement hc hword hend).iff ?_
    simp [Skeleton.Allowed, Skeleton.inside, Skeleton.AllowedHere]
  | continues hword hend =>
    intro around hc
    refine decides_compound hword (by simp) (by simp) (fun token htoken ↦ ?_)
      (by simp [Skeleton.ending]) ((decides_continueStatement hc hword hend).iff ?_)
    · rw [ordinaryStatement, htoken]
    · simp [Skeleton.Allowed, Skeleton.inside, Skeleton.AllowedHere]
  | ends hword hend =>
    intro around hc
    refine (decides_statement hword (by simp) (by simp) (fun token htoken ↦ ?_)
      (decides_endStatement hc hword hend)).iff ?_
    · rw [ordinaryStatement, htoken]
    · simp [Skeleton.Allowed, Skeleton.inside, Skeleton.AllowedHere]
  | conditional hword hcondition _ _ ihfirst ihmore =>
    exact decided_conditional hword hcondition ihfirst ihmore
  | whileLoop hword hcondition _ ih => exact decided_whileLoop hword hcondition ih
  | doLoop hword _ hwhile hcondition hend ih => exact decided_doLoop hword ih hwhile hcondition hend
  | forLoop hword hheader _ ih => exact decided_forLoop hword hheader ih
  | switch hword hselector htype hopen _ hclose ih =>
    exact decided_switch hword hselector htype hopen ih hclose
  | empty => exact decided_empty
  | next hfirst hrest ihfirst ihrest => exact decided_next hfirst hrest ihfirst ihrest
  | braces hopen _ hclose ih => exact decided_braces hopen ih hclose
  | noBranch helseIf helse => exact decided_noBranch helseIf helse
  | elseIf hword hcondition _ _ ihbody ihmore => exact decided_elseIf hword hcondition ihbody ihmore
  | otherwise hword _ ih => exact decided_otherwise hword ih
  | noCase hclose => exact decided_noCase hclose
  | labelled hword hlabel hcolon _ hend _ ihbody ihmore =>
    exact decided_labelled hword hlabel hcolon ihbody (by simpa using hend) ihmore
  | default hword hcolon _ hend _ ihbody ihmore =>
    exact decided_default hword hcolon ihbody (by simpa using hend) ihmore

/-- The rules of control flow are decided exactly.

Take the body of a function and the text it spans, with everything in it as its check wants it but for
the rules of control flow.  If no limit is reached, the body is accepted if and only if these rules
are kept, and what else it is refused for is one of them. -/
theorem bodyStatements_iff_legal {limits : Limits} {tokens : List Token} {name : String}
    {info : FunctionInfo} {body : Skeleton .statements} {s t : State}
    (hspans : Spans limits.nesting (inFunction name info (.top limits tokens))
      { s with position := info.body.start, sawReturn := false } body t)
    (hstop : t.position = info.body.stop)
    (hclose : (Context.top limits tokens).kindAt info.body.stop = .rightBrace)
    (hlimit : ∀ e, ((bodyStatements name info).runFrom (.top limits tokens) s).1 = .error e →
      e.violation.isLimit = false) :
    (((bodyStatements name info).runFrom (.top limits tokens) s).1 = .ok () ↔
        body.Legal info.isEntryPoint) ∧
      ∀ e, ((bodyStatements name info).runFrom (.top limits tokens) s).1 = .error e →
        e.violation.isControl := by
  -- A function body is surrounded by nothing, and ends at its own brace.
  have hc : Surrounds (inFunction name info (.top limits tokens)) info.isEntryPoint [] :=
    ⟨rfl, iff_of_true rfl rfl, rfl⟩
  have hclosed : (inFunction name info (.top limits tokens)).kindAt t.position = .rightBrace := by
    rw [hstop]
    exact hclose
  have hstatements := hspans.decided [] [.rightBrace] limits.scan none hc (by simp) (List.mem_singleton.2 hclosed) fun _ ↦ hclosed
  rw [← Skeleton.legal_iff] at hstatements
  have hbody : Decides (bodyStatements name info) (.top limits tokens) s
      (body.Legal info.isEntryPoint) fun _ after ↦ after = t := by
    have hstart : (modify fun s : State ↦ { s with position := info.body.start, sawReturn := false } :
        Check Unit).runFrom (inFunction name info (.top limits tokens)) s =
          (.ok (), { s with position := info.body.start, sawReturn := false }) := rfl
    refine .after (x := read) rfl <| .withReader <| .after hstart <| .andThen <| .discard <|
      .after (x := read) rfl <| Decides.mono hstatements ?_
    rintro _ after ⟨hafter, -⟩
    refine ⟨(), t, ?_, rfl⟩
    rw [hafter, Check.runFrom_bind]
    show (if t.position ≠ info.body.stop then _ else pure () : Check Unit).runFrom _ t = _
    rw [if_neg (not_not_intro hstop)]
    rfl
  obtain ⟨hlegal, _, hok⟩ | ⟨hillegal, e, herror, hcontrol⟩ := hbody.cases hlimit
  · refine ⟨iff_of_true hok hlegal, fun e he ↦ ?_⟩
    cases hok.symm.trans he
  · refine ⟨iff_of_false (fun hok ↦ ?_) hillegal, fun e' he' ↦ ?_⟩
    · cases hok.symm.trans herror
    · cases herror.symm.trans he'
      exact hcontrol

/-- The tokens of a program whose entry point leaves a loop in its first round. -/
def loopProgram : List Token :=
  (scan 16 "mn() \x7b whl (tr) \x7b brk; \x7d end; \x7d").tokens

/-- What is recorded of the entry point of that program. -/
def loopEntryPoint : FunctionInfo := ⟨.void, [], 1, ⟨4, 14⟩, false, true⟩

/-- The skeleton of its body. -/
def loopBody : Skeleton .statements :=
  .next (.whileLoop (.braces (.next .breaks .empty))) (.next .ends .empty)

theorem runFrom_of_isOk {x : Check Unit} (h : (x.runFrom c s).1.isOk = true) :
    x.runFrom c s = (.ok (), x.leaves c s) := by
  unfold Check.leaves
  cases hrun : x.runFrom c s with
  | mk result after =>
    rw [hrun] at h
    cases result with
    | error e => cases h
    | ok _ => rfl

theorem bodyStatements_iff_legal_loopProgram :
    let c := Context.top .default loopProgram
    let s := headers.leaves c .initial
    let run := (bodyStatements "mn" loopEntryPoint).runFrom c s
    (∃ t, Spans Limits.default.nesting (inFunction "mn" loopEntryPoint c)
        { s with position := loopEntryPoint.body.start, sawReturn := false } loopBody t ∧
      t.position = loopEntryPoint.body.stop ∧ c.kindAt loopEntryPoint.body.stop = .rightBrace) ∧
      (∀ e, run.1 = .error e → e.violation.isLimit = false) ∧
      (run.1 = .ok () ↔ loopBody.Legal true) ∧ ∀ e, run.1 = .error e → e.violation.isControl := by
  intro c s run
  have hok : run.1.isOk = true := by decide +kernel
  have hlimit (e : SemanticError) (he : run.1 = .error e) : e.violation.isLimit = false := by
    rw [he] at hok
    cases hok
  have hclose : c.kindAt loopEntryPoint.body.stop = .rightBrace := by decide +kernel
  obtain ⟨t, hspans, hstop⟩ : ∃ t, Spans Limits.default.nesting (inFunction "mn" loopEntryPoint c)
      { s with position := loopEntryPoint.body.start, sawReturn := false } loopBody t ∧
        t.position = loopEntryPoint.body.stop := by
    refine ⟨_, .next (.whileLoop ?_ (runFrom_of_isOk ?_) (.braces ?_ (.next (.breaks ?_ ?_) .empty) ?_))
      (.next (.ends ?_ ?_) .empty), ?_⟩
    all_goals decide +kernel
  exact ⟨⟨t, hspans, hstop, hclose⟩, hlimit, bodyStatements_iff_legal hspans hstop hclose hlimit⟩

end

end FrontEnd
