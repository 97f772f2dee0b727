import FrontEnd.Check.Program
import FrontEnd.Proofs.Check.Skeleton
import FrontEnd.Proofs.Check.Trace

/-!
# Texts with a skeleton

`Spans` says that a stretch of text has a skeleton and that a walk over it comes from one state to
another.  It asks of everything in the text what its check asks, except for the rules of control flow:
these do not occur in it.
-/

namespace FrontEnd

open Check

/-- The check of a simple statement that starts with a token of a kind. -/
def simpleStatement? (levels : Nat) : Kind → Option (Check Unit)
  | .intWord | .doubleWord | .stringWord | .boolWord | .charWord => some (variableDeclaration levels)
  | .constWord => some (constantDeclaration levels)
  | .instanceWord => some instanceDeclaration
  | .identifier => some (nameStatement levels)
  | .increment | .decrement => some (countStatement levels)
  | .printWord => some (printStatement levels)
  | _ => none

/-- Reads the header of a counted loop. -/
def forHeader (levels : Nat) : Check Unit := do
  let opening ← here
  discard <| expectMark .leftParen
  let close ← matchingClose opening
  forStart levels
  forCondition levels
  forUpdate levels
  if (← here) ≠ close then
    violate (.unexpectedToken (← peek).lexeme .forHeader)
  discard <| expectMark .rightParen

/-- From one state to another a text has a skeleton, where so many levels of nesting may be opened,
and everything in it is as its check wants it, but for the rules of control flow. -/
inductive Spans : {role : Role} → Nat → Context → State → Skeleton role → State → Prop
  | simple {levels : Nat} {c : Context} {s t : State} {check : Check Unit} :
    simpleStatement? levels (c.kindAt s.position) = some check → check.runFrom c s = (.ok (), t) →
      Spans levels c s .simple t
  | returns {levels : Nat} {c : Context} {s t : State} :
    c.kindAt s.position = .returnWord → (returnStatement levels).runFrom c s = (.ok (), t) →
      Spans levels c s .returns t
  | breaks {levels : Nat} {c : Context} {s : State} :
    c.kindAt s.position = .breakWord → c.kindAt (s.position + 1) = .semicolon →
      Spans levels c s .breaks (s.movedTo (s.position + 2))
  | continues {levels : Nat} {c : Context} {s : State} :
    c.kindAt s.position = .continueWord → c.kindAt (s.position + 1) = .semicolon →
      Spans levels c s .continues (s.movedTo (s.position + 2))
  | ends {levels : Nat} {c : Context} {s : State} :
    c.kindAt s.position = .endWord → c.kindAt (s.position + 1) = .semicolon →
      Spans levels c s .ends (s.movedTo (s.position + 2))
  | conditional {levels : Nat} {c : Context} {s t u v : State}
    {first : Skeleton (.block "if block")} {more : Skeleton .branches} :
    c.kindAt s.position = .ifWord →
      (condition levels .ifBlock).runFrom c (s.movedTo (s.position + 1)) = (.ok (), t) →
        Spans levels c t first u → Spans levels c u more v →
          Spans levels c s (.conditional first more) v
  | whileLoop {levels : Nat} {c : Context} {s t u : State}
    {body : Skeleton (.block "while block")} :
    c.kindAt s.position = .whileWord →
      (condition levels .whileLoop).runFrom c (s.movedTo (s.position + 1)) = (.ok (), t) →
        Spans levels { c with blocks := .loop :: c.blocks } t body u →
          Spans levels c s (.whileLoop body) u
  | doLoop {levels : Nat} {c : Context} {s t u : State} {body : Skeleton (.block "do block")} :
    c.kindAt s.position = .doWord →
      Spans levels { c with blocks := .loop :: c.blocks } (s.movedTo (s.position + 1)) body t →
        c.kindAt t.position = .whileWord →
          (condition levels .doLoop).runFrom c (t.movedTo (t.position + 1)) = (.ok (), u) →
            c.kindAt u.position = .semicolon →
              Spans levels c s (.doLoop body) (u.movedTo (u.position + 1))
  | forLoop {levels : Nat} {c : Context} {s t u : State} {body : Skeleton (.block "for block")} :
    c.kindAt s.position = .forWord →
      (forHeader levels).runFrom c (s.movedTo (s.position + 1)) = (.ok (), t) →
        Spans levels { c with blocks := .loop :: c.blocks } t body u →
          Spans levels c s (.forLoop body) u
  | switch {levels : Nat} {c : Context} {s t u : State} {selector : DataType} {opening : Token}
    {cases : Skeleton .cases} :
    c.kindAt s.position = .switchWord →
      (inParentheses levels).runFrom c (s.movedTo (s.position + 1)) = (.ok (selector, opening), t) →
        selector = .int ∨ selector = .char → c.kindAt t.position = .leftBrace →
          Spans levels { c with blocks := .switch :: c.blocks } (t.movedTo (t.position + 1)) cases u →
            c.kindAt u.position = .rightBrace →
              Spans levels c s (.switch selector cases) (u.movedTo (u.position + 1))
  | empty {levels : Nat} {c : Context} {s : State} : Spans levels c s .empty s
  | next {levels : Nat} {c : Context} {s t u : State} {first : Skeleton .statement}
    {rest : Skeleton .statements} :
    Spans levels c s first t → Spans levels c t rest u → Spans levels c s (.next first rest) u
  | braces {levels : Nat} {c : Context} {s t : State} {label : String}
    {body : Skeleton .statements} :
    c.kindAt s.position = .leftBrace →
      Spans levels (c.entering s) ((s.movedTo (s.position + 1)).entered c label) body t →
        c.kindAt t.position = .rightBrace →
          Spans (levels + 1) c s (.braces body : Skeleton (.block label))
            ((t.released s.arena.size).movedTo (t.position + 1))
  | noBranch {levels : Nat} {c : Context} {s : State} :
    c.kindAt s.position ≠ .elseIfWord → c.kindAt s.position ≠ .elseWord →
      Spans levels c s .noBranch s
  | elseIf {levels : Nat} {c : Context} {s t u v : State}
    {body : Skeleton (.block "else-if block")} {more : Skeleton .branches} :
    c.kindAt s.position = .elseIfWord →
      (condition levels .elseIfBlock).runFrom c (s.movedTo (s.position + 1)) = (.ok (), t) →
        Spans levels c t body u → Spans levels c u more v → Spans levels c s (.elseIf body more) v
  | otherwise {levels : Nat} {c : Context} {s t : State} {body : Skeleton (.block "else block")} :
    c.kindAt s.position = .elseWord → Spans levels c (s.movedTo (s.position + 1)) body t →
      Spans levels c s (.otherwise body) t
  | noCase {levels : Nat} {c : Context} {s : State} :
    c.kindAt s.position = .rightBrace → Spans levels c s .noCase s
  | labelled {levels : Nat} {c : Context} {s t u : State} {body : Skeleton .statements}
    {more : Skeleton .cases} :
    c.kindAt s.position = .caseWord → c.kindAt (s.position + 1) ≠ .eof →
      c.kindAt (s.position + 2) = .colon →
        Spans levels { c.entering s with blocks := .case :: c.blocks }
          ((s.movedTo (s.position + 3)).entered c "case block") body t →
          [.caseWord, .defaultWord, .rightBrace].contains (c.kindAt t.position) →
            Spans (levels + 1) c (t.released s.arena.size) more u →
              Spans (levels + 1) c s (.labelled (c.tokenAt (s.position + 1)) body more) u
  | default {levels : Nat} {c : Context} {s t u : State} {body : Skeleton .statements}
    {more : Skeleton .cases} :
    c.kindAt s.position = .defaultWord → c.kindAt (s.position + 1) = .colon →
      Spans levels { c.entering s with blocks := .case :: c.blocks }
        ((s.movedTo (s.position + 2)).entered c "case block") body t →
        [.caseWord, .defaultWord, .rightBrace].contains (c.kindAt t.position) →
          Spans (levels + 1) c (t.released s.arena.size) more u →
            Spans (levels + 1) c s (.default body more) u

section

variable {c : Context} {s t : State} {levels : Nat}

theorem not_mem_of_simpleStatement? {k : Kind} {check : Check Unit}
    (h : simpleStatement? levels k = some check) :
    k ∉ [.caseWord, .defaultWord, .rightBrace] ∧ k ≠ .eof ∧ k ≠ .breakWord := by
  cases k <;> first | (cases h; done) | decide

/-- A statement starts with no token that could end a sequence of statements. -/
theorem Spans.begins {x : Skeleton .statement} (h : Spans levels c s x t) :
    c.kindAt s.position ∉ [.caseWord, .defaultWord, .rightBrace] ∧ c.kindAt s.position ≠ .eof := by
  cases h with
  | simple hcheck => exact ⟨(not_mem_of_simpleStatement? hcheck).1, (not_mem_of_simpleStatement? hcheck).2.1⟩
  | _ => simp [*]

/-- Before a closing brace a sequence of statements is empty if it starts with that brace. -/
theorem Spans.rightBrace_iff {body : Skeleton .statements} (h : Spans levels c s body t)
    (hend : c.kindAt t.position = .rightBrace) :
    c.kindAt s.position = .rightBrace ↔ body = .empty := by
  cases h with
  | empty => exact iff_of_true hend rfl
  | next hfirst hrest => exact iff_of_false (fun h ↦ hfirst.begins.1 (by simp [h])) fun h ↦ by cases h

end

end FrontEnd
