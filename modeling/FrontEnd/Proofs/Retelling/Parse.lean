import FrontEnd.Parse.Machine
import FrontEnd.Proofs.Retelling.Basic

/-!
# Parses of retold texts

The parse machine looks at the kinds of tokens only, and these are the same in texts that tell the same
program.  So two runs of it go in lockstep: the stacks are the same throughout and what is left to read
is retold, until both accept or both stop at the same place for the same reason
(`Retelling.syntaxErrors_parse`).
-/

namespace FrontEnd

namespace Retelling

variable (T : Retelling)

/-- The same syntax error at tokens that stand at the same place. -/
inductive SyntaxErrors : SyntaxError → SyntaxError → Prop
  | unexpectedSymbol (found expected : Kind) {p q : Position} : T.Positions p q →
    SyntaxErrors (.unexpectedSymbol found expected p) (.unexpectedSymbol found expected q)
  | unexpectedToken (found : Kind) (category : Nonterminal) {p q : Position} : T.Positions p q →
    SyntaxErrors (.unexpectedToken found category p) (.unexpectedToken found category q)
  | unexpectedEnd (expected : Kind) {p q : Position} : T.Positions p q →
    SyntaxErrors (.unexpectedEnd expected p) (.unexpectedEnd expected q)
  | trailingTokens (found : Kind) {p q : Position} : T.Positions p q →
    SyntaxErrors (.trailingTokens found p) (.trailingTokens found q)
  | stepLimit (limit : Nat) : SyntaxErrors (.stepLimit limit) (.stepLimit limit)
  | noTokens : SyntaxErrors .noTokens .noTokens

/-- Configurations at the same place of the two texts. -/
structure Configurations (c d : Configuration) : Prop where
  stack : d.stack = c.stack
  rest : List.Forall₂ T.Tokens c.rest d.rest

/-- What two steps come to: the same move, or the same error. -/
inductive Moves : Except SyntaxError Move → Except SyntaxError Move → Prop
  | ok (move : Move) : Moves (.ok move) (.ok move)
  | error {e f : SyntaxError} : T.SyntaxErrors e f → Moves (.error e) (.error f)

variable {T}

theorem rel_head? {α : Type} {rel : α → α → Prop} {l m : List α} (h : List.Forall₂ rel l m) :
    Option.Rel rel l.head? m.head? := by
  cases h with
  | nil => exact .none
  | cons h _ => exact .some h

theorem rel_tail {α : Type} {rel : α → α → Prop} {l m : List α} (h : List.Forall₂ rel l m) :
    List.Forall₂ rel l.tail m.tail := by
  cases h with
  | nil => exact .nil
  | cons _ h => exact h

theorem rel_getLast? {α : Type} {rel : α → α → Prop} {l m : List α} (h : List.Forall₂ rel l m) :
    Option.Rel rel l.getLast? m.getLast? := by
  rw [← List.head?_reverse, ← List.head?_reverse]
  exact rel_head? (List.rel_reverse h)

theorem moves_of (top : GrammarSymbol) {t u : Token} (h : T.Tokens t u) :
    T.Moves (Move.of top t) (Move.of top u) := by
  have hpositions := Positions.of_tokens h
  cases top with
  | terminal k =>
    simp only [Move.of, T.kind h]
    split_ifs
    · exact .ok _
    · exact .error (.unexpectedEnd k hpositions)
    · exact .error (.unexpectedSymbol t.kind k hpositions)
  | nonterminal A =>
    simp only [Move.of, T.kind h]
    cases Grammar.production A t.kind with
    | none => exact .error (.unexpectedToken t.kind A hpositions)
    | some body => exact .ok _

namespace Configurations

variable {c d : Configuration} {last last' : Token}

theorem lookahead (h : T.Configurations c d) (hlast : T.Tokens last last') :
    T.Tokens (c.lookahead last) (d.lookahead last') := by
  have hhead := rel_head? h.rest
  unfold Configuration.lookahead
  generalize c.rest.head? = found, d.rest.head? = found' at hhead
  cases hhead with
  | none => exact hlast
  | some h => exact h

/-- One step keeps the lockstep. -/
theorem after (h : T.Configurations c d) (below : List GrammarSymbol) (move : Move) :
    T.Configurations (c.after below move) (d.after below move) := by
  cases move with
  | accept k => exact ⟨rfl, rel_tail h.rest⟩
  | expand A body => exact ⟨rfl, h.rest⟩

theorem verdict (h : T.Configurations c d) (hlast : T.Tokens last last') :
    Option.Rel T.SyntaxErrors (c.verdict last) (d.verdict last') := by
  have hnext := h.lookahead hlast
  simp only [Configuration.verdict, T.kind hnext, ← h.rest.length_eq]
  split_ifs
  · exact .none
  · exact .some (.trailingTokens _ (.of_tokens hnext))

/-- Whole runs end alike: by induction on the steps left, one of which `after` carries over. -/
theorem run (h : T.Configurations c d) (hlast : T.Tokens last last') (limit left : Nat)
    (seen seen' : List TraceEvent) :
    Option.Rel T.SyntaxErrors (Configuration.run last limit left c seen).1
      (Configuration.run last' limit left d seen').1 := by
  induction left generalizing c d seen seen' with
  | zero =>
    obtain ⟨_, rest⟩ := c
    obtain ⟨stack, rest'⟩ := d
    obtain rfl := h.stack
    cases stack with
    | nil => exact h.verdict hlast
    | cons top below => exact .some (.stepLimit limit)
  | succ left ih =>
    obtain ⟨_, rest⟩ := c
    obtain ⟨stack, rest'⟩ := d
    obtain rfl := h.stack
    cases stack with
    | nil => exact h.verdict hlast
    | cons top below =>
      have hmoves := moves_of top (h.lookahead hlast)
      simp only [Configuration.run]
      generalize Move.of top (Configuration.lookahead last _) = move,
        Move.of top (Configuration.lookahead last' _) = move' at hmoves
      cases hmoves with
      | ok move => exact ih (h.after below move) _ _
      | error herror => exact .some herror

end Configurations

/-- Texts that tell the same program are parsed alike. -/
theorem syntaxErrors_parse {tokens tokens' : List Token} (h : List.Forall₂ T.Tokens tokens tokens')
    (limit : Nat) :
    Option.Rel T.SyntaxErrors (parse limit tokens).error (parse limit tokens').error := by
  have hlast := rel_getLast? h
  unfold parse
  generalize tokens.getLast? = found, tokens'.getLast? = found' at hlast
  cases hlast with
  | none => exact .some .noTokens
  | some hlast =>
    have hinitial : T.Configurations (.initial tokens) (.initial tokens') := ⟨rfl, h⟩
    exact hinitial.run hlast limit limit [] []

end Retelling

end FrontEnd
