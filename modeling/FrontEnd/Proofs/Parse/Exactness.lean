import FrontEnd.Parse.Machine
import FrontEnd.Proofs.Grammar.Derivation

/-!
# The parse machine against guided derivations

The machine works down a stack; a guided derivation is a recursion on rows.  Both make the same
rewrites: a configuration from which the machine accepts is one whose stack, read as a row, has a
guided derivation of everything before the closing end-of-input token
(`Configuration.guided_of_run`), and from such a configuration the machine accepts unless it runs
out of steps (`Configuration.run_of_guided`).

What makes the first direction delicate is the token seen again past the end: the machine may
lose the last token and go on.  It cannot accept from there, since a verdict needs one token left
and no move gives a token back, so along an accepting run the rest is never empty.

The trace of an accepting run is the derivation: its rewrites are the guided ones, in order, and
its matched terminals are the word.
-/

namespace FrontEnd

open Grammar

/-! ### What a trace says of a derivation -/

/-- The rewrite an event reports. -/
def TraceEvent.rewrite? : TraceEvent → Option Rewrite
  | applied A body => some (A, body)
  | skipped A => some (A, [])
  | _ => none

/-- The terminal an event reports as read. -/
def TraceEvent.read? : TraceEvent → Option Kind
  | matched k => some k
  | _ => none

/-- The rewrites a trace reports, in order. -/
def rewritesOf (trace : List TraceEvent) : List Rewrite :=
  trace.filterMap TraceEvent.rewrite?

/-- The terminals a trace reports as read, in order. -/
def wordOf (trace : List TraceEvent) : List Kind :=
  trace.filterMap TraceEvent.read?

/-- A trace kept newest first gains the rewrite of one more event at its end. -/
theorem rewritesOf_reverse_cons (e : TraceEvent) (seen : List TraceEvent) :
    rewritesOf (e :: seen).reverse = rewritesOf seen.reverse ++ e.rewrite?.toList := by
  cases h : e.rewrite? <;> simp [rewritesOf, h]

theorem wordOf_reverse_cons (e : TraceEvent) (seen : List TraceEvent) :
    wordOf (e :: seen).reverse = wordOf seen.reverse ++ e.read?.toList := by
  cases h : e.read? <;> simp [wordOf, h]

/-- An expansion reports its rewrite, also when the category vanishes. -/
theorem Move.rewrite?_event_expand (A : Nonterminal) (body : List GrammarSymbol) :
    (Move.expand A body).event.rewrite? = some (A, body) := by
  cases body <;> rfl

theorem Move.read?_event_expand (A : Nonterminal) (body : List GrammarSymbol) :
    (Move.expand A body).event.read? = none := by
  cases body <;> rfl

theorem Move.of_terminal_eq_ok {k : Kind} {t : Token} {m : Move} :
    Move.of (.terminal k) t = .ok m ↔ k = t.kind ∧ m = .accept k := by
  by_cases h : k = t.kind <;> by_cases h' : t.kind = .eof <;> simp_all [Move.of, eq_comm]

theorem Move.of_nonterminal_eq_ok {A : Nonterminal} {t : Token} {m : Move} :
    Move.of (.nonterminal A) t = .ok m ↔
      ∃ body, production A t.kind = some body ∧ m = .expand A body := by
  cases h : production A t.kind <;> simp [Move.of, h, eq_comm]

namespace Configuration

variable {last : Token} {limit left : Nat} {seen : List TraceEvent}

theorem run_nil (rest : List Token) :
    run last limit left ⟨[], rest⟩ seen = (verdict last ⟨[], rest⟩, seen) := by
  cases left <;> rfl

/-- One step: the event of what is looked at, then the move and the rest of the run. -/
theorem run_cons (top : GrammarSymbol) (below : List GrammarSymbol) (rest : List Token) :
    run last limit (left + 1) ⟨top :: below, rest⟩ seen =
      match Move.of top (lookahead last ⟨top :: below, rest⟩) with
      | .error e => (some e, .looked top (lookahead last ⟨top :: below, rest⟩).kind
          (lookahead last ⟨top :: below, rest⟩).position :: seen)
      | .ok move => run last limit left (after ⟨top :: below, rest⟩ below move)
          (move.event :: .looked top (lookahead last ⟨top :: below, rest⟩).kind
            (lookahead last ⟨top :: below, rest⟩).position :: seen) :=
  rfl

theorem verdict_eq_none_iff {rest : List Token} :
    verdict last ⟨[], rest⟩ = none ↔ rest.map Token.kind = [.eof] := by
  match rest with
  | [] => simp [verdict]
  | [t] => simp [verdict, lookahead]
  | _ :: _ :: _ => simp [verdict]

/-- The lookahead before the closing end-of-input token. -/
theorem kind_lookahead {stack : List GrammarSymbol} {rest : List Token} {w : List Kind}
    (h : rest.map Token.kind = w ++ [.eof]) :
    (lookahead last ⟨stack, rest⟩).kind = ahead w := by
  cases rest with
  | nil => simp at h
  | cons t rest => cases w <;> simp_all [lookahead, ahead]

/-! ### From a run to a derivation -/

theorem guided_of_run_nil {rest : List Token} {seen' : List TraceEvent}
    (h : run last limit left ⟨[], rest⟩ seen = (none, seen')) :
    rest.map Token.kind = [.eof] ∧ seen' = seen := by
  rw [run_nil, Prod.mk.injEq, verdict_eq_none_iff] at h
  exact ⟨h.1, h.2.symm⟩

/-- What the machine did from a configuration on, if it accepts, is a guided derivation of the
stack from the terminals before the closing end-of-input token. -/
theorem guided_of_run {stack : List GrammarSymbol} {rest : List Token}
    {seen' : List TraceEvent} (h : run last limit left ⟨stack, rest⟩ seen = (none, seen')) :
    ∃ w rs, rest.map Token.kind = w ++ [.eof] ∧ Guided stack w [] rs ∧
      rewritesOf seen'.reverse = rewritesOf seen.reverse ++ rs ∧
      wordOf seen'.reverse = wordOf seen.reverse ++ w := by
  induction left generalizing stack rest seen with
  | zero =>
    cases stack with
    | nil =>
      obtain ⟨hrest, rfl⟩ := guided_of_run_nil h
      exact ⟨[], [], hrest, .nil [], by simp, by simp⟩
    | cons top below => simp [run] at h
  | succ left ih =>
    cases stack with
    | nil =>
      obtain ⟨hrest, rfl⟩ := guided_of_run_nil h
      exact ⟨[], [], hrest, .nil [], by simp, by simp⟩
    | cons top below =>
      rw [run_cons] at h
      cases hmove : Move.of top (lookahead last ⟨top :: below, rest⟩) with
      | error e => simp [hmove] at h
      | ok move =>
        rw [hmove] at h
        cases top with
        | terminal k =>
          obtain ⟨hk, rfl⟩ := Move.of_terminal_eq_ok.1 hmove
          -- the rest after this move is not empty, so the token read was really there
          obtain ⟨w, rs, hw, hder, hrs, hword⟩ := ih h
          obtain ⟨t, rest, rfl⟩ : ∃ t ts, rest = t :: ts := by
            cases rest with
            | nil => simp at hw
            | cons t ts => exact ⟨t, ts, rfl⟩
          refine ⟨k :: w, rs, ?_, .terminal k hder, ?_, ?_⟩
          · simpa [hk, lookahead] using hw
          · rw [rewritesOf_reverse_cons, rewritesOf_reverse_cons] at hrs
            simpa [Move.event, TraceEvent.rewrite?] using hrs
          · rw [wordOf_reverse_cons, wordOf_reverse_cons] at hword
            simpa [Move.event, TraceEvent.read?] using hword
        | nonterminal A =>
          obtain ⟨body, hprod, rfl⟩ := Move.of_nonterminal_eq_ok.1 hmove
          obtain ⟨w, rs, hw, hder, hrs, hword⟩ := ih h
          -- the body pushed and the row below it were derived as one row
          obtain ⟨v, ss, ts, rfl, hbody, hbelow⟩ := Guided.of_append hder
          rw [kind_lookahead hw] at hprod
          refine ⟨w, (A, body) :: ss ++ ts, hw, .nonterminal hprod hbody hbelow, ?_, ?_⟩
          · rw [rewritesOf_reverse_cons, rewritesOf_reverse_cons,
              Move.rewrite?_event_expand] at hrs
            simpa [TraceEvent.rewrite?] using hrs
          · rw [wordOf_reverse_cons, wordOf_reverse_cons, Move.read?_event_expand] at hword
            simpa [TraceEvent.read?] using hword

/-! ### From a derivation to a run -/

/-- From a stack with a guided derivation of all that is left, the machine accepts or runs out of
steps. -/
theorem run_of_guided {stack : List GrammarSymbol} {rest : List Token} {w : List Kind}
    {rs : List Rewrite} (hder : Guided stack w [] rs) (hw : rest.map Token.kind = w ++ [.eof]) :
    (run last limit left ⟨stack, rest⟩ seen).1 = none ∨
      (run last limit left ⟨stack, rest⟩ seen).1 = some (.stepLimit limit) := by
  -- One step of the machine for each rule of the derivation.
  induction left generalizing stack rest w rs seen with
  | zero =>
    cases hder with
    | nil => exact .inl (by simp [run_nil, verdict_eq_none_iff, hw])
    | terminal => exact .inr rfl
    | nonterminal => exact .inr rfl
  | succ left ih =>
    cases hder with
    | nil => exact .inl (by simp [run_nil, verdict_eq_none_iff, hw])
    | @terminal k α w _ _ hder =>
      have hk : k = (lookahead last ⟨.terminal k :: α, rest⟩).kind := by
        rw [kind_lookahead hw, ahead_cons]
      rw [run_cons, Move.of_terminal_eq_ok.2 ⟨hk, rfl⟩]
      refine ih hder ?_
      cases rest with
      | nil => simp at hw
      | cons t rest => simpa using (List.cons.inj hw).2
    | nonterminal hprod hbody hbelow =>
      rw [run_cons, Move.of_nonterminal_eq_ok.2 ⟨_, (kind_lookahead hw).symm ▸ hprod, rfl⟩]
      exact ih (hbody.append hbelow) hw

end Configuration

/-! ### The two agree -/

/-- Within its allowance of steps the machine accepts exactly the words with a guided derivation
from the start category, closed by one end-of-input token.  The derivation is in the trace: its
rewrites are the rules applied and the categories skipped, and they derive, leftmost, the
terminals matched. -/
theorem accepted_iff_guided {limit : Nat} {tokens : List Token}
    (within : (parse limit tokens).error ≠ some (.stepLimit limit)) :
    ((parse limit tokens).accepted ↔
      ∃ w, tokens.map Token.kind = w ++ [.eof] ∧ .eof ∉ w ∧
        ∃ rs, Guided [.nonterminal .program] w [] rs) ∧
    ((parse limit tokens).accepted →
      ∃ w, tokens.map Token.kind = w ++ [.eof] ∧ wordOf (parse limit tokens).trace = w ∧
        Guided [.nonterminal .program] w [] (rewritesOf (parse limit tokens).trace) ∧
        Leftmost (rewritesOf (parse limit tokens).trace) [.nonterminal .program] (terminals w) ∧
        w ∈ contextFree.language) := by
  cases hlast : tokens.getLast? with
  | none =>
    -- Without any token the program cannot begin.
    have hnil : tokens = [] := List.getLast?_eq_none_iff.1 hlast
    subst hnil
    simp [parse, Parse.accepted]
  | some last =>
    obtain ⟨error, seen, hrun⟩ : ∃ error seen,
        Configuration.run last limit limit (.initial tokens) [] = (error, seen) := ⟨_, _, rfl⟩
    have hparse : parse limit tokens = ⟨seen.reverse, error⟩ := by
      simp only [parse, hlast, hrun]
    rw [hparse] at within ⊢
    constructor
    · constructor
      · intro hacc
        obtain rfl : error = none := Option.isNone_iff_eq_none.1 hacc
        obtain ⟨w, rs, hw, hder, -, -⟩ := Configuration.guided_of_run hrun
        exact ⟨w, hw, hder.eof_not_mem (by simp) (by simp), rs, hder⟩
      · rintro ⟨w, hw, -, rs, hder⟩
        have hend : (Configuration.run last limit limit (.initial tokens) []).1 = none ∨
            (Configuration.run last limit limit (.initial tokens) []).1 = some (.stepLimit limit) :=
          Configuration.run_of_guided hder hw
        rw [hrun] at hend
        exact Option.isNone_iff_eq_none.2 (hend.resolve_right within)
    · intro hacc
      obtain rfl : error = none := Option.isNone_iff_eq_none.1 hacc
      obtain ⟨w, rs, hw, hder, hrs, hword⟩ := Configuration.guided_of_run hrun
      obtain rfl : rewritesOf seen.reverse = rs := by simpa [rewritesOf] using hrs
      exact ⟨w, hw, by simpa [wordOf] using hword, hder, hder.leftmost_nil, hder.mem_language⟩

/-- The tokens of the shortest program, which declares nothing and stops at once. -/
def shortestProgram : List Token :=
  [⟨.mainWord, "mn", ⟨1, 1⟩⟩, ⟨.leftParen, "(", ⟨1, 3⟩⟩, ⟨.rightParen, ")", ⟨1, 4⟩⟩,
   ⟨.leftBrace, "\x7b", ⟨1, 6⟩⟩, ⟨.endWord, "end", ⟨1, 8⟩⟩, ⟨.semicolon, ";", ⟨1, 11⟩⟩,
   ⟨.rightBrace, "\x7d", ⟨1, 13⟩⟩, .endOfInput ⟨1, 14⟩]

theorem guided_shortestProgram :
    (parse 64 shortestProgram).error ≠ some (.stepLimit 64) ∧
    ∃ w, shortestProgram.map Token.kind = w ++ [.eof] ∧ .eof ∉ w ∧
      ∃ rs, Guided [.nonterminal .program] w [] rs := by
  have within : (parse 64 shortestProgram).error ≠ some (.stepLimit 64) := by decide +kernel
  exact ⟨within, (accepted_iff_guided within).1.1 (by decide +kernel)⟩

end FrontEnd
