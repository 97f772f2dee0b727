import FrontEnd.Proofs.Grammar.Prediction
import FrontEnd.Proofs.Parse.Exactness

/-!
# The machine halts in linear time

Between two terminals that are read, the machine replaces categories.  A category that is replaced
by a row pushes symbols, and every symbol pushed costs one more step, to take it off again; so what
has to be bounded is how much is pushed before the next terminal is read.  Only one symbol of the
stack pushes anything then, the first one that does not vanish before that terminal (`leading`), and
the rows that it and its successors are replaced by are a short chain: `effort` adds up their
lengths, and a check of the table says that the chains are finite and no sum reaches 32.

The potential of a stack is its height and the effort of its leading symbol.  A replacement lowers it
by one or more (`potential_expand`), and reading a terminal raises it by less than 31; so a sequence
of `n` tokens is worth `32 * n` steps.  Nothing is ever replaced before the end of the input, and
nothing asks for it, so the machine stops there.

How many steps a run takes does not depend on the allowance, unless that is used up
(`run_eq_of_le`).
-/

namespace FrontEnd

namespace Grammar

/-- The first symbol of a row that does not vanish before a terminal. -/
def leading (k : Kind) : List GrammarSymbol → Option GrammarSymbol
  | [] => none
  | .terminal j :: _ => some (.terminal j)
  | .nonterminal A :: α => if production A k = some [] then leading k α else some (.nonterminal A)

/-- How many symbols are pushed for a symbol before a terminal is read, along a chain of at most so
many replacements. -/
def effortWithin : Nat → Kind → GrammarSymbol → Nat
  | _, _, .terminal _ => 0
  | 0, _, _ => 0
  | n + 1, k, .nonterminal A =>
    match production A k with
    | none => 0
    | some body => body.length + (leading k body).elim 0 (effortWithin n k)

/-- How many symbols are pushed for a symbol before a terminal is read. -/
def effort (k : Kind) (s : GrammarSymbol) : Nat :=
  effortWithin 8 k s

/-- How many steps a stack is worth before a terminal is read. -/
def potential (k : Kind) (stack : List GrammarSymbol) : Nat :=
  stack.length + (leading k stack).elim 0 (effort k)

/-- What the table is checked for: a row that is pushed has a leading symbol before its lookaheads,
the effort of its category covers the row, and no effort reaches 32. -/
theorem checked_effort : ∀ A ∈ Nonterminal.all, ∀ r ∈ rules A, ∀ k ∈ r.lookaheads, r.body ≠ [] →
    leading k r.body ≠ none ∧
      r.body.length + (leading k r.body).elim 0 (effort k) ≤ effort k (.nonterminal A) ∧
        effort k (.nonterminal A) < 32 := by
  decide +kernel

section

variable {k : Kind} {A : Nonterminal} {s : GrammarSymbol} {α β body : List GrammarSymbol}

theorem effort_lt (k : Kind) (s : GrammarSymbol) : effort k s < 32 := by
  cases s with
  | terminal j => exact Nat.zero_lt_succ _
  | nonterminal A =>
    cases hprod : production A k with
    | none => simp [effort, effortWithin, hprod]
    | some body =>
      obtain ⟨r, hr, hlook, rfl⟩ := exists_rule_of_production hprod
      by_cases hbody : r.body = []
      · simp [effort, effortWithin, hprod, hbody, leading]
      · exact (checked_effort A A.mem_all r hr k (List.contains_iff_mem.1 hlook) hbody).2.2

theorem potential_lt (k : Kind) (stack : List GrammarSymbol) :
    potential k stack < stack.length + 32 := by
  refine Nat.add_lt_add_left ?_ _
  cases leading k stack with
  | none => exact Nat.zero_lt_succ _
  | some s => exact effort_lt k s

theorem length_le_potential (k : Kind) (stack : List GrammarSymbol) :
    stack.length ≤ potential k stack :=
  Nat.le_add_right _ _

/-- The leading symbol of a row stays the same, whatever is behind the row. -/
theorem leading_append (h : leading k α = some s) : leading k (α ++ β) = some s := by
  induction α with
  | nil => cases h
  | cons top α ih =>
    cases top with
    | terminal j => exact h
    | nonterminal A =>
      rw [List.cons_append, leading]
      rw [leading] at h
      split
      · exact ih (by simpa [*] using h)
      · simpa [*] using h

/-- Replacing the category on top makes the stack worth less. -/
theorem potential_expand (h : production A k = some body) :
    potential k (body ++ β) < potential k (.nonterminal A :: β) := by
  by_cases hbody : body = []
  · -- the category vanishes, and the leading symbol is the same as before
    subst hbody
    have hleading : leading k (.nonterminal A :: β) = leading k β := by rw [leading, if_pos h]
    rw [potential, potential, hleading, List.nil_append, List.length_cons]
    omega
  · obtain ⟨r, hr, hlook, rfl⟩ := exists_rule_of_production h
    obtain ⟨hsome, hcovers, -⟩ :=
      checked_effort A A.mem_all r hr k (List.contains_iff_mem.1 hlook) hbody
    obtain ⟨s, hs⟩ := Option.ne_none_iff_exists'.1 hsome
    have hleading : leading k (.nonterminal A :: β) = some (.nonterminal A) := by
      rw [leading, if_neg]
      simpa [h] using hbody
    rw [hs] at hcovers
    rw [potential, potential, hleading, leading_append hs, List.length_append, List.length_cons]
    simp only [Option.elim_some] at hcovers ⊢
    omega

end

end Grammar

open Grammar

/-- No move is refused for want of steps. -/
theorem Move.of_ne_stepLimit {top : GrammarSymbol} {t : Token} {e : SyntaxError}
    (h : Move.of top t = .error e) (l : Nat) : e ≠ .stepLimit l := by
  rintro rfl
  unfold Move.of at h
  repeat' split at h
  all_goals cases h

namespace Configuration

variable {last : Token} {limit limit' left left' : Nat} {seen : List TraceEvent}
  {stack : List GrammarSymbol} {rest : List Token} {c : Configuration}

theorem verdict_ne_stepLimit (l : Nat) : verdict last c ≠ some (.stepLimit l) := by
  unfold verdict
  dsimp only
  split <;> simp

/-- A run that does not use up its allowance is the same with a larger one. -/
theorem run_eq_of_le (h : (run last limit left c seen).1 ≠ some (.stepLimit limit))
    (hle : left ≤ left') : run last limit' left' c seen = run last limit left c seen := by
  induction left generalizing left' c seen with
  | zero =>
    rcases c with ⟨_ | ⟨top, below⟩, rest⟩
    · rw [run_nil, run_nil]
    · exact absurd rfl h
  | succ left ih =>
    rcases c with ⟨_ | ⟨top, below⟩, rest⟩
    · rw [run_nil, run_nil]
    · obtain ⟨left', rfl⟩ := Nat.exists_eq_add_of_lt (Nat.lt_of_succ_le hle)
      rw [run_cons] at h
      rw [run_cons, run_cons]
      split at h
      next => rfl
      next => exact ih h (by omega)

/-- Within the worth of its stack and 32 steps for each token to be read, the machine stops of
itself. -/
theorem run_ne_stepLimit (hlast : rest.getLast? = some last) (hend : last.kind = .eof)
    (hstack : .terminal .eof ∉ stack)
    (hleft : potential (lookahead last ⟨stack, rest⟩).kind stack + 32 * (rest.length - 1) ≤ left)
    (l : Nat) : (run last limit left ⟨stack, rest⟩ seen).1 ≠ some (.stepLimit l) := by
  induction left generalizing stack rest seen with
  | zero =>
    have hheight := length_le_potential (lookahead last ⟨stack, rest⟩).kind stack
    obtain rfl : stack = [] := List.eq_nil_of_length_eq_zero (by omega)
    rw [run_nil]
    exact verdict_ne_stepLimit l
  | succ left ih =>
    cases stack with
    | nil =>
      rw [run_nil]
      exact verdict_ne_stepLimit l
    | cons top below =>
      obtain ⟨t, ts, rfl⟩ : ∃ t ts, rest = t :: ts := by
        cases rest with
        | nil => cases hlast
        | cons t ts => exact ⟨t, ts, rfl⟩
      rw [run_cons]
      cases hmove : Move.of top (lookahead last ⟨top :: below, t :: ts⟩) with
      | error e => simpa using Move.of_ne_stepLimit hmove l
      | ok move =>
        obtain ⟨htop, hbelow⟩ := not_or.1 (mt List.mem_cons.2 hstack)
        cases top with
        | terminal k =>
          obtain ⟨hk, rfl⟩ := Move.of_terminal_eq_ok.1 hmove
          -- what was read is not the end of the input, so that is still to come
          have hts : ts ≠ [] := by
            rintro rfl
            obtain rfl : t = last := by simpa using hlast
            exact htop (by rw [hk, ← hend]; rfl)
          have hlength : 0 < ts.length := List.length_pos_iff.2 hts
          refine ih (by rwa [List.getLast?_cons_of_ne_nil hts] at hlast) hbelow ?_
          have hlt := potential_lt (lookahead last ⟨below, ts⟩).kind below
          have hworth : (below.length + 1) + 32 * ts.length ≤ left + 1 :=
            Nat.le_trans (Nat.add_le_add_right (length_le_potential _ (_ :: below)) _) hleft
          show potential (lookahead last ⟨below, ts⟩).kind below + 32 * (ts.length - 1) ≤ left
          omega
        | nonterminal A =>
          obtain ⟨body, hprod, rfl⟩ := Move.of_nonterminal_eq_ok.1 hmove
          have hlt : potential t.kind (body ++ below) < potential t.kind (.nonterminal A :: below) :=
            potential_expand hprod
          have hworth : potential t.kind (.nonterminal A :: below) + 32 * ts.length ≤ left + 1 :=
            hleft
          refine ih hlast ?_ ?_
          · exact fun hmem ↦ (List.mem_append.1 hmem).elim (not_mem_of_production hprod) hbelow
          · show potential t.kind (body ++ below) + 32 * ts.length ≤ left
            omega

end Configuration

/-! ### Steps of a parse -/

/-- Whether an event is the first of a step. -/
def TraceEvent.isLooked : TraceEvent → Bool
  | looked _ _ _ => true
  | _ => false

/-- How many steps a parse took. -/
def Parse.steps (p : Parse) : Nat :=
  p.trace.countP TraceEvent.isLooked

theorem Move.isLooked_event (move : Move) : move.event.isLooked = false := by
  cases move with
  | accept k => rfl
  | expand A body => cases body <;> rfl

/-- A run takes no more steps than it is allowed. -/
theorem Configuration.countP_run_le {last : Token} {limit left : Nat} {c : Configuration}
    {seen : List TraceEvent} :
    (run last limit left c seen).2.countP TraceEvent.isLooked ≤
      seen.countP TraceEvent.isLooked + left := by
  induction left generalizing c seen with
  | zero => rcases c with ⟨_ | ⟨top, below⟩, rest⟩ <;> exact Nat.le_refl _
  | succ left ih =>
    rcases c with ⟨_ | ⟨top, below⟩, rest⟩
    · rw [run_nil]
      exact Nat.le_add_right _ _
    · rw [run_cons]
      split
      next =>
        rw [List.countP_cons_of_pos rfl]
        omega
      next move _ =>
        refine Nat.le_trans ih ?_
        rw [List.countP_cons_of_neg (by simp [Move.isLooked_event]), List.countP_cons_of_pos rfl]
        omega

section

variable {limit limit' : Nat} {tokens : List Token}

/-- A parse as a run. -/
theorem parse_eq_run {last : Token} (hlast : tokens.getLast? = some last) :
    parse limit tokens =
      ⟨(Configuration.run last limit limit (.initial tokens) []).2.reverse,
        (Configuration.run last limit limit (.initial tokens) []).1⟩ := by
  simp only [parse, hlast]

theorem parse_steps_le (limit : Nat) (tokens : List Token) :
    (parse limit tokens).steps ≤ limit := by
  cases hlast : tokens.getLast? with
  | none => simp [parse, hlast, Parse.steps]
  | some last =>
    rw [parse_eq_run hlast, Parse.steps, List.countP_reverse]
    exact Nat.le_trans Configuration.countP_run_le (by simp)

/-- A parse that does not use up its allowance is the same with a larger one. -/
theorem parse_eq_of_le (h : (parse limit tokens).error ≠ some (.stepLimit limit))
    (hle : limit ≤ limit') : parse limit' tokens = parse limit tokens := by
  cases hlast : tokens.getLast? with
  | none => simp [parse, hlast]
  | some last =>
    rw [parse_eq_run hlast] at h
    rw [parse_eq_run hlast, parse_eq_run hlast, Configuration.run_eq_of_le h hle]

/-- Two parses that do not use up their allowances are the same. -/
theorem parse_eq_of_ne (h : (parse limit tokens).error ≠ some (.stepLimit limit))
    (h' : (parse limit' tokens).error ≠ some (.stepLimit limit')) :
    parse limit tokens = parse limit' tokens := by
  rcases Nat.le_total limit limit' with hle | hle
  · exact (parse_eq_of_le h hle).symm
  · exact parse_eq_of_le h' hle

/-- Tokens that close with the end of the input do not use up 32 steps for each of them. -/
theorem parse_ne_stepLimit {last : Token} (hlast : tokens.getLast? = some last)
    (hend : last.kind = .eof) (hle : 32 * tokens.length ≤ limit) (l : Nat) :
    (parse limit tokens).error ≠ some (.stepLimit l) := by
  rw [parse_eq_run hlast]
  refine Configuration.run_ne_stepLimit hlast hend (by simp) ?_ l
  have hlt := potential_lt (Configuration.lookahead last ⟨[.nonterminal .program], tokens⟩).kind
    [.nonterminal .program]
  have hlength : 0 < tokens.length := by
    cases tokens with
    | nil => cases hlast
    | cons t ts => exact Nat.zero_lt_succ _
  simp only [List.length_singleton] at hlt
  omega

/-- On tokens that close with the end of the input, the machine stops within 32 steps for each of
them, whatever it is allowed.  So it runs out of steps only when it is allowed fewer, and apart from
that the result does not depend on the allowance. -/
theorem parse_halts_linearly (h : tokens.getLast?.map Token.kind = some .eof) :
    (∀ limit, (parse limit tokens).steps ≤ 32 * tokens.length) ∧
      (∀ limit l, (parse limit tokens).error = some (.stepLimit l) → limit < 32 * tokens.length) ∧
      ∀ limit limit', (parse limit tokens).error ≠ some (.stepLimit limit) →
        (parse limit' tokens).error ≠ some (.stepLimit limit') →
          parse limit tokens = parse limit' tokens := by
  obtain ⟨last, hlast, hend⟩ := Option.map_eq_some_iff.1 h
  refine ⟨fun limit ↦ ?_, fun limit l hl ↦ ?_, fun limit limit' ↦ parse_eq_of_ne⟩
  · rcases Nat.le_total limit (32 * tokens.length) with hle | hle
    · exact Nat.le_trans (parse_steps_le limit tokens) hle
    · have hstops := parse_ne_stepLimit hlast hend (Nat.le_refl (32 * tokens.length))
      rw [parse_eq_of_le (hstops _) hle]
      exact parse_steps_le _ _
  · by_contra hle
    exact parse_ne_stepLimit hlast hend (Nat.not_lt.1 hle) l hl

theorem parse_halts_linearly_shortestProgram :
    shortestProgram.getLast?.map Token.kind = some .eof ∧
      (∀ limit, (parse limit shortestProgram).steps ≤ 32 * 8) ∧
      ∀ limit l, (parse limit shortestProgram).error = some (.stepLimit l) → limit < 32 * 8 := by
  have hend : shortestProgram.getLast?.map Token.kind = some .eof := rfl
  obtain ⟨hsteps, hlimit, -⟩ := parse_halts_linearly hend
  exact ⟨hend, hsteps, hlimit⟩

end

end FrontEnd
