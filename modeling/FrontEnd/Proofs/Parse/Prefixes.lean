import FrontEnd.Proofs.Parse.Halting

/-!
# Where a syntax error is found

A mismatch is found at the first token that no program has there.

* What the machine does up to a token depends on the kinds of the tokens up to it and on nothing
  behind them, neither their lexemes nor their places (`run_of_agree`).  So every sequence that
  agrees up to the token at fault is refused there, for the same reason and after the same rules.
* What has been read, with whatever the stack derives behind it, is a word of the grammar
  (`exists_read`), and every category derives some word (`exists_yields`).  So the tokens in front of
  the one at fault can be completed to a program.
-/

namespace FrontEnd

namespace Grammar

/-! ### Every category derives a word -/

/-- Whether a category derives a word by at most so many nested replacements. -/
def productiveWithin : Nat → Nonterminal → Bool
  | 0, _ => false
  | n + 1, A => (rules A).any fun r ↦ !r.lookaheads.isEmpty && r.body.all fun s ↦
    match s with
    | .terminal _ => true
    | .nonterminal B => productiveWithin n B

/-- A row derives a word, if its categories do. -/
theorem Yields.exists_of_row {α : List GrammarSymbol}
    (h : ∀ A, .nonterminal A ∈ α → ∃ w, Yields [.nonterminal A] w) :
    ∃ w, Yields α w := by
  induction α with
  | nil => exact ⟨[], .nil⟩
  | cons s α ih =>
    obtain ⟨v, hv⟩ := ih fun A hA ↦ h A (List.mem_cons_of_mem _ hA)
    cases s with
    | terminal k => exact ⟨k :: v, .terminal k hv⟩
    | nonterminal A =>
      obtain ⟨u, hu⟩ := h A List.mem_cons_self
      exact ⟨u ++ v, hu.append hv⟩

theorem exists_yields_of_productiveWithin {n : Nat} {A : Nonterminal}
    (h : productiveWithin n A) : ∃ w, Yields [.nonterminal A] w := by
  induction n generalizing A with
  | zero => cases h
  | succ n ih =>
    rw [productiveWithin, List.any_eq_true] at h
    obtain ⟨r, hr, h⟩ := h
    obtain ⟨hlook, hbody⟩ := Bool.and_eq_true_iff.1 h
    obtain ⟨k, hk⟩ := List.exists_mem_of_ne_nil r.lookaheads (by simpa using hlook)
    obtain ⟨w, hw⟩ : ∃ w, Yields r.body w := by
      refine Yields.exists_of_row fun B hB ↦ ih ?_
      exact List.all_eq_true.1 hbody _ hB
    exact ⟨w, .expand ⟨k, production_of_mem hr hk⟩ (by rwa [List.append_nil])⟩

theorem productiveWithin_all : ∀ A ∈ Nonterminal.all, productiveWithin 6 A := by
  decide +kernel

/-- Every row derives a word. -/
theorem exists_yields (α : List GrammarSymbol) : ∃ w, Yields α w :=
  Yields.exists_of_row fun A _ ↦
    exists_yields_of_productiveWithin (productiveWithin_all A A.mem_all)

end Grammar

open Grammar

/-! ### Errors and events wherever they stand -/

/-- Whether a parse stopped at a token that nothing on the stack could begin with. -/
def SyntaxError.isMismatch : SyntaxError → Bool
  | unexpectedSymbol _ _ _ | unexpectedToken _ _ _ | unexpectedEnd _ _ => true
  | trailingTokens _ _ | stepLimit _ | noTokens => false

/-- The same error at another place. -/
def SyntaxError.placedAt (p : Position) : SyntaxError → SyntaxError
  | unexpectedSymbol found expected _ => unexpectedSymbol found expected p
  | unexpectedToken found category _ => unexpectedToken found category p
  | unexpectedEnd expected _ => unexpectedEnd expected p
  | trailingTokens found _ => trailingTokens found p
  | stepLimit limit => stepLimit limit
  | noTokens => noTokens

theorem SyntaxError.placedAt_ne_stepLimit {e : SyntaxError} {p : Position} (he : e.isMismatch)
    (l : Nat) : e.placedAt p ≠ .stepLimit l := by
  cases e with
  | stepLimit limit => cases he
  | _ => exact nofun

/-- An event, but for the place of the token that was looked at. -/
def TraceEvent.unplaced : TraceEvent → TraceEvent
  | looked top lookahead _ => looked top lookahead .start
  | e => e

theorem TraceEvent.rewrite?_unplaced (e : TraceEvent) : e.unplaced.rewrite? = e.rewrite? := by
  cases e <;> rfl

theorem TraceEvent.read?_unplaced (e : TraceEvent) : e.unplaced.read? = e.read? := by
  cases e <;> rfl

theorem rewritesOf_map_unplaced (trace : List TraceEvent) :
    rewritesOf (trace.map TraceEvent.unplaced) = rewritesOf trace := by
  rw [rewritesOf, rewritesOf, List.filterMap_map]
  exact List.filterMap_congr fun e _ ↦ e.rewrite?_unplaced

theorem wordOf_map_unplaced (trace : List TraceEvent) :
    wordOf (trace.map TraceEvent.unplaced) = wordOf trace := by
  rw [wordOf, wordOf, List.filterMap_map]
  exact List.filterMap_congr fun e _ ↦ e.read?_unplaced

/-- Before tokens of one kind the same is done, or refused for the same reason. -/
theorem Move.of_eq_of_kind_eq {t u : Token} (h : u.kind = t.kind) (top : GrammarSymbol) :
    Move.of top u = (Move.of top t).mapError (SyntaxError.placedAt u.position) := by
  unfold Move.of
  rw [h]
  repeat' split
  all_goals rfl

/-- What a step reads is what its move does. -/
theorem wordOf_reverse_step (move : Move) (top : GrammarSymbol) (k : Kind) (p : Position)
    (seen : List TraceEvent) : wordOf (move.event :: .looked top k p :: seen).reverse =
      wordOf seen.reverse ++ move.event.read?.toList := by
  rw [wordOf_reverse_cons, wordOf_reverse_cons]
  simp [TraceEvent.read?]

/-- A verdict on an empty stack is no mismatch. -/
theorem Configuration.not_isMismatch_of_verdict {last : Token} {c : Configuration} {e : SyntaxError}
    (h : c.verdict last = some e) : e.isMismatch = false := by
  unfold verdict at h
  dsimp only at h
  split at h
  · cases h
  · rw [← Option.some.inj h]
    rfl

namespace Configuration

variable {last last' : Token} {limit limit' left : Nat} {seen seen' seen'' : List TraceEvent}
  {stack : List GrammarSymbol} {rest rest' : List Token} {e : SyntaxError} {read : List Kind}
  {result : Option SyntaxError}

/-- A step that is refused. -/
theorem run_of_error {top : GrammarSymbol} {below : List GrammarSymbol} {t : Token} {ts : List Token}
    (h : Move.of top t = .error e) : run last limit (left + 1) ⟨top :: below, t :: ts⟩ seen =
      (some e, .looked top t.kind t.position :: seen) := by
  have hahead : lookahead last ⟨top :: below, t :: ts⟩ = t := rfl
  rw [run_cons, hahead, h]

/-- A step that makes a move. -/
theorem run_of_ok {top : GrammarSymbol} {below : List GrammarSymbol} {t : Token} {ts : List Token}
    {move : Move} (h : Move.of top t = .ok move) :
    run last limit (left + 1) ⟨top :: below, t :: ts⟩ seen =
      run last limit left (after ⟨top :: below, t :: ts⟩ below move)
        (move.event :: .looked top t.kind t.position :: seen) := by
  have hahead : lookahead last ⟨top :: below, t :: ts⟩ = t := rfl
  rw [run_cons, hahead, h]

/-- A run has read some of the tokens, unless it has gone past the last one, and with whatever the
stack it leaves derives behind it, what it has read is derived from the stack it began with. -/
theorem exists_read (h : run last limit left ⟨stack, rest⟩ seen = (result, seen')) :
    ∃ read below, wordOf seen'.reverse = wordOf seen.reverse ++ read ∧
      (read.length ≤ rest.length → read <+: rest.map Token.kind) ∧
        ∀ w, Grammar.Yields below w → Grammar.Yields stack (read ++ w) := by
  -- On the rounds that are left; what was read so far grows by the token that the top of the stack matches.
  induction left generalizing stack rest seen with
  | zero =>
    obtain rfl : seen' = seen := by
      cases stack <;> exact (congrArg Prod.snd h).symm
    exact ⟨[], stack, by simp, by simp, fun w hw ↦ hw⟩
  | succ left ih =>
    cases stack with
    | nil =>
      rw [run_nil] at h
      obtain rfl : seen' = seen := (congrArg Prod.snd h).symm
      exact ⟨[], [], by simp, by simp, fun w hw ↦ hw⟩
    | cons top below =>
      rw [run_cons] at h
      cases hmove : Move.of top (lookahead last ⟨top :: below, rest⟩) with
      | error e =>
        rw [hmove] at h
        obtain rfl := (congrArg Prod.snd h).symm
        refine ⟨[], top :: below, ?_, by simp, fun w hw ↦ hw⟩
        rw [wordOf_reverse_cons]
        rfl
      | ok move =>
        rw [hmove] at h
        obtain ⟨read, under, hword, hprefix, hyields⟩ := ih h
        rw [wordOf_reverse_step, List.append_assoc] at hword
        cases top with
        | terminal k =>
          obtain ⟨hk, rfl⟩ := Move.of_terminal_eq_ok.1 hmove
          refine ⟨k :: read, under, hword, ?_, fun w hw ↦ .terminal k (hyields w hw)⟩
          intro hlength
          cases rest with
          | nil => cases hlength
          | cons t rest =>
            have htail : read <+: rest.map Token.kind := hprefix (Nat.le_of_succ_le_succ hlength)
            rw [List.map_cons, hk]
            exact (List.cons_prefix_cons).2 ⟨rfl, htail⟩
        | nonterminal A =>
          obtain ⟨body, hprod, rfl⟩ := Move.of_nonterminal_eq_ok.1 hmove
          rw [Move.read?_event_expand] at hword
          exact ⟨read, under, hword, hprefix, fun w hw ↦ .expand ⟨_, hprod⟩ (hyields w hw)⟩

/-- A run that stops at a mismatch does so on all sequences that agree up to that token. -/
theorem run_of_agree (h : run last limit left ⟨stack, rest⟩ seen = (some e, seen'))
    (he : e.isMismatch) (hread : wordOf seen'.reverse = wordOf seen.reverse ++ read)
    (hlength : read.length < rest.length)
    (hagree : (rest'.map Token.kind).take (read.length + 1) =
      (rest.map Token.kind).take (read.length + 1))
    (hseen : seen''.map TraceEvent.unplaced = seen.map TraceEvent.unplaced) :
    ∃ t, rest'[read.length]? = some t ∧
      (run last' limit' left ⟨stack, rest'⟩ seen'').1 = some (e.placedAt t.position) ∧
        (run last' limit' left ⟨stack, rest'⟩ seen'').2.map TraceEvent.unplaced =
          seen'.map TraceEvent.unplaced := by
  -- What has been read is a list whose length says how far the token at fault is away.
  induction left generalizing stack rest rest' seen seen'' read with
  | zero =>
    cases stack with
    | nil =>
      rw [run_nil] at h
      exact absurd he (by rw [not_isMismatch_of_verdict (congrArg Prod.fst h)]; decide)
    | cons top below =>
      obtain rfl : .stepLimit limit = e := by simpa [run] using congrArg Prod.fst h
      cases he
  | succ left ih =>
    cases stack with
    | nil =>
      rw [run_nil] at h
      exact absurd he (by rw [not_isMismatch_of_verdict (congrArg Prod.fst h)]; decide)
    | cons top below =>
      obtain ⟨t, ts, rfl⟩ : ∃ t ts, rest = t :: ts := by
        cases rest with
        | nil => cases hlength
        | cons t ts => exact ⟨t, ts, rfl⟩
      obtain ⟨u, us, rfl⟩ : ∃ u us, rest' = u :: us := by
        cases rest' with
        | nil => cases hagree
        | cons u us => exact ⟨u, us, rfl⟩
      obtain ⟨hkind, htail⟩ : u.kind = t.kind ∧
          (us.map Token.kind).take read.length = (ts.map Token.kind).take read.length :=
        List.cons.inj hagree
      have hmoves : Move.of top u = (Move.of top t).mapError (SyntaxError.placedAt u.position) :=
        Move.of_eq_of_kind_eq hkind top
      have hlooked (done : List TraceEvent) :
          (done ++ .looked top u.kind u.position :: seen'').map TraceEvent.unplaced =
            (done ++ .looked top t.kind t.position :: seen).map TraceEvent.unplaced := by
        rw [List.map_append, List.map_append, List.map_cons, List.map_cons, hseen]
        exact congrArg (_ ++ · :: _) (by rw [hkind]; rfl)
      cases hmove : Move.of top t with
      | error e' =>
        rw [run_of_error hmove] at h
        obtain ⟨he', rfl⟩ := Prod.mk.inj h
        obtain rfl : e' = e := Option.some.inj he'
        obtain rfl : read = [] := by
          rw [wordOf_reverse_cons] at hread
          exact (List.append_cancel_left hread).symm
        rw [run_of_error (hmoves.trans (congrArg _ hmove))]
        exact ⟨u, rfl, rfl, hlooked []⟩
      | ok move =>
        rw [run_of_ok hmove] at h
        rw [run_of_ok (hmoves.trans (congrArg _ hmove))]
        obtain ⟨read', _, hword, -, -⟩ := exists_read h
        obtain rfl : read = move.event.read?.toList ++ read' := by
          rw [wordOf_reverse_step, List.append_assoc] at hword
          exact List.append_cancel_left (hread.symm.trans hword)
        cases top with
        | terminal k =>
          obtain ⟨-, rfl⟩ := Move.of_terminal_eq_ok.1 hmove
          exact ih h hword (Nat.lt_of_succ_lt_succ hlength) htail (hlooked [_])
        | nonterminal A =>
          obtain ⟨body, -, rfl⟩ := Move.of_nonterminal_eq_ok.1 hmove
          rw [Move.read?_event_expand] at hlength hagree ⊢
          exact ih h hword hlength hagree (hlooked [_])

end Configuration

section

variable {limit limit' : Nat} {tokens tokens' : List Token} {e : SyntaxError} {i : Nat}

/-- A parse has read some of the tokens, and what it has read can be completed to a program. -/
theorem exists_program_of_parse (hi : (wordOf (parse limit tokens).trace).length = i)
    (hlt : i < tokens.length) :
    wordOf (parse limit tokens).trace = (tokens.map Token.kind).take i ∧
      ∃ w ∈ contextFree.language, (tokens.map Token.kind).take i <+: w := by
  obtain ⟨last, hlast⟩ : ∃ last, tokens.getLast? = some last :=
    ⟨_, List.getLast?_eq_some_getLast (List.ne_nil_of_length_pos (by omega))⟩
  rw [parse_eq_run hlast] at hi ⊢
  obtain ⟨⟨result, seen⟩, hrun⟩ :
      ∃ outcome, Configuration.run last limit limit (.initial tokens) [] = outcome := ⟨_, rfl⟩
  obtain ⟨read, below, hword, hstart, hyields⟩ := Configuration.exists_read hrun
  have hread :
      wordOf (Configuration.run last limit limit (.initial tokens) []).2.reverse = read := by
    rw [hrun]
    exact hword
  rw [hread] at hi ⊢
  have htake : read = (tokens.map Token.kind).take i := by
    rw [← hi]
    exact List.prefix_iff_eq_take.1 (hstart (by omega))
  obtain ⟨w, hw⟩ := exists_yields below
  refine ⟨htake, read ++ w, mem_language_iff.2 (hyields w hw), ?_⟩
  rw [← htake]
  exact List.prefix_append _ _

/-- A sequence that agrees with one refused for a mismatch, up to the token at fault, is refused at
that token with the same allowance of steps. -/
theorem parse_of_agree (h : (parse limit tokens).error = some e) (he : e.isMismatch)
    (hi : (wordOf (parse limit tokens).trace).length = i) (hlt : i < tokens.length)
    (hagree : (tokens'.map Token.kind).take (i + 1) = (tokens.map Token.kind).take (i + 1)) :
    ∃ t, tokens'[i]? = some t ∧ (parse limit tokens').error = some (e.placedAt t.position) ∧
      (parse limit tokens').trace.map TraceEvent.unplaced =
        (parse limit tokens).trace.map TraceEvent.unplaced := by
  obtain ⟨last, hlast⟩ : ∃ last, tokens.getLast? = some last :=
    ⟨_, List.getLast?_eq_some_getLast (List.ne_nil_of_length_pos (by omega))⟩
  obtain ⟨last', hlast'⟩ : ∃ last', tokens'.getLast? = some last' := by
    refine ⟨_, List.getLast?_eq_some_getLast ?_⟩
    rintro rfl
    have hempty : tokens.map Token.kind = [] := by simpa using hagree.symm
    rw [List.map_eq_nil_iff.1 hempty] at hlt
    cases hlt
  rw [parse_eq_run hlast] at h hi ⊢
  rw [parse_eq_run hlast']
  subst hi
  have hseen : ([] : List TraceEvent).map TraceEvent.unplaced = [] := rfl
  obtain ⟨t, ht, herror, htrace⟩ :=
    Configuration.run_of_agree (Prod.ext h rfl) he rfl hlt hagree hseen
  refine ⟨t, ht, herror, ?_⟩
  rw [List.map_reverse, List.map_reverse]
  exact congrArg List.reverse htrace

/-- A mismatch is found as early as it can be.  When the machine stops at one, having read `i` of the
tokens and looking at the next, then every sequence that agrees with these in kind up to that token
is refused there, for the same reason and after the same rules, unless it is allowed fewer steps
than that takes; and the `i` tokens read are the front of a word of the grammar. -/
theorem mismatch_decided_by_prefix (h : (parse limit tokens).error = some e) (he : e.isMismatch)
    (hi : (wordOf (parse limit tokens).trace).length = i) (hlt : i < tokens.length) :
    (∀ limit' tokens',
        (tokens'.map Token.kind).take (i + 1) = (tokens.map Token.kind).take (i + 1) →
        (limit ≤ limit' ∨ (parse limit' tokens').error ≠ some (.stepLimit limit')) →
        ∃ t, tokens'[i]? = some t ∧ (parse limit' tokens').error = some (e.placedAt t.position) ∧
          wordOf (parse limit' tokens').trace = (tokens'.map Token.kind).take i ∧
            rewritesOf (parse limit' tokens').trace = rewritesOf (parse limit tokens).trace) ∧
      ∃ w ∈ contextFree.language, (tokens.map Token.kind).take i <+: w := by
  refine ⟨fun limit' tokens' hagree hallowed ↦ ?_, (exists_program_of_parse hi hlt).2⟩
  obtain ⟨t, ht, herror, htrace⟩ := parse_of_agree h he hi hlt hagree
  have hstops : (parse limit tokens').error ≠ some (.stepLimit limit) := by
    rw [herror]
    exact fun hlimit ↦ SyntaxError.placedAt_ne_stepLimit he limit (Option.some.inj hlimit)
  have hsame : parse limit' tokens' = parse limit tokens' := by
    rcases hallowed with hle | hne
    · exact parse_eq_of_le hstops hle
    · exact parse_eq_of_ne hne hstops
  have hword : wordOf (parse limit tokens').trace = wordOf (parse limit tokens).trace := by
    rw [← wordOf_map_unplaced, htrace, wordOf_map_unplaced]
  have hrewrites :
      rewritesOf (parse limit tokens').trace = rewritesOf (parse limit tokens).trace := by
    rw [← rewritesOf_map_unplaced, htrace, rewritesOf_map_unplaced]
  have hlt' : i < tokens'.length := (List.getElem?_eq_some_iff.1 ht).1
  rw [hsame]
  exact ⟨t, ht, herror, (exists_program_of_parse (by rw [hword, hi]) hlt').1, hrewrites⟩

/-- The tokens of a program whose entry point is given a parameter. -/
def parameterProgram : List Token :=
  [⟨.mainWord, "mn", ⟨1, 1⟩⟩, ⟨.leftParen, "(", ⟨1, 3⟩⟩, ⟨.intWord, "nt", ⟨1, 4⟩⟩,
   ⟨.identifier, "n", ⟨1, 7⟩⟩, .endOfInput ⟨1, 8⟩]

/-- Any program that begins like this one is refused at its third token. -/
theorem mismatch_decided_by_prefix_parameterProgram :
    (parse 64 parameterProgram).error = some (.unexpectedSymbol .intWord .rightParen ⟨1, 4⟩) ∧
      (wordOf (parse 64 parameterProgram).trace).length = 2 ∧
      (∀ tokens', (tokens'.map Token.kind).take 3 = [.mainWord, .leftParen, .intWord] →
        ∃ t, tokens'[2]? = some t ∧
          (parse 64 tokens').error = some (.unexpectedSymbol .intWord .rightParen t.position)) ∧
      ∃ w ∈ contextFree.language, [Kind.mainWord, .leftParen] <+: w := by
  have herror : (parse 64 parameterProgram).error =
      some (.unexpectedSymbol .intWord .rightParen ⟨1, 4⟩) := by decide +kernel
  have hread : (wordOf (parse 64 parameterProgram).trace).length = 2 := by decide +kernel
  obtain ⟨hsame, hprefix⟩ := mismatch_decided_by_prefix herror rfl hread (by decide)
  refine ⟨herror, hread, fun tokens' hagree ↦ ?_, hprefix⟩
  obtain ⟨t, ht, htokens', -, -⟩ := hsame 64 tokens' hagree (.inl (Nat.le_refl 64))
  exact ⟨t, ht, htokens'⟩

end

end FrontEnd
