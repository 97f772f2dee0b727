import FrontEnd.Proofs.Check.KeepsScopes
import FrontEnd.Proofs.Check.NeverLost
import FrontEnd.Proofs.Check.TracedHeaders
import FrontEnd.Proofs.Scope.Distinct
import Mathlib.Data.List.Chain

/-!
# The life of symbols

The states a run goes through are the one it starts in and those of its moments.  From each of them
to the next, every scope that is there in both has kept its symbols, each `Symbol.Later` than it was;
so over any stretch of a run in which a scope lives it has (`symbols_keep_their_declarations`).

Only one change needs an argument.  When a body has been checked it is recorded whether it returns,
and this could be recorded twice.  But the walk over the bodies goes forward, and a function is
recorded only behind the brace that closes its body (`Unchecked`); its symbol is the only one of its
name, since no scope declares a name twice (`Arena.Distinct`).
-/

namespace FrontEnd

open Check

/-- A state and those of the moments after it, first to last. -/
def State.through (s : State) (past : List Moment) : List State :=
  s :: past.reverse.map Moment.state

/-- The scope with an index is there in both states, and its symbols have become nothing but what
they may become. -/
def State.Retains (id : Nat) (s after : State) : Prop :=
  ∃ scope kept, s.arena.scope? id = some scope ∧ after.arena.scope? id = some kept ∧
    scope.Follows Symbol.Later kept

/-- The states a run of a check goes through, first to last. -/
def Check.states {α : Type} (x : Check α) (c : Context) (s : State) : List State :=
  s.through (x.momentsFrom c s)

section

variable {α β : Type} {x : Check α} {c : Context} {s t u f : State} {past later : List Moment}
  {R : Rules} {a after : Arena} {id : Nat} {name : String}

/-! ### What a trace keeps -/

/-- The rules of a walk that keeps what holds of a state. -/
def Rules.keeping (P : State → Prop) : Rules :=
  ⟨fun _ s t ↦ P s → P t, fun _ _ ↦ True⟩

/-- What every change keeps, and the opening and the release of a scope, holds of all states of a
trace. -/
theorem Trace.keeps_all {P : State → Prop}
    (hentered : ∀ s c label, 0 < s.arena.size → P s → P (s.entered c label))
    (hreleased : ∀ s scope, scope ≠ 0 → P s → P (s.released scope))
    (h : Trace (.keeping fun s ↦ 0 < s.arena.size ∧ P s) c s past t)
    (hs : 0 < s.arena.size ∧ P s) :
    (0 < t.arena.size ∧ P t) ∧ ∀ m ∈ past, 0 < m.state.arena.size ∧ P m.state := by
  induction h with
  | nil => exact ⟨hs, fun m hm ↦ absurd hm List.not_mem_nil⟩
  | lookup _ _ ih =>
    obtain ⟨hlast, hpast⟩ := ih hs
    exact ⟨hlast, List.forall_mem_cons.2 ⟨hlast, hpast⟩⟩
  | change _ hchange ih =>
    obtain ⟨hlast, hpast⟩ := ih hs
    have hnext := hchange hlast
    exact ⟨hnext, List.forall_mem_cons.2 ⟨hnext, hpast⟩⟩
  | inside _ _ _ ih ihinner =>
    obtain ⟨hlast, hpast⟩ := ih hs
    obtain ⟨hnext, hinner⟩ := ihinner hlast
    exact ⟨hnext, List.forall_mem_append.2 ⟨hinner, hpast⟩⟩
  | @inScope c _ t u _ _ _ label _ ih ihinner =>
    obtain ⟨hlast, hpast⟩ := ih hs
    have hopened : 0 < (t.entered c label).arena.size ∧ P (t.entered c label) :=
      ⟨State.size_entered_pos _ _ label, hentered _ _ label hlast.1 hlast.2⟩
    obtain ⟨hend, hinner⟩ := ihinner hopened
    have hscope : t.arena.size ≠ 0 := Nat.ne_of_gt hlast.1
    have hleft : 0 < (u.released t.arena.size).arena.size ∧ P (u.released t.arena.size) :=
      ⟨Arena.size_release_pos hend.1 hscope, hreleased _ _ hscope hend.2⟩
    exact ⟨hleft, List.forall_mem_cons.2 ⟨hleft, List.forall_mem_append.2
      ⟨hinner, List.forall_mem_cons.2 ⟨hopened, hpast⟩⟩⟩⟩

/-- What every change keeps, and the opening and the release of a scope, a trace keeps. -/
theorem Trace.keeps {P : State → Prop}
    (hentered : ∀ s c label, 0 < s.arena.size → P s → P (s.entered c label))
    (hreleased : ∀ s scope, scope ≠ 0 → P s → P (s.released scope))
    (h : Trace (.keeping fun s ↦ 0 < s.arena.size ∧ P s) c s past t)
    (hs : 0 < s.arena.size ∧ P s) : 0 < t.arena.size ∧ P t :=
  (h.keeps_all hentered hreleased hs).1

/-- The rules of a walk on which the scopes that stay keep their symbols in a relation. -/
def Rules.following (r : Symbol → Symbol → Prop) : Rules :=
  ⟨fun _ s t ↦ s.arena.Follows r t.arena, fun _ _ ↦ True⟩

theorem Part.marked_mark (part : Part) (symbol : Symbol) : symbol.Marked (part.mark symbol) := by
  cases part with
  | whole | element => exact symbol.marked_withValue
  | member name => exact symbol.marked_withMember name

theorem Change.follows (h : Change c s t) : s.arena.Follows Symbol.Marked t.arena := by
  cases h with
  | moved | warned | returned => exact .refl Symbol.Marked.refl _
  | marked name part => exact .modify Symbol.Marked.refl fun _ _ symbol _ _ ↦ part.marked_mark symbol
  | declared hinsert => exact .insert Symbol.Marked.refl hinsert

instance : (Rules.following Symbol.Marked).Ordinary :=
  ⟨Change.follows, fun _ _ ↦ trivial⟩

instance : (Rules.following Symbol.Marked).Entering :=
  ⟨fun _ ↦ .refl Symbol.Marked.refl _, fun _ _ _ ↦ trivial⟩

instance : (Rules.following Symbol.Later).Ordinary :=
  ⟨fun h ↦ h.follows.mono fun _ _ h ↦ h.toLater, fun _ _ ↦ trivial⟩

instance : (Rules.following Symbol.Later).Entering :=
  ⟨fun _ ↦ .refl Symbol.Later.refl _, fun _ _ _ ↦ trivial⟩

instance : (Rules.following Symbol.Later).Surveying where
  declared _ h := .insert Symbol.Later.refl h
  opened label := .push Symbol.Later.refl _ 0 label
  recorded _ h := .insert Symbol.Later.refl h

theorem Part.name_mark (part : Part) (symbol : Symbol) : (part.mark symbol).name = symbol.name :=
  (part.marked_mark symbol).name

/-- The rules of a walk that declares no name twice. -/
def Rules.distinct : Rules :=
  .keeping fun s ↦ 0 < s.arena.size ∧ s.arena.Distinct

theorem Change.size_eq (h : Change c s t) : t.arena.size = s.arena.size :=
  h.sameScopes.size_eq

theorem Change.distinct (h : Change c s t) (hs : 0 < s.arena.size ∧ s.arena.Distinct) :
    0 < t.arena.size ∧ t.arena.Distinct := by
  refine ⟨h.size_eq ▸ hs.1, ?_⟩
  cases h with
  | moved | warned | returned => exact hs.2
  | marked name part => exact hs.2.modify part.name_mark
  | declared hinsert => exact hs.2.insert hinsert

instance : Rules.distinct.Ordinary :=
  ⟨Change.distinct, fun _ _ ↦ trivial⟩

instance : Rules.distinct.Surveying where
  declared _ h hs := ⟨(Arena.size_insert h).symm ▸ hs.1, hs.2.insert h⟩
  opened label hs := ⟨by simp [Arena.push, Arena.size], hs.2.push 0 label⟩
  recorded _ h hs := ⟨(Arena.size_insert h).symm ▸ hs.1, hs.2.insert h⟩

instance : Rules.distinct.Entering :=
  ⟨fun _ hs ↦ hs, fun _ _ _ ↦ trivial⟩

theorem Symbol.name_withReturn (symbol : Symbol) (sawReturn : Bool) :
    (symbol.withReturn sawReturn).name = symbol.name :=
  (keepsBodies_withReturn sawReturn symbol).1

theorem Rules.distinct_recordReturn (c : Context) (s : State) (name : String) (sawReturn : Bool) :
    Rules.distinct.change c s
      { s with arena := s.arena.modify 0 name (Symbol.withReturn sawReturn) } :=
  fun hs ↦ ⟨(Arena.size_modify _).symm ▸ hs.1, hs.2.modify fun symbol ↦ symbol.name_withReturn _⟩

theorem Trace.distinct (h : Trace .distinct c s past t) (hs : 0 < s.arena.size ∧ s.arena.Distinct) :
    0 < t.arena.size ∧ t.arena.Distinct :=
  h.keeps (fun _ c label _ hs ↦ hs.push c.scope label) (fun _ _ hscope hs ↦ hs.release hscope) hs

/-! ### What is known of functions -/

/-- The rules of a walk that keeps what is known of the global functions of some names. -/
def Rules.keepingInfo (names : String → Prop) (f : State) : Rules :=
  .keeping fun s ↦ 0 < s.arena.size ∧
    ∀ name, names name → ∀ info, f.arena.info? name = some info → s.arena.info? name = some info

instance (names : String → Prop) (f : State) : (Rules.keepingInfo names f).Ordinary where
  change h hs := by
    have hafter := h.size_eq ▸ hs.1
    exact ⟨hafter, fun name hname info hinfo ↦
      Arena.info?_of_follows h.follows hafter (hs.2 name hname info hinfo)⟩
  inside _ _ := trivial

instance (names : String → Prop) (f : State) : (Rules.keepingInfo names f).Entering :=
  ⟨fun _ hs ↦ hs, fun _ _ _ ↦ trivial⟩

/-- A trace that keeps what is known of some functions. -/
theorem Trace.info {names : String → Prop} (h : Trace (.keepingInfo names f) c s past t)
    (hs : 0 < s.arena.size) (hf : ∀ name, names name → ∀ info, f.arena.info? name = some info →
      s.arena.info? name = some info) {name : String} (hname : names name) {info : FunctionInfo}
    (hinfo : f.arena.info? name = some info) : t.arena.info? name = some info := by
  refine (h.keeps (fun s c label hs hf name hname info hinfo ↦ ?_)
    (fun s scope hscope hf name hname info hinfo ↦ ?_) ⟨hs, hf⟩).2 name hname info hinfo
  · exact (Arena.info?_push hs c.scope label).trans (hf name hname info hinfo)
  · exact (Arena.info?_release hscope).trans (hf name hname info hinfo)

/-! ### The walk over the bodies -/

/-- In the walk over the bodies: it is in step with the headers, no name is declared twice, and of
functions whose body ends further on nothing was recorded since. -/
structure Unchecked (c : Context) (f s : State) : Prop where
  inStep : InStep c f s
  distinct : 0 < s.arena.size ∧ s.arena.Distinct
  info : ∀ name info, f.arena.info? name = some info → s.position ≤ info.body.stop →
    s.arena.info? name = some info

theorem Recorded.info? {token : Token} {info : FunctionInfo} (h : Recorded f token info) :
    f.arena.info? token.lexeme = some info := by
  unfold Arena.info?
  rw [h.symbol]
  rfl

/-- Up to its body, what is known of a function is what its header says. -/
theorem Unchecked.runFrom_signature (h : Unchecked c f s) {token : Token} {info : FunctionInfo}
    (hrecorded : Recorded f token info) (hstop : s.position ≤ info.body.stop) :
    ∃ p, (signature token.lexeme).runFrom c s = (.ok (info, p), s) := by
  have hinfo := h.info _ _ hrecorded.info? hstop
  obtain ⟨symbol, hsymbol, hfunction⟩ := Option.bind_eq_some_iff.1 hinfo
  have hrun : Ensures (signature token.lexeme) c s (fun _ ↦ False) fun found after ↦
      found = (info, symbol.position) ∧ after = s := by
    simp only [signature, ensures_bind, ensures_get, hsymbol, hfunction, ensures_pure]
    exact ⟨trivial, trivial⟩
  exact ⟨symbol.position, hrun.run_eq⟩

/-- What is known of a function before its body is known behind it, and no name is declared twice. -/
theorem Unchecked.info?_bodyStatements (h : Unchecked c f s) {token : Token} {info : FunctionInfo}
    (hrecorded : Recorded f token info) (hstop : s.position ≤ info.body.stop) :
    let after := (bodyStatements token.lexeme info).leaves c s
    after.arena.info? token.lexeme = some info ∧ after.arena.Distinct := by
  have hinfo := h.info _ _ hrecorded.info? hstop
  exact ⟨(Traced.bodyStatements (R := .keepingInfo (fun _ ↦ True) s) token.lexeme info c s).info
    h.distinct.1 (fun _ _ _ hinfo ↦ hinfo) trivial hinfo,
    ((Traced.bodyStatements token.lexeme info c s).distinct h.distinct).2⟩

/-- The walk over a body keeps to the symbols, since nothing was recorded of the function before. -/
theorem Unchecked.trace_functionBody (h : Unchecked c f s) {token : Token} {info : FunctionInfo}
    (hrecorded : Recorded f token info) (hstop : s.position ≤ info.body.stop) :
    Trace (.following Symbol.Later) c s ((functionBody token.lexeme).momentsFrom c s)
      ((functionBody token.lexeme).leaves c s) := by
  obtain ⟨p, hsignature⟩ := h.runFrom_signature hrecorded hstop
  obtain ⟨hkept, hdistinct⟩ := h.info?_bodyStatements hrecorded hstop
  refine .bind (Traced.signature _ c s) fun found t hrun ↦ ?_
  cases hsignature.symm.trans hrun
  refine .bind (Traced.bodyStatements token.lexeme info c s) fun _ t hbody ↦ ?_
  have ht : (bodyStatements token.lexeme info).leaves c s = t := congrArg Prod.snd hbody
  rw [ht] at hkept hdistinct
  refine .bind (Traced.moveTo _ c t) fun _ u hmove ↦ ?_
  cases hmove
  refine .bind (Traced.get c _) fun _ u hget ↦ ?_
  cases hget
  refine .bind ((Trace.nil c _).change (R := .following Symbol.Later) ?_)
    fun _ u _ ↦ Traced.ite (.refuse _) (.pure _) c u
  exact Arena.follows_recordReturn hdistinct hkept hrecorded.unchecked _

/-- A round that comes to no function leaves the trace of a struct or a statement. -/
theorem Trace.programRound [R.Ordinary]
    (hword : ¬(c.kindAt s.position = .functionWord ∨ c.kindAt s.position = .mainWord)) :
    Trace R c s (programRound.momentsFrom c s) (programRound.leaves c s) := by
  refine .bind (Traced.peekKind c s) fun k after hrun ↦ ?_
  cases hrun
  split
  next hk => exact absurd (.inl hk) hword
  next hk => exact absurd (.inr hk) hword
  · exact Traced.skipStruct c s
  · exact (Traced.read.bind fun c ↦ (Traced.statement c.limits.nesting).discard) c s

/-- A round keeps to the symbols. -/
theorem Unchecked.trace_programRound (h : Unchecked c f s) :
    Trace (.following Symbol.Later) c s (programRound.momentsFrom c s) (programRound.leaves c s) := by
  by_cases hword : c.kindAt s.position = .functionWord ∨ c.kindAt s.position = .mainWord
  · obtain ⟨name, info, _, hlookup, hrecorded, _, hstop, _⟩ := h.inStep.function hword
    unfold Check.momentsFrom Check.leaves Check.runFrom
    rw [run_programRound_function hword hlookup]
    exact h.trace_functionBody hrecorded (Nat.le_of_lt hstop)
  · exact .programRound hword

/-- What a round of the walk over the bodies leads to. -/
theorem Unchecked.next (hc : c.Closed) (h : Unchecked c f s)
    (hrun : programRound.runFrom c s = (.ok (), t)) : Unchecked c f t := by
  obtain ⟨hinStep, hle⟩ := (ensures_programRound hc h.inStep).of_run hrun
  have hleaves : programRound.leaves c s = t := congrArg Prod.snd hrun
  have hdistinct := (Traced.programRound Rules.distinct_recordReturn c s).distinct h.distinct
  rw [hleaves] at hdistinct
  refine ⟨hinStep, hdistinct, fun name info hinfo hstop ↦ ?_⟩
  have hbefore := h.info name info hinfo (Nat.le_trans hle hstop)
  by_cases hword : c.kindAt s.position = .functionWord ∨ c.kindAt s.position = .mainWord
  · obtain ⟨token, checked, _, hlookup, hrecorded, hbody, hlt, _⟩ := h.inStep.function hword
    have hsame := run_programRound_function hword hlookup []
    have hrunBody : (functionBody token.lexeme).runFrom c s = (.ok (), t) :=
      (congrArg Prod.fst hsame).symm.trans hrun
    have hposition := ((ensures_functionBody hc hbody
      (h.inStep.keeps.bodies _ _ hrecorded.body?)).of_run hrunBody).1
    -- the function that was checked ends before, so it is another one
    have hne : name ≠ token.lexeme := by
      rintro rfl
      cases hinfo.symm.trans hrecorded.info?
      omega
    have hkept := (Traced.functionBody (R := .keepingInfo (· ≠ token.lexeme) s) (fun c u sawReturn hu ↦
      ⟨(Arena.size_modify _).symm ▸ hu.1, fun other hother info hinfo ↦
        (Arena.info?_modify_of_ne hother _ fun symbol ↦ symbol.name_withReturn _).trans
          (hu.2 other hother info hinfo)⟩) c s).info h.distinct.1 (fun _ _ _ hinfo ↦ hinfo) hne hbefore
    rwa [show (functionBody token.lexeme).leaves c s = t from congrArg Prod.snd hrunBody] at hkept
  · have hkept := (Trace.programRound (R := .keepingInfo (fun _ ↦ True) s) hword).info h.distinct.1
      (fun _ _ _ hinfo ↦ hinfo) trivial hbefore
    rwa [hleaves] at hkept

/-- However many rounds the walk over the bodies makes, it keeps to the symbols. -/
theorem Unchecked.trace_rounds (hc : c.Closed) :
    ∀ left {s : State}, Unchecked c f s →
      let rounds := roundsFrom (return !(← atEnd)) (fun _ ↦ do programRound; return .yield ()) left ()
      Trace (.following Symbol.Later) c s (rounds.momentsFrom c s) (rounds.leaves c s) := by
  have hdue (s : State) : (do return !(← atEnd) : Check Bool).runFrom c s =
      (.ok (!(c.kindAt s.position == .eof)), s) := rfl
  intro left
  induction left with
  | zero =>
    intro s _
    exact ((Traced.atEnd.bind fun _ ↦ .pure _).bind fun _ ↦
      .ite (Traced.read.bind fun _ ↦ .violate _) (.pure _)) c s
  | succ left ih =>
    intro s h
    refine .bind ((Traced.atEnd.bind fun _ ↦ .pure _) c s) fun more after hrun ↦ ?_
    cases (hdue s).symm.trans hrun
    by_cases hend : c.kindAt s.position = .eof
    · rw [hend]
      exact .nil c s
    · rw [beq_eq_false_iff_ne.2 hend]
      simp only [Bool.not_false, if_true, bind_assoc, pure_bind]
      exact .bind h.trace_programRound fun _ after hround ↦ ih (h.next hc hround)

/-- The run of a program of which no symbol is declared yet keeps to the symbols. -/
theorem trace_program (hc : c.Closed) (hw : c.Worded) (hs : Orderly s) (hdistinct : s.arena.Distinct)
    (hstart : s.position = 0) :
    Trace (.following Symbol.Later) c s (program.momentsFrom c s) (program.leaves c s) := by
  refine .bind (Traced.read c s) fun _ _ hread ↦ ?_
  cases hread
  cases c.tokens.isEmpty with
  | true => exact .bind (Traced.violate _ c s) fun _ _ hrun ↦ by cases hrun
  | false =>
    refine .bind (TracedFrom.headers hc hw hs) fun _ f hheaders ↦ ?_
    obtain ⟨symbols, hf⟩ := (ensures_headers hc hw hs).of_run hheaders
    have hdistinct := (TracedFrom.headers hc hw hs).distinct ⟨hs.size_pos, hdistinct⟩
    rw [show headers.leaves c s = f from congrArg Prod.snd hheaders] at hdistinct
    refine .bind (Traced.moveTo 0 c f) fun _ start hmove ↦ ?_
    cases hmove
    refine .bind (Traced.read c _) fun _ _ hread ↦ ?_
    cases hread
    have hlaid := hf.laid
    rw [hstart] at hlaid
    exact Unchecked.trace_rounds (f := f) hc c.limits.scan
      ⟨⟨⟨symbols, hlaid⟩, (SameTables.movedTo.2 (.refl f)).keeps⟩, hdistinct, fun _ _ hinfo _ ↦ hinfo⟩

/-! ### Stretches of a run -/

theorem State.through_append (s : State) (past later : List Moment) :
    s.through (later ++ past) = s.through past ++ later.reverse.map Moment.state := by
  simp [through]

/-- The states from one through the moments up to another, where the scopes that stay keep their
symbols in a relation. -/
structure Linked (r : Symbol → Symbol → Prop) (s : State) (past : List Moment) (t : State) :
    Prop where
  chain : (s.through past).IsChain fun before after ↦ before.arena.Follows r after.arena
  last : ∃ before, s.through past = before ++ [t]

namespace Linked

variable {r : Symbol → Symbol → Prop}

theorem nil (r : Symbol → Symbol → Prop) (s : State) : Linked r s [] s :=
  ⟨.singleton s, [], rfl⟩

theorem one (h : s.arena.Follows r t.arena) (c : Context) (lookup : Option String) :
    Linked r s [⟨c, t, lookup⟩] t :=
  ⟨.cons_cons h (.singleton t), [s], rfl⟩

theorem append (h : Linked r s past t) (h' : Linked r t later u) : Linked r s (later ++ past) u := by
  obtain ⟨before, hbefore⟩ := h.last
  obtain ⟨between, hbetween⟩ := h'.last
  have hstates : s.through (later ++ past) = before ++ t.through later := by
    rw [State.through_append, hbefore, List.append_assoc]
    rfl
  refine ⟨?_, before ++ between, by rw [hstates, hbetween, List.append_assoc]⟩
  rw [State.through_append, hbefore]
  exact (hbefore ▸ h.chain).append_overlap h'.chain (List.cons_ne_nil _ _)

end Linked

theorem Trace.linked {r : Symbol → Symbol → Prop} (hr : ∀ symbol, r symbol symbol)
    (h : Trace (.following r) c s past t) : Linked r s past t := by
  induction h with
  | nil c s => exact .nil r s
  | lookup _ name ih => exact ih.append (.one (.refl hr _) _ _)
  | change _ hchange ih => exact ih.append (.one hchange _ _)
  | inside _ _ _ ih ihinner => exact ih.append ihinner
  | @inScope c s t u _ _ _ label _ ih ihinner =>
    have hentered : t.arena.Follows r (t.entered c label).arena := .push hr _ _ label
    have hreleased : u.arena.Follows r (u.released t.arena.size).arena := .release hr _ _
    exact ((ih.append (.one hentered _ none)).append ihinner).append (.one hreleased _ none)

theorem State.Retains.trans (h : s.Retains id t) (h' : t.Retains id u) : s.Retains id u := by
  obtain ⟨scope, kept, hscope, hkept, hfollows⟩ := h
  obtain ⟨_, last, hkept', hlast, hfollows'⟩ := h'
  cases hkept.symm.trans hkept'
  exact ⟨scope, last, hscope, hlast, hfollows.trans Symbol.Later.trans hfollows'⟩

/-- While a scope lives, it retains its symbols. -/
theorem Linked.pairwise (h : Linked Symbol.Later s past t) {during : List State}
    (hduring : during <:+: s.through past) (hlives : ∀ u ∈ during, id < u.arena.size) :
    during.Pairwise (State.Retains id) := by
  have : Trans (State.Retains id) (State.Retains id) (State.Retains id) := ⟨State.Retains.trans⟩
  have hchain := List.IsChain.infix h.chain hduring
  refine List.isChain_iff_pairwise.1 (hchain.imp_of_mem_imp ?_)
  intro before after hbefore hafter hfollows
  obtain ⟨scope, hscope⟩ := Option.isSome_iff_exists.1
    (Arena.scope?_isSome_iff.2 (hlives before hbefore))
  obtain ⟨kept, hkept⟩ := Option.isSome_iff_exists.1
    (Arena.scope?_isSome_iff.2 (hlives after hafter))
  exact ⟨scope, kept, hscope, hkept, hfollows id scope kept hscope hkept⟩

/-! ### What a statement adds -/

theorem Change.addsTo (h : Change c s t) : s.arena.AddsTo c.scope t.arena := by
  cases h with
  | moved | warned | returned => exact .refl _ _
  | marked name part => exact .modify part.marked_mark _ _ _ _
  | declared hinsert => exact .insert hinsert

/-- A walk over statements adds symbols to the innermost scope only, however it ends. -/
theorem Trace.addsTo (h : Trace .statements c s past t) (hs : 0 < s.arena.size) :
    s.arena.AddsTo c.scope t.arena := by
  induction h with
  | nil c s => exact .refl _ _
  | lookup _ _ ih => exact ih hs
  | change _ hchange ih => exact (ih hs).trans hchange.addsTo
  | inside _ hinside _ ih ihinner =>
    obtain ⟨kind, rfl⟩ := hinside
    have hfirst := ih hs
    exact hfirst.trans (ihinner (hfirst.size ▸ hs))
  | inScope _ label _ ih ihinner =>
    have hfirst := ih hs
    have hmiddle := hfirst.size ▸ hs
    exact hfirst.trans ((ihinner (State.size_entered_pos _ _ label)).released hmiddle _)

/-- Declared symbols keep their declarations.

In the check of a scanned text, whatever stops it, a scope retains its symbols over every stretch of
states in which it lives: each stays where it stands in the scope, and it keeps its name, kind, type,
shape and place, a function also its signature, scope and body.  It may be given a value, or more of
its members may be, and a body may be found to return.  The last state is the one whose symbols are
returned.

A statement, however it ends, leaves the scopes that were there with the symbols they had, and none
but the one it started in with new ones. -/
theorem symbols_keep_their_declarations (limits : Limits) (wordLimit : Nat) (source : String) :
    (let tokens := (scan wordLimit source).tokens
      let states := program.states (.top limits tokens) .initial
      (∀ during, during <:+: states → ∀ id, (∀ s ∈ during, id < s.arena.size) →
        during.Pairwise (State.Retains id)) ∧
      states.getLast?.map State.arena = some (analyze limits tokens).symbols.arena) ∧
    ∀ (levels : Nat) (c : Context) (s : State), 0 < s.arena.size →
      let after := (statement levels).leaves c s
      after.arena.size = s.arena.size ∧
        ∀ id, id < s.arena.size → s.Retains id after ∧
          (id ≠ c.scope → (after.arena.scope? id).map (·.symbols.length) =
            (s.arena.scope? id).map (·.symbols.length)) := by
  refine ⟨?_, fun levels c s hs ↦ ?_⟩
  -- Each state of the run is linked to the one before, and a stretch of states is linked all along.
  · have hlinked := (trace_program (closed_scan limits wordLimit source)
      (worded_scan limits wordLimit source) orderly_initial .initial rfl).linked
        Symbol.Later.refl
    refine ⟨fun during hduring id hlives ↦ hlinked.pairwise hduring hlives, ?_⟩
    obtain ⟨before, hbefore⟩ := hlinked.last
    unfold Check.states
    rw [hbefore, List.getLast?_append, List.getLast?_singleton]
    rfl
  · have hadds := (Traced.statement (R := .statements) levels c s).addsTo hs
    refine ⟨hadds.size, fun id hid ↦ ?_⟩
    obtain ⟨scope, hscope⟩ := Option.isSome_iff_exists.1 (Arena.scope?_isSome_iff.2 hid)
    obtain ⟨kept, hkept, hfollows, hlength⟩ := hadds.exists_scope hscope
    refine ⟨⟨scope, kept, hscope, hkept, hfollows.mono fun _ _ h ↦ h.toLater⟩, fun hne ↦ ?_⟩
    rw [hscope, hkept]
    exact congrArg some (hlength hne)

/-- A program with a global variable that its entry point sets. -/
def variableProgram : String := "nt a = 1; mn() \x7b a = 2; end; \x7d"

/-- The global scope lives over the whole check of a program and retains its symbols, and a
declaration inside a block adds none to it. -/
theorem symbols_keep_their_declarations_variableProgram :
    let tokens := (scan 64 variableProgram).tokens
    let c := Context.top .default tokens
    let states := program.states c .initial
    let s := State.initial.entered c "block"
    let after := (statement 1).leaves (c.entering .initial) s
    (states <:+: states ∧ (∀ s ∈ states, 0 < s.arena.size) ∧ states.Pairwise (State.Retains 0)) ∧
      (0 < s.arena.size ∧ 0 ≠ (c.entering .initial).scope ∧ s.Retains 0 after ∧
        (after.arena.scope? 0).map (·.symbols.length) =
          (s.arena.scope? 0).map (·.symbols.length)) := by
  intro tokens c states s after
  obtain ⟨⟨hstates, -⟩, hstatement⟩ := symbols_keep_their_declarations .default 64 variableProgram
  have hlives : ∀ s ∈ states, 0 < s.arena.size := by decide +kernel
  have hs : 0 < s.arena.size := by decide
  have hscope : 0 ≠ (c.entering .initial).scope := by decide
  have hafter := (hstatement 1 (c.entering .initial) s hs).2 0 hs
  exact ⟨⟨List.infix_rfl, hlives, hstates states List.infix_rfl 0 hlives⟩,
    hs, hscope, hafter.1, hafter.2 hscope⟩

end

end FrontEnd
