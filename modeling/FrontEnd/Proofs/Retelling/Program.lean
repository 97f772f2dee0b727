import FrontEnd.Proofs.Retelling.Statement

/-!
# Programs of retold texts

Both walks over a program end alike, and so do analyses of texts that tell the same program
(`Retelling.analyses`).  The scope of a function is labelled with its name, and its name is what its
scope and its body are recorded under; the place its header starts at is an index, the same in both
texts.
-/

namespace FrontEnd

open Check

namespace Retelling

variable {T : Retelling}

theorem lookup_renamed {α : Type} (entries : List (String × α)) (name : String) :
    (entries.map fun e ↦ (T.rename e.1, e.2)).lookup (T.rename name) = entries.lookup name := by
  induction entries with
  | nil => rfl
  | cons e entries ih =>
    rw [List.map_cons, List.lookup_cons, List.lookup_cons, rename_beq, ih]

theorem lookup_map_rename (entries : List (Nat × String)) (index : Nat) :
    (entries.map fun e ↦ (e.1, T.rename e.2)).lookup index =
      (entries.lookup index).map T.rename := by
  induction entries with
  | nil => rfl
  | cons e entries ih =>
    rw [List.map_cons, List.lookup_cons, List.lookup_cons, ih]
    split <;> rfl

/-- A violation that does not tell what was found, at a place that is kept. -/
theorem Errors.of_positions {v w : Violation} {p q : Position} (h : T.Positions p q)
    (hv : ∀ found, w = v.renamed T.rename found) : T.Errors ⟨v, p⟩ ⟨w, q⟩ := by
  obtain ⟨t, u, htokens, rfl, rfl⟩ := h
  exact ⟨t, u, htokens, rfl, rfl, hv _⟩

namespace Alike

variable {t u : Token}

/-! ### Headers -/

theorem isRecorded {name name' : String} (h : name' = T.rename name) :
    T.Alike Eq (Check.isRecorded name) (Check.isRecorded name') := by
  refine get.bind fun s v hs ↦ pure ?_
  rw [h, hs.functions, lookup_renamed]

theorem requireFree (what : Redeclared) (h : T.Names t u) :
    T.Alike Eq (Check.requireFree what t) (Check.requireFree what u) :=
  get.bind fun s v hs ↦ ite (by rw [h.lexeme, hs.arena.declaredHere_eq])
    (violateAt h.tokens (congrArg (Violation.redeclaration what) h.lexeme)) (same _)

theorem declareGlobal {a b : Symbol} (ha : T.Symbols a b) (h : T.Tokens t u) :
    T.Alike Eq (Check.declareGlobal a t) (Check.declareGlobal b u) :=
  (insertSymbol rfl ha).next fun _ ↦ ite Iff.rfl (same _)
    (violateAt h (congrArg (Violation.lost ∘ Lost.declaredTwice) ha.name))

theorem openFunctionScope {label label' : String} (h : T.Labels label label') :
    T.Alike Eq (Check.openFunctionScope label) (Check.openFunctionScope label') :=
  fun _ _ _ _ _ hs ↦ ⟨.ok hs.arena.size_eq.symm, hs.withArena (hs.arena.push 0 h)⟩

theorem typedName (wantedType wantedName : Wanted) :
    T.Alike T.TypedNames (Check.typedName wantedType wantedName)
      (Check.typedName wantedType wantedName) :=
  (typeWord wantedType).typed fun _ ↦ (expectName wantedName).bind fun _ _ h ↦
    pure ⟨h.declared, h.lexeme, rfl, .of_tokens h.tokens⟩

theorem parameters (scope : Nat) :
    T.Alike (List.Forall₂ T.TypedNames) (Check.parameters scope) (Check.parameters scope) := by
  have hround (before before' : List TypedName) (h : List.Forall₂ T.TypedNames before before') :
      T.Alike (Steps (List.Forall₂ T.TypedNames)) (Check.parameterRound scope before)
        (Check.parameterRound scope before') := by
    refine (typedName .parameterType .parameterName).bind fun p q hp ↦ ?_
    have hparameters : List.Forall₂ T.TypedNames (before ++ [p]) (before' ++ [q]) :=
      List.rel_append h (.cons hp .nil)
    have hsymbol : T.Symbols (Symbol.ofVariable p.name p.type p.position).withValue
        (Symbol.ofVariable q.name q.type q.position).withValue :=
      ⟨hp.declared, hp.name, .var, hp.type, rfl, rfl, hp.positions⟩
    have hrefused : T.Errors ⟨.redeclaration .parameter p.name, p.position⟩
        ⟨.redeclaration .parameter q.name, q.position⟩ :=
      .of_positions hp.positions fun _ ↦ congrArg (Violation.redeclaration .parameter) hp.name
    refine (insertSymbol rfl hsymbol).next fun _ ↦ otherwise Iff.rfl (refuse hrefused) <|
      (next? .comma).next fun _ ↦ ite Iff.rfl ?_ (pure (.done hparameters))
    exact advance.discard.next fun _ ↦ pure (.yield hparameters)
  exact (next? .rightParen).next fun _ ↦ ite Iff.rfl (pure .nil) (rounds hround .nil)

theorem bodyRange : T.Alike Eq Check.bodyRange Check.bodyRange :=
  (next? .leftBrace).next fun _ ↦ otherwise Iff.rfl (expectMark .leftBrace).discard <|
    here.next fun _ ↦ (matchingClose _).next fun _ ↦ (moveTo _).next fun _ ↦ same _

theorem recordFunction (keyword : Nat) {a b : FunctionInfo} (hinfo : T.Infos a b)
    (h : T.Names t u) :
    T.Alike Eq (Check.recordFunction keyword t a) (Check.recordFunction keyword u b) := by
  intro c d s v hc hs
  rw [runFrom_recordFunction, runFrom_recordFunction]
  have hsymbol : T.Symbols (.ofFunction t.lexeme a t.position) (.ofFunction u.lexeme b u.position) :=
    ⟨h.declared, h.lexeme, .function hinfo, hinfo.returns, rfl, rfl, .of_tokens h.tokens⟩
  refine declareGlobal hsymbol h.tokens hc ?_
  refine ⟨hs.position, hs.arena, ?_, ?_, hs.sawReturn, hs.warnings⟩
  · rw [hs.functions, h.lexeme, hinfo.scope]
    rfl
  · rw [hs.headers, h.lexeme]
    rfl

theorem functionHeader : T.Alike Eq Check.functionHeader Check.functionHeader := by
  refine here.next fun keyword ↦ advance.discard.next fun _ ↦ advance.bind fun t u h ↦ ?_
  rw [T.kind h]
  split
  · exact violateAt h (congrArg Violation.invalidReturnType (T.lexeme h))
  next returns hreturns =>
    refine (expectName .functionName).bind fun v w hname ↦ (requireFree .function hname).next
      fun _ ↦ (openFunctionScope ?_).next fun scope ↦ (expectMark .leftParen).discard.next fun _ ↦
        (parameters scope).bind fun ms ns hparameters ↦ (expectMark .rightParen).discard.next
          fun _ ↦ bodyRange.next fun body ↦ recordFunction keyword ?_ hname
    · rw [hname.lexeme]
      exact .function v.lexeme
    · exact ⟨(renamed_of_ofWord? hreturns).symm, hparameters, rfl, rfl, rfl, rfl⟩

/-- The word that starts the entry point is the name it is recorded under. -/
theorem entryPointHeader : T.AlikeAt .mainWord Eq Check.entryPointHeader Check.entryPointHeader := by
  refine .here fun keyword ↦ .advance fun t u h hk ↦ ?_
  exact (isRecorded rename_entryPointName.symm).next fun _ ↦ guard Iff.rfl (violateAt h rfl) <|
    (openFunctionScope (.plain (by decide))).next fun scope ↦ (expectMark .leftParen).discard.next fun _ ↦
      (expectMark .rightParen).discard.next fun _ ↦ bodyRange.next fun body ↦
        recordFunction keyword ⟨rfl, .nil, rfl, rfl, rfl, rfl⟩ (.of_mainWord h hk)

theorem structHeader : T.Alike Eq Check.structHeader Check.structHeader := by
  refine advance.discard.next fun _ ↦ (expectName .structName).bind fun t u h ↦
    (requireFree .struct h).next fun _ ↦ (expectMark .leftBrace).discard.next fun _ ↦
      (roundsWhile ((next? .rightBrace).next fun _ ↦ same _) ?_ .nil).bind fun ms ns hmembers ↦
        (expectMark .rightBrace).discard.next fun _ ↦ (expectMark .semicolon).discard.next fun _ ↦
          declareGlobal ⟨h.declared, h.lexeme, .struct hmembers, congrArg DataType.struct h.lexeme, rfl, rfl,
            .of_tokens h.tokens⟩ h.tokens
  intro before before' hbefore
  refine (typedName .memberType .memberName).bind fun m n hm ↦ guard ?_
    (refuse (.of_positions hm.positions fun _ ↦
      congrArg₂ Violation.duplicateMember h.lexeme hm.name)) <|
    (expectMark .semicolon).discard.next fun _ ↦
      pure (.yield (List.rel_append hbefore (.cons hm .nil)))
  rw [any_eq hbefore fun a b hab ↦ (by rw [hab.name, hm.name, rename_beq] :
    (b.name == n.name) = (a.name == m.name))]

theorem headerRound : T.Alike Eq Check.headerRound Check.headerRound := by
  refine peekKindAt (here.next fun _ ↦ moveTo _) fun k ↦ ?_
  split
  · exact .of_alike functionHeader
  · exact entryPointHeader
  · exact .of_alike structHeader
  · exact .of_alike (here.next fun _ ↦ (matchingClose _).next fun _ ↦ moveTo _)
  · exact .of_alike (here.next fun _ ↦ moveTo _)

theorem headers : T.Alike Eq Check.headers Check.headers :=
  (roundsWhile (atEnd.next fun _ ↦ same _)
    (fun _ _ _ ↦ headerRound.next fun _ ↦ pure (.yield rfl)) rfl).next fun _ ↦
      (isRecorded rename_entryPointName.symm).next fun _ ↦ ite Iff.rfl (same _)
        (violate fun _ ↦ rfl)

/-! ### Bodies -/

theorem skipStruct : T.Alike Eq Check.skipStruct Check.skipStruct := by
  have hround (_ _ : Unit) (_ : () = ()) : T.Alike (Steps Eq)
      (do
        if ← Check.atEnd then Check.violate (.unexpectedEnd)
        Functor.discard Check.advance
        return ForInStep.yield ())
      (do
        if ← Check.atEnd then Check.violate (.unexpectedEnd)
        Functor.discard Check.advance
        return ForInStep.yield ()) :=
    atEnd.next fun _ ↦ guard Iff.rfl (violate fun _ ↦ rfl) <|
      advance.discard.next fun _ ↦ pure (.yield rfl)
  refine (roundsWhile ((next? .leftBrace).next fun _ ↦ same _) hround rfl).next fun _ ↦ ?_
  exact here.next fun _ ↦ (matchingClose _).next fun _ ↦ (moveTo _).next fun _ ↦
    (expectMark .semicolon).discard

theorem signature (name : String) :
    T.Alike (fun a b ↦ T.Infos a.1 b.1 ∧ T.Positions a.2 b.2) (Check.signature name)
      (Check.signature (T.rename name)) := by
  refine get.bind fun s v hs ↦ ?_
  have hsymbol := hs.arena.lookup 0 name
  generalize s.arena.lookup 0 name = found, v.arena.lookup 0 (T.rename name) = found' at hsymbol
  cases hsymbol with
  | none => exact violate fun _ ↦ rfl
  | @some a b ha =>
    have hinfo := ha.functionInfo?
    dsimp only
    generalize a.functionInfo? = info, b.functionInfo? = info' at hinfo
    cases hinfo with
    | none => exact violate fun _ ↦ rfl
    | some hinfo => exact pure ⟨hinfo, ha.positions⟩

theorem bodyStatements (name : String) {a b : FunctionInfo} (h : T.Infos a b) :
    T.Alike Eq (Check.bodyStatements name a) (Check.bodyStatements (T.rename name) b) := by
  refine read.bind fun c d hc ↦ withReader (fun c d hc ↦ ?_) (next (modify fun s v hs ↦ ?_) fun _ ↦ ?_)
  · refine ⟨hc.tokens, hc.kinds, hc.size, hc.limits, h.scope, hc.blocks, hc.blockDepth, ?_⟩
    simp only [inFunction, Option.map_some, h.returns, h.isEntryPoint]
  · exact ⟨congrArg BodyRange.start h.body, hs.arena, hs.functions, hs.headers, rfl, hs.warnings⟩
  · rw [hc.limits, h.body]
    exact (statementsUntil (statement _) [.rightBrace]).discard.next fun _ ↦ here.next fun _ ↦
      ite Iff.rfl (violate fun _ ↦ rfl) (same _)

theorem functionBody (name : String) :
    T.Alike Eq (Check.functionBody name) (Check.functionBody (T.rename name)) := by
  refine (signature name).bind ?_
  rintro ⟨info, p⟩ ⟨info', q⟩ ⟨hinfo, hpositions⟩
  replace hinfo : T.Infos info info' := hinfo
  refine (bodyStatements name hinfo).next fun _ ↦ ?_
  rw [hinfo.body]
  refine (moveTo _).next fun _ ↦ get.bind fun s v hs ↦ next (modify fun r w hr ↦ ?_) fun _ ↦ ?_
  · rw [hs.sawReturn]
    exact hr.withArena (hr.arena.modify 0 name fun hsymbol ↦ hsymbol.withReturn s.sawReturn)
  · have hrefused : T.Errors ⟨.missingReturn name info.returns, p⟩
        ⟨.missingReturn (T.rename name) info'.returns, q⟩ :=
      .of_positions hpositions fun _ ↦ congrArg (Violation.missingReturn _) hinfo.returns
    refine ite ?_ (refuse hrefused) (same _)
    simp only [hinfo.isEntryPoint, hinfo.returns, hs.sawReturn, ne_eq,
      renamed_eq_iff (b := .void) rfl]

theorem programRound : T.Alike Eq Check.programRound Check.programRound := by
  refine peekKind.next fun k ↦ ?_
  split
  iterate 2
    · refine get.bind fun s v hs ↦ here.next fun i ↦ ?_
      rw [hs.headers, lookup_map_rename]
      cases s.headers.lookup i with
      | none => exact violate fun _ ↦ rfl
      | some name => exact functionBody name
  · exact skipStruct
  · refine read.bind fun c d hc ↦ ?_
    rw [hc.limits]
    exact (statement _).discard

theorem program : T.Alike Eq Check.program Check.program :=
  read.bind fun c d hc ↦ guard (by simp [← Array.size_eq_zero_iff, hc.size]) (violate fun _ ↦ rfl) <|
    headers.next fun _ ↦ (moveTo 0).next fun _ ↦
      roundsWhile (atEnd.next fun _ ↦ same _)
        (fun _ _ _ ↦ programRound.next fun _ ↦ pure (.yield rfl)) rfl

end Alike

/-! ### Analyses -/

variable (T) in
/-- Symbol tables of texts that tell the same program. -/
structure Tables (a b : SymbolTable) : Prop where
  arena : T.Arenas a.arena b.arena
  functions : b.functions = a.functions.map fun f ↦ (T.rename f.1, f.2)

variable (T) in
/-- Analyses of texts that tell the same program. -/
structure Analyses (a b : Analysis) : Prop where
  error : Option.Rel T.Errors a.error b.error
  symbols : T.Tables a.symbols b.symbols
  warnings : List.Forall₂ T.Warnings a.warnings b.warnings

theorem states_initial : T.States .initial .initial :=
  ⟨rfl, .initial, rfl, rfl, rfl, .nil⟩

/-- Texts that tell the same program are analyzed alike. -/
theorem analyses {limits : Limits} {tokens tokens' : List Token}
    (h : T.Contexts (.top limits tokens) (.top limits tokens')) :
    T.Analyses (analyze limits tokens) (analyze limits tokens') := by
  obtain ⟨hresults, hstates⟩ := Alike.program h states_initial
  refine ⟨?_, ⟨hstates.arena, hstates.functions⟩, hstates.warnings⟩
  simp only [analyze]
  generalize (Check.program.runFrom (.top limits tokens) .initial).1 = result,
    (Check.program.runFrom (.top limits tokens') .initial).1 = result' at hresults
  cases hresults with
  | ok => exact .none
  | error herror => exact .some herror

end Retelling

end FrontEnd
