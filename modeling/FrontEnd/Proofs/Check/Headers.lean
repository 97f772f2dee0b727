import FrontEnd.Check.Header
import FrontEnd.Proofs.Check.HeaderText
import FrontEnd.Proofs.Scope.Later
import Mathlib.Data.List.Pairwise

/-!
# What the first walk records

The walk over the headers passes over bodies and other braces as a whole, so it sees a program as
a row of recorded functions, structs, braces and single tokens: `Laid`.  A balanced stretch that
starts on this row ends on it (`Laid.of_balanced`), which is how a later walk that takes in whole
statements stays in step with it.

One round of the walk puts one piece in front of what the rounds after it see
(`ensures_headerRound`), and `Extends` is what later rounds may add to the records.  From these the
run of the rounds gives the whole row, with the symbols of the global scope in the order of their
pieces (`ensures_headers`), and with scopes of their own for the functions among them (`OwnScopes`).
-/

namespace FrontEnd

open Check

/-- What a state keeps of a function whose header was read. -/
structure Recorded (f : State) (name : Token) (info : FunctionInfo) : Prop where
  symbol : f.arena.lookup 0 name.lexeme = some (.ofFunction name.lexeme info name.position)
  inner : info.scope ≠ 0
  scope : ∃ label, f.arena.scope? info.scope =
    some ⟨label, some 0, info.parameters.map TypedName.parameter⟩
  unchecked : info.hasReturn = false

/-- The program from an index on is a row of pieces that the headers of a state account for, and
the pieces declare the given symbols. -/
inductive Laid (c : Context) (f : State) : Nat → List Symbol → Prop
  | ended {i : Nat} : c.kindAt i = .eof → Laid c f i []
  | function {i : Nat} {name : Token} {info : FunctionInfo} {symbols : List Symbol} :
    HeaderAt c i name info → f.headers.lookup i = some name.lexeme → Recorded f name info →
      IsBody c info.body → i < info.body.stop → Laid c f (info.body.stop + 1) symbols →
        Laid c f i (.ofFunction name.lexeme info name.position :: symbols)
  | struct {i m : Nat} {name : Token} {members : List TypedName} {symbols : List Symbol} :
    StructAt c i name members m → Laid c f (m + 2) symbols →
      Laid c f i (.ofStruct name.lexeme members name.position :: symbols)
  | braces {i stop : Nat} {symbols : List Symbol} :
    Braced c i stop → Laid c f (stop + 1) symbols → Laid c f i symbols
  | other {i : Nat} {symbols : List Symbol} :
    ¬ [.eof, .functionWord, .mainWord, .structWord, .leftBrace].contains (c.kindAt i) →
      Laid c f (i + 1) symbols → Laid c f i symbols

/-- A later state has the same headers up to where the walk was, and the bodies recorded then. -/
structure Grows (s later : State) : Prop where
  headers : ∀ i < s.position, later.headers.lookup i = s.headers.lookup i
  bodies : ∀ name body, s.arena.body? name = some body → later.arena.body? name = some body
  le : s.position ≤ later.position

/-- A later state has everything that was recorded, and may have more. -/
structure Extends (s later : State) : Prop where
  headers : ∀ i < s.position, later.headers.lookup i = s.headers.lookup i
  symbols : ∀ name symbol, s.arena.lookup 0 name = some symbol →
    later.arena.lookup 0 name = some symbol
  scopes : ∀ id scope, id ≠ 0 → s.arena.scope? id = some scope →
    later.arena.scope? id = some scope
  le : s.position ≤ later.position

/-- There is a global scope, and it declares the entry point only if that was recorded. -/
def Orderly (s : State) : Prop :=
  ∃ scope, s.arena.scope? 0 = some scope ∧
    (scope.contains entryPointName → (s.functions.lookup entryPointName).isSome)

/-- The lexemes of names differ from that of the word for the entry point. -/
def Context.Worded (c : Context) : Prop :=
  ∀ i, (c.kindAt i = .mainWord → (c.tokenAt i).lexeme = entryPointName) ∧
    (c.kindAt i = .identifier → (c.tokenAt i).lexeme ≠ entryPointName)

/-- A name that is free in the global scope. -/
def FreeGlobally (s : State) (name : String) : Prop :=
  s.arena.declaredHere 0 name = false

/-- The two states differ in scopes other than the global one at most. -/
structure SameGlobal (s after : State) : Prop where
  global : after.arena.scope? 0 = s.arena.scope? 0
  functions : after.functions = s.functions
  headers : after.headers = s.headers

/-- The symbols of the global scope, oldest first. -/
def State.globals (s : State) : List Symbol :=
  (s.arena.scope? 0).elim [] Scope.symbols

/-- The functions among some symbols have the scopes from one index up to another, in order. -/
structure OwnScopes (low : Nat) (symbols : List Symbol) (high : Nat) : Prop where
  le : low ≤ high
  range : symbols.filterMap Symbol.innerScope? = List.range' low (high - low)

/-- What the record of functions has of a symbol: the name and the scope of a function. -/
def Symbol.entry? (symbol : Symbol) : Option (String × Nat) :=
  symbol.innerScope?.map fun scope ↦ (symbol.name, scope)

section

variable {c : Context} {s after later f : State} {i j : Nat} {symbols : List Symbol}

namespace SameGlobal

theorem refl (s : State) : SameGlobal s s :=
  ⟨rfl, rfl, rfl⟩

theorem trans (h : SameGlobal s after) (h' : SameGlobal after later) : SameGlobal s later :=
  ⟨h'.global.trans h.global, h'.functions.trans h.functions, h'.headers.trans h.headers⟩

theorem movedTo (h : SameGlobal s after) (i : Nat) : SameGlobal s (after.movedTo i) :=
  ⟨h.global, h.functions, h.headers⟩

theorem lookup (h : SameGlobal s after) (name : String) :
    after.arena.lookup 0 name = s.arena.lookup 0 name := by
  rw [Arena.lookup_zero, Arena.lookup_zero, h.global]

theorem body? (h : SameGlobal s after) (name : String) :
    after.arena.body? name = s.arena.body? name := by
  rw [Arena.body?_eq, Arena.body?_eq, h.global]

end SameGlobal

theorem SameOutside.sameGlobal {scope : Nat} (h : SameOutside scope s after) (hscope : scope ≠ 0) :
    SameGlobal s after :=
  ⟨h.scopes 0 hscope.symm, h.functions, h.headers⟩

namespace Grows

theorem trans (h : Grows s after) (h' : Grows after later) : Grows s later :=
  ⟨fun i hi ↦ (h'.headers i (Nat.lt_of_lt_of_le hi h.le)).trans (h.headers i hi),
    fun name body hbody ↦ h'.bodies name body (h.bodies name body hbody), Nat.le_trans h.le h'.le⟩

theorem of_sameGlobal (h : SameGlobal s after) (hle : s.position ≤ after.position) :
    Grows s after :=
  ⟨fun i _ ↦ by rw [h.headers], fun name body hbody ↦ (h.body? name).trans hbody, hle⟩

end Grows

namespace Extends

theorem refl (s : State) : Extends s s :=
  ⟨fun _ _ ↦ rfl, fun _ _ h ↦ h, fun _ _ _ h ↦ h, Nat.le_refl _⟩

theorem trans (h : Extends s after) (h' : Extends after later) : Extends s later where
  headers i hi := (h'.headers i (Nat.lt_of_lt_of_le hi h.le)).trans (h.headers i hi)
  symbols name symbol hsymbol := h'.symbols name symbol (h.symbols name symbol hsymbol)
  scopes id scope hid hscope := h'.scopes id scope hid (h.scopes id scope hid hscope)
  le := Nat.le_trans h.le h'.le

theorem movedTo (s : State) {i : Nat} (hle : s.position ≤ i) : Extends s (s.movedTo i) :=
  ⟨fun _ _ ↦ rfl, fun _ _ h ↦ h, fun _ _ _ h ↦ h, hle⟩

end Extends

/-- A recorded function stays recorded. -/
theorem Recorded.of_extends {name : Token} {info : FunctionInfo} (h : Recorded after name info)
    (hf : Extends after f) : Recorded f name info :=
  ⟨hf.symbols _ _ h.symbol, h.inner,
    h.scope.imp fun _ hscope ↦ hf.scopes _ _ h.inner hscope, h.unchecked⟩

theorem Recorded.body? {name : Token} {info : FunctionInfo} (h : Recorded f name info) :
    f.arena.body? name.lexeme = some info.body := by
  unfold Arena.body?
  rw [h.symbol]
  rfl

/-- A balanced stretch from a place on the row leads to a place on the row. -/
theorem Laid.of_balanced (h : Balanced c.kindAt i j) (hlaid : Laid c f i symbols) :
    Laid c f j symbols := by
  -- The walk over the headers goes over the stretch as it is balanced: token by token, or braces at once.
  induction h with
  | nil => exact hlaid
  | ordinary hi _ ih =>
    obtain ⟨hopen, -, heof, hfunction, hmain, hstruct⟩ := Kind.isOrdinary_iff.1 hi
    refine ih ?_
    cases hlaid with
    | ended h => exact absurd h heof
    | function h =>
      cases h with
      | function word => exact absurd word hfunction
      | entryPoint word => exact absurd word hmain
    | struct h => exact absurd h.word hstruct
    | braces h => exact absurd h.opens hopen
    | other _ h => exact h
  | braces hi hinner hm _ _ ih =>
    refine ih ?_
    cases hlaid with
    | ended h => simp [hi] at h
    | function h =>
      cases h with
      | function word => simp [hi] at word
      | entryPoint word => simp [hi] at word
    | struct h => exact absurd (hi.symm.trans h.word) (by simp)
    | braces hbraced h => exact hbraced.eq_of_balanced _ hinner hm ▸ h
    | other h => simp [hi] at h

/-! ### Recording -/

theorem Orderly.size_pos (h : Orderly s) : 0 < s.arena.size := by
  obtain ⟨scope, hscope, -⟩ := h
  exact (Array.getElem?_eq_some_iff.1 hscope).1

theorem Orderly.of_sameGlobal (h : Orderly s) (hsame : SameGlobal s after) : Orderly after := by
  obtain ⟨scope, hscope, hentry⟩ := h
  exact ⟨scope, hsame.global.trans hscope, by rwa [hsame.functions]⟩

theorem SameGlobal.freeGlobally_iff (h : SameGlobal s after) {name : String} :
    FreeGlobally after name ↔ FreeGlobally s name := by
  unfold FreeGlobally Arena.declaredHere
  rw [h.global]

/-! ### Scopes of functions -/

namespace OwnScopes

variable {low middle high : Nat} {symbols' : List Symbol}

theorem nil (low : Nat) : OwnScopes low [] low :=
  ⟨Nat.le_refl low, by simp⟩

theorem function (name : String) {info : FunctionInfo} (hlow : info.scope = low)
    (hhigh : high = low + 1) (p : Position) : OwnScopes low [.ofFunction name info p] high := by
  subst hhigh
  have hscopes : [Symbol.ofFunction name info p].filterMap Symbol.innerScope? = [info.scope] := rfl
  exact ⟨Nat.le_succ low, by rw [hscopes, hlow, Nat.add_sub_cancel_left]; rfl⟩

theorem struct (h : high = low) (name : String) (members : List TypedName) (p : Position) :
    OwnScopes low [.ofStruct name members p] high := by
  subst h
  have hscopes : [Symbol.ofStruct name members p].filterMap Symbol.innerScope? = [] := rfl
  exact ⟨Nat.le_refl _, by rw [hscopes, Nat.sub_self]; rfl⟩

theorem append (h : OwnScopes low symbols middle) (h' : OwnScopes middle symbols' high) :
    OwnScopes low (symbols ++ symbols') high := by
  refine ⟨Nat.le_trans h.le h'.le, ?_⟩
  have hle := h.le
  have hle' := h'.le
  have hmiddle : middle = low + (middle - low) := by omega
  have hlength : high - low = (middle - low) + (high - middle) := by omega
  rw [List.filterMap_append, h.range, h'.range, hlength, ← List.range'_append_1, ← hmiddle]

/-- The functions come in the order of their scopes. -/
theorem increasing (h : OwnScopes low symbols high) :
    (symbols.filterMap Symbol.innerScope?).Pairwise (· < ·) := by
  rw [h.range]
  exact List.pairwise_lt_range'

/-- No two functions have the same scope. -/
theorem eq_of_scope (h : OwnScopes low symbols high) {symbol symbol' : Symbol}
    (hmem : symbol ∈ symbols) (hmem' : symbol' ∈ symbols) {id : Nat}
    (hscope : symbol.innerScope? = some id) (hscope' : symbol'.innerScope? = some id) :
    symbol = symbol' := by
  have hdistinct : symbols.Pairwise fun a b ↦
      ∀ id, a.innerScope? = some id → b.innerScope? = some id → a = b :=
    (List.pairwise_filterMap.1 h.increasing).imp fun hlt id ha hb ↦
      absurd (hlt id ha id hb) (Nat.lt_irrefl id)
  have : Std.Symm fun a b : Symbol ↦
      ∀ id, a.innerScope? = some id → b.innerScope? = some id → a = b :=
    ⟨fun _ _ hsame id hb ha ↦ (hsame id ha hb).symm⟩
  exact hdistinct.forall_of_forall (fun _ _ _ _ _ ↦ rfl) hmem hmem' id hscope hscope'

end OwnScopes

/-- What a round of the walk achieves: it goes on, it declares some symbols, and what it passed is a
piece of the row that later rounds see from where it came to. -/
structure Advances (c : Context) (s : State) (new : List Symbol) (after : State) : Prop where
  orderly : Orderly after
  extends_ : Extends s after
  globals : after.globals = s.globals ++ new
  scopes : OwnScopes s.arena.size new after.arena.size
  functions : after.functions = (new.filterMap Symbol.entry?).reverse ++ s.functions
  headers : ∀ i, i ≠ s.position → after.headers.lookup i = s.headers.lookup i
  laid : ∀ f symbols, Extends after f → Laid c f after.position symbols →
    Laid c f s.position (new ++ symbols)

/-- What the header of a function achieves: its function is recorded under a name that was free, and its
body is passed. -/
structure RecordsFunction (c : Context) (s : State) (name : Token) (info : FunctionInfo)
    (after : State) : Prop where
  advances : Advances c s [.ofFunction name.lexeme info name.position] after
  header : HeaderAt c s.position name info
  body : IsBody c info.body
  position : after.position = info.body.stop + 1
  free : FreeGlobally s name.lexeme

/-- What a declaration in the global scope does. -/
structure Declares (symbol : Symbol) (s after : State) : Prop where
  added : ∃ scope, s.arena.scope? 0 = some scope ∧ scope.contains symbol.name = false ∧
    after.arena.scope? 0 = some (scope.add symbol)
  bodies : ∀ name body, s.arena.body? name = some body → after.arena.body? name = some body
  scopes : ∀ id, id ≠ 0 → after.arena.scope? id = s.arena.scope? id
  size : after.arena.size = s.arena.size
  functions : after.functions = s.functions
  headers : after.headers = s.headers
  position : after.position = s.position

/-- A declaration that succeeds. -/
theorem Declares.of_insert {symbol : Symbol} {arena : Arena}
    (h : s.arena.insert 0 symbol = some arena) : Declares symbol s { s with arena := arena } := by
  obtain ⟨scope, hscope, hfree, hadded, hothers⟩ := Arena.insert_eq_some h
  exact ⟨⟨scope, hscope, hfree, hadded⟩, fun _ _ ↦ Arena.body?_insert h, hothers,
    Arena.size_insert h, rfl, rfl, rfl⟩

/-- The name is free, so nothing is declared twice. -/
theorem ensures_declareGlobal {symbol : Symbol} {name : Token} (hs : Orderly s)
    (hfree : FreeGlobally s symbol.name) :
    Ensures (declareGlobal symbol name) c s Unlost fun _ after ↦ Declares symbol s after := by
  obtain ⟨scope, hscope, -⟩ := hs
  have hcontains : scope.contains symbol.name = false := by
    simpa [FreeGlobally, Arena.declaredHere, hscope] using hfree
  simp only [declareGlobal, ensures_bind, ensures_insertSymbol, ensures_ite, ensures_violateAt,
    ensures_pure]
  exact ⟨fun arena harena ↦ ⟨fun _ ↦ .of_insert harena, by simp⟩,
    fun hnone ↦ absurd hnone (Arena.insert_isSome hscope hcontains)⟩

namespace Declares

variable {symbol : Symbol}

/-- A declaration keeps the state orderly if the entry point is declared only when recorded. -/
theorem orderly (h : Declares symbol s after) (hs : Orderly s)
    (hname : symbol.name = entryPointName → (s.functions.lookup entryPointName).isSome) :
    Orderly after := by
  obtain ⟨scope, hscope, -, hadded⟩ := h.added
  obtain ⟨scope', hscope', hentry⟩ := hs
  cases hscope.symm.trans hscope'
  refine ⟨_, hadded, fun hcontains ↦ ?_⟩
  rw [h.functions]
  rw [Scope.contains_add, Bool.or_eq_true] at hcontains
  exact hcontains.elim hentry fun h ↦ hname (by simpa using h)

theorem lookup_self (h : Declares symbol s after) :
    after.arena.lookup 0 symbol.name = some symbol := by
  obtain ⟨scope, -, hfree, hadded⟩ := h.added
  rw [Arena.lookup_zero, hadded, Option.bind_some]
  exact Scope.find?_add_self symbol hfree

theorem lookup_of_some (h : Declares symbol s after) {name : String} {found : Symbol}
    (hfound : s.arena.lookup 0 name = some found) : after.arena.lookup 0 name = some found := by
  obtain ⟨scope, hscope, -, hadded⟩ := h.added
  rw [Arena.lookup_zero, hscope, Option.bind_some] at hfound
  rw [Arena.lookup_zero, hadded, Option.bind_some]
  exact Scope.find?_add_of_isSome symbol hfound

theorem body? {name : String} {info : FunctionInfo} {p : Position}
    (h : Declares (.ofFunction name info p) s after) : after.arena.body? name = some info.body := by
  unfold Arena.body?
  have hlookup : after.arena.lookup 0 name = some (.ofFunction name info p) := h.lookup_self
  rw [hlookup]
  rfl

theorem globals (h : Declares symbol s after) : after.globals = s.globals ++ [symbol] := by
  obtain ⟨scope, hscope, -, hadded⟩ := h.added
  unfold State.globals
  rw [hscope, hadded]
  rfl

/-- What a header achieves once its symbol is declared. -/
theorem advances (h : Declares symbol after later) (hs : Orderly after)
    (hname : symbol.name = entryPointName → (after.functions.lookup entryPointName).isSome)
    (hbefore : Extends s after) (hglobal : after.arena.scope? 0 = s.arena.scope? 0)
    (hscopes : OwnScopes s.arena.size [symbol] later.arena.size)
    (hfunctions : after.functions = ([symbol].filterMap Symbol.entry?).reverse ++ s.functions)
    (hheaders : ∀ i, i ≠ s.position → after.headers.lookup i = s.headers.lookup i)
    (hlaid : ∀ f symbols, Extends later f → Laid c f later.position symbols →
      Laid c f s.position (symbol :: symbols)) : Advances c s [symbol] later where
  orderly := h.orderly hs hname
  extends_ := by
    refine hbefore.trans ⟨fun i _ ↦ by rw [h.headers], fun _ _ ↦ h.lookup_of_some,
      fun id scope hid hscope ↦ (h.scopes id hid).trans hscope, Nat.le_of_eq h.position.symm⟩
  globals := by
    rw [h.globals]
    unfold State.globals
    rw [hglobal]
  scopes := hscopes
  functions := h.functions.trans hfunctions
  headers i hi := by rw [h.headers, hheaders i hi]
  laid := hlaid

end Declares

/-- The one scope in which a state differs from an earlier one is the next that was opened. -/
theorem SameOutside.size_eq (h : SameOutside s.arena.size s after)
    (hthere : (after.arena.scope? s.arena.size).isSome) :
    after.arena.size = s.arena.size + 1 := by
  have hlt := Arena.scope?_isSome_iff.1 hthere
  have hnone : after.arena.scope? (s.arena.size + 1) = none := by
    rw [h.scopes _ (Nat.succ_ne_self _)]
    exact Array.getElem?_eq_none (Nat.le_succ _)
  have hle : ¬ s.arena.size + 1 < after.arena.size := fun hlt ↦ by
    have hsome := Arena.scope?_isSome_iff.2 hlt
    rw [hnone] at hsome
    cases hsome
  omega

/-- A function that is recorded once its header and body are passed. -/
theorem ensures_recordFunction {name : Token} {info : FunctionInfo} (hs : Orderly s)
    (hsame : SameOutside s.arena.size s after) (hheader : HeaderAt c s.position name info)
    (hfree : FreeGlobally s name.lexeme) (hbody : IsBody c info.body)
    (hscope : info.scope = s.arena.size) (hparameters : ∃ label, after.arena.scope? s.arena.size =
      some ⟨label, some 0, info.parameters.map TypedName.parameter⟩)
    (hunchecked : info.hasReturn = false) (hstop : s.position < info.body.stop)
    (hafter : after.position = info.body.stop + 1) :
    Ensures (recordFunction s.position name info) c after Unlost
      (fun _ later ↦ RecordsFunction c s name info later) := by
  have hinner : s.arena.size ≠ 0 := Nat.pos_iff_ne_zero.1 hs.size_pos
  have hglobal := hsame.sameGlobal hinner
  rw [ensures_recordFunction_iff]
  -- The name is recorded before it is declared, which keeps the entry point accounted for.
  have horderly : Orderly { after with
      functions := (name.lexeme, info.scope) :: after.functions
      headers := (s.position, name.lexeme) :: after.headers } := by
    obtain ⟨scope, hscope, hentry⟩ := hs.of_sameGlobal hglobal
    refine ⟨scope, hscope, fun hcontains ↦ ?_⟩
    rw [List.lookup_cons]
    split
    · rfl
    · exact hentry hcontains
  have hstill : FreeGlobally after (Symbol.ofFunction name.lexeme info name.position).name :=
    hglobal.freeGlobally_iff.2 hfree
  have hheaders (i : Nat) (hi : i ≠ s.position) :
      ((s.position, name.lexeme) :: after.headers).lookup i = s.headers.lookup i := by
    rw [List.lookup_cons, beq_eq_false_iff_ne.2 hi, hsame.headers]
  refine (ensures_declareGlobal horderly hstill).mono fun _ later hlater ↦
    ⟨hlater.advances horderly (fun hname ↦ ?_) ⟨fun i hi ↦ hheaders i (Nat.ne_of_lt hi),
      fun other symbol h ↦ ?_, fun id scope hid h ↦ ?_, ?_⟩ hglobal.global ?_ ?_ hheaders
        fun f symbols hf hlaid ↦ ?_, hheader, hbody, hlater.position.trans hafter, hfree⟩
  · have hlexeme : name.lexeme = entryPointName := hname
    simp [hlexeme]
  · exact (hglobal.lookup other).trans h
  · refine (hsame.scopes id fun heq ↦ ?_).trans h
    rw [heq] at h
    have hlt := (Array.getElem?_eq_some_iff.1 h).1
    exact Nat.lt_irrefl _ hlt
  · show s.position ≤ after.position
    omega
  · obtain ⟨label, hthere⟩ := hparameters
    have hsize : later.arena.size = after.arena.size := hlater.size
    exact .function name.lexeme hscope (hsize.trans (hsame.size_eq (hthere ▸ rfl))) name.position
  · show (name.lexeme, info.scope) :: after.functions = _
    rw [hsame.functions]
    rfl
  · have hposition : later.position = info.body.stop + 1 := hlater.position.trans hafter
    have hlookup : later.headers.lookup s.position = some name.lexeme := by
      rw [hlater.headers]
      simp
    have hrecorded : Recorded later name info := by
      refine ⟨hlater.lookup_self, hscope ▸ hinner, ?_, hunchecked⟩
      rw [hscope, hlater.scopes _ hinner]
      exact hparameters
    refine .function hheader ?_ (hrecorded.of_extends hf) hbody hstop (hposition ▸ hlaid)
    rw [hf.headers _ (by omega), hlookup]

/-! ### Headers -/

theorem ensures_requireFree (what : Redeclared) (name : Token) :
    Ensures (requireFree what name) c s Unlost fun _ after ↦
      after = s ∧ FreeGlobally s name.lexeme := by
  simp only [requireFree, ensures_bind, ensures_get, ensures_ite, ensures_violateAt, ensures_pure]
  exact ⟨fun _ ↦ by simp, fun hfree ↦ ⟨trivial, by simpa [FreeGlobally] using hfree⟩⟩

/-- A function from the opening of its scope on: parameters, body and the record of it. -/
theorem ensures_functionRest (hs : Orderly s) (hlt : s.position < j) {name : Token}
    (hfree : FreeGlobally s name.lexeme) (label : String)
    (parameters : Nat → Check (List TypedName)) {T : List TypedName → Nat → Prop}
    (hparameters : ∀ scope t, t.position = j + 1 → Ensures (parameters scope) c t Unlost
      fun ns after ↦ ParametersRead c scope t ns after ∧ T ns after.position)
    (info : Nat → List TypedName → BodyRange → FunctionInfo)
    (hinfo : ∀ scope ns body, (info scope ns body).scope = scope ∧
      (info scope ns body).parameters = ns ∧ (info scope ns body).body = body ∧
        (info scope ns body).hasReturn = false)
    (hheader : ∀ scope ns m body, c.kindAt j = .leftParen → T ns m → c.kindAt m = .rightParen →
      body.start = m + 2 → HeaderAt c s.position name (info scope ns body)) :
    Ensures (do
      let scope ← openFunctionScope label
      discard <| expectMark .leftParen
      let parameters ← parameters scope
      discard <| expectMark .rightParen
      let body ← bodyRange
      recordFunction s.position name (info scope parameters body)) c (s.movedTo j) Unlost
      fun _ later ↦ ∃ info, RecordsFunction c s name info later := by
  simp only [ensures_bind, ensures_openFunctionScope, ensures_discard, ensures_expectMark]
  refine ⟨fun hopen ↦ ?_, fun _ ↦ unlost_expected _ _⟩
  have hopen : c.kindAt j = .leftParen := hopen
  refine (hparameters _ _ (Context.after_of_kindAt hopen (by simp))).mono fun ns t ht ↦
    ⟨fun hclose ↦ ?_, fun _ ↦ unlost_expected _ _⟩
  obtain ⟨hread, hT⟩ := ht
  have hle : j + 1 ≤ t.position := by
    have hle : c.after j ≤ t.position := hread.text.balanced.le
    rwa [Context.after_of_kindAt hopen (by simp)] at hle
  rw [Context.after_of_kindAt hclose (by simp)]
  refine ensures_bodyRange.mono ?_
  rintro body _ ⟨hstart, hbody, hstop, rfl⟩
  have hstart : body.start = t.position + 2 := hstart
  have hstop : t.position + 1 < body.stop := hstop
  obtain ⟨hscope, hns, hrange, hunchecked⟩ := hinfo (s.movedTo j).arena.size ns body
  -- Opening the scope and reading the parameters leaves all other scopes as they were.
  have hpushed : SameOutside s.arena.size s
      { s with arena := s.arena.push 0 label, position := c.after j } :=
    (SameOutside.push s label).movedTo _
  refine (ensures_recordFunction hs (((hpushed.trans hread.outside).movedTo _).movedTo _)
    (hheader _ ns t.position body hopen hT hclose hstart) hfree (by rwa [hrange])
    hscope ⟨label, ?_⟩ hunchecked (by rw [hrange]; omega) (by rw [hrange]; rfl)).mono
      fun _ _ h ↦ ⟨_, h⟩
  rw [hns]
  have hempty : (s.arena.push 0 label).scope? s.arena.size = some (.empty label (some 0)) :=
    Array.getElem?_push_size
  exact (hread.declared _ hempty).trans (by simp [Scope.empty])

theorem ensures_functionHeader (hc : c.Closed) (hs : Orderly s)
    (hword : c.kindAt s.position = .functionWord) :
    Ensures functionHeader c s Unlost fun _ after ↦ ∃ name info, RecordsFunction c s name info after := by
  have hfirst := Context.after_of_kindAt hword (by simp)
  simp only [functionHeader, ensures_bind, ensures_here, ensures_discard, ensures_advance,
    State.position_movedTo, State.movedTo_movedTo, hfirst, hc.kind_tokenAt]
  split
  · simp
  next returns hreturns =>
    have htype := (Kind.isOrdinary_iff.1 (isOrdinary_of_typeWord hreturns)).2.2.1
    rw [Context.after_of_ne_eof htype, ensures_bind, ensures_expect]
    refine ⟨fun hname ↦ ?_, fun _ ↦ unlost_expected _ _⟩
    have hname : c.kindAt (s.position + 2) = .identifier := hname
    simp only [State.position_movedTo, State.movedTo_movedTo]
    rw [Context.after_of_kindAt (i := s.position + 1 + 1) hname (by simp), ensures_bind]
    refine (ensures_requireFree _ _).mono ?_
    rintro _ _ ⟨rfl, hfree⟩
    refine (ensures_functionRest (j := s.position + 3) hs (by omega) hfree _ parameters
      (T := ParametersAt c (s.position + 4)) (fun scope t ht ↦ ?_)
      (fun scope ns body ↦ ⟨returns, ns, scope, body, false, false⟩)
      (fun _ _ _ ↦ ⟨rfl, rfl, rfl, rfl⟩) fun scope ns m body hopen hns hclose hstart ↦ ?_).mono
        fun _ _ h ↦ ⟨_, h⟩
    · exact (ensures_parameters hc scope).mono fun ns after h ↦ ⟨h, ht ▸ h.text⟩
    · exact .function hword hreturns hname rfl hopen hns hclose hstart rfl

theorem ensures_isRecorded {name : String} {E : SemanticError → Prop} {Q : Bool → State → Prop} :
    Ensures (isRecorded name) c s E Q ↔ Q (s.functions.lookup name).isSome s :=
  Iff.rfl

/-- The entry point is free as long as it is not recorded. -/
theorem Orderly.free (h : Orderly s) (hentry : (s.functions.lookup entryPointName).isSome = false) :
    FreeGlobally s entryPointName := by
  obtain ⟨scope, hscope, hcontains⟩ := h
  unfold FreeGlobally Arena.declaredHere
  rw [hscope]
  rw [Bool.eq_false_iff] at hentry ⊢
  exact fun h ↦ hentry (hcontains h)

theorem ensures_entryPointHeader (hw : c.Worded) (hs : Orderly s)
    (hword : c.kindAt s.position = .mainWord) :
    Ensures entryPointHeader c s Unlost fun _ after ↦
      ∃ name info, RecordsFunction c s name info after := by
  simp only [entryPointHeader, ensures_bind, ensures_here, ensures_advance, ensures_isRecorded,
    ensures_ite, ensures_violateAt, Context.after_of_kindAt hword (by simp)]
  refine ⟨fun _ ↦ by simp, fun hentry ↦ ?_⟩
  have hfree : FreeGlobally s (c.tokenAt s.position).lexeme := by
    rw [(hw _).1 hword]
    exact hs.free (Bool.eq_false_iff.2 hentry)
  have hrest := ensures_functionRest (j := s.position + 1) hs (Nat.lt_succ_self _) hfree
    "entry point mn" (fun _ ↦ pure []) (T := fun ns m ↦ ns = [] ∧ m = s.position + 2)
    (fun scope t ht ↦ ⟨.none c scope t, rfl, ht⟩)
    (fun scope ns body ↦ ⟨.void, ns, scope, body, false, true⟩) (fun _ _ _ ↦ ⟨rfl, rfl, rfl, rfl⟩)
    fun scope ns m body hopen hT hclose hstart ↦ ?_
  · have hrecords : Ensures _ c _ Unlost fun _ after ↦ ∃ name info, RecordsFunction c s name info after :=
      hrest.mono fun _ _ h ↦ ⟨_, h⟩
    simpa only [ensures_bind, ensures_pure] using hrecords
  · obtain ⟨rfl, rfl⟩ := hT
    exact .entryPoint hword rfl hopen hclose rfl rfl hstart rfl

theorem ensures_structHeader (hc : c.Closed) (hw : c.Worded) (hs : Orderly s)
    (hword : c.kindAt s.position = .structWord) :
    Ensures structHeader c s Unlost fun _ after ↦ ∃ new, Advances c s new after := by
  -- Word, name and brace are passed one by one, so that their places are known.
  have hfirst := Context.after_of_kindAt hword (by simp)
  simp only [structHeader, ensures_bind, ensures_discard, ensures_advance, ensures_expect,
    ensures_expectMark, State.position_movedTo, State.movedTo_movedTo, hfirst]
  refine ⟨fun hname ↦ ?_, fun _ ↦ unlost_expected _ _⟩
  have hsecond := Context.after_of_kindAt hname (by simp)
  rw [hsecond]
  refine (ensures_requireFree _ _).mono ?_
  rintro _ _ ⟨rfl, hfree⟩
  refine ⟨fun hopen ↦ ?_, fun _ ↦ unlost_expected _ _⟩
  rw [State.position_movedTo] at hopen
  have hthird := Context.after_of_kindAt hopen (by simp)
  rw [State.movedTo_movedTo, State.position_movedTo, hthird]
  refine (ensures_members hc _).mono ?_
  rintro members after ⟨hmembers, hmoved⟩
  rw [hmoved]
  refine ⟨fun hclose ↦ ⟨fun hend ↦ ?_, fun _ ↦ unlost_expected _ _⟩, fun _ ↦ unlost_expected _ _⟩
  have hlast := Context.after_of_kindAt hclose (by simp)
  rw [hlast] at hend ⊢
  rw [Context.after_of_kindAt hend (by simp)]
  have hle := (hmembers.balanced rfl).le
  rw [State.position_movedTo] at hle hmembers
  have hstruct : StructAt c s.position (c.tokenAt (s.position + 1)) members after.position :=
    ⟨hword, hname, rfl, hopen, hmembers, hclose, hend⟩
  have hstill : FreeGlobally (s.movedTo (after.position + 1 + 1))
      (Symbol.ofStruct (c.tokenAt (s.position + 1)).lexeme members
        (c.tokenAt (s.position + 1)).position).name := hfree
  have horderly : Orderly (s.movedTo (after.position + 1 + 1)) := hs
  refine (ensures_declareGlobal horderly hstill).mono
    fun _ later hlater ↦ ⟨_, hlater.advances horderly (fun hentry ↦ absurd hentry ((hw _).2 hname))
      (.movedTo s (by omega)) rfl (.struct hlater.size _ members _) rfl (fun _ _ ↦ rfl)
      fun f symbols _ hlaid ↦ .struct hstruct ?_⟩
  rwa [hlater.position] at hlaid

/-- A round of the walk puts a piece in front of those that later rounds see. -/
theorem ensures_headerRound (hc : c.Closed) (hw : c.Worded) (hs : Orderly s)
    (hend : c.kindAt s.position ≠ .eof) :
    Ensures headerRound c s Unlost fun _ after ↦ ∃ new, Advances c s new after := by
  -- Passing over tokens changes no table.
  have hmoved : ∀ {i : Nat}, s.position ≤ i →
      (∀ f symbols, Laid c f i symbols → Laid c f s.position symbols) →
        ∃ new, Advances c s new (s.movedTo i) := by
    intro i hi hlaid
    exact ⟨[], hs.of_sameGlobal ((SameGlobal.refl s).movedTo i), .movedTo s hi,
      (List.append_nil _).symm, .nil _, rfl, fun _ _ ↦ rfl, fun f symbols _ ↦ hlaid f symbols⟩
  simp only [headerRound, ensures_bind, ensures_peekKind]
  split
  next hk =>
    refine (ensures_functionHeader hc hs hk).mono ?_
    rintro _ _ ⟨_, _, h⟩
    exact ⟨_, h.advances⟩
  next hk =>
    refine (ensures_entryPointHeader hw hs hk).mono ?_
    rintro _ _ ⟨_, _, h⟩
    exact ⟨_, h.advances⟩
  next hk => exact ensures_structHeader hc hw hs hk
  next hk =>
    simp only [ensures_bind, ensures_here, ensures_moveTo]
    refine (ensures_matchingBrace hk).mono ?_
    rintro stop _ ⟨rfl, hbraced⟩
    exact hmoved (by have := hbraced.lt; omega) fun f symbols ↦ .braces hbraced
  next hfunction hmain hstruct hbrace =>
    simp only [ensures_bind, ensures_here, ensures_moveTo]
    exact hmoved (by omega) fun f symbols ↦
      .other (by simpa [hend] using ⟨hfunction, hmain, hstruct, hbrace⟩)

/-- What the walk over the headers has achieved when it is at the end. -/
structure Surveyed (c : Context) (s : State) (new : List Symbol) (after : State) : Prop where
  orderly : Orderly after
  extends_ : Extends s after
  globals : after.globals = s.globals ++ new
  scopes : OwnScopes s.arena.size new after.arena.size
  functions : after.functions = (new.filterMap Symbol.entry?).reverse ++ s.functions
  laid : Laid c after s.position new

/-- The global scope has what the walk over the headers declared, if it had nothing before. -/
theorem Surveyed.global {new : List Symbol} (h : Surveyed c s new after) (hstart : s.globals = []) :
    ∃ global, after.arena.scope? 0 = some global ∧ global.symbols = new := by
  obtain ⟨global, hglobal, -⟩ := h.orderly
  have hglobals := h.globals
  unfold State.globals at hglobals hstart
  rw [hglobal, hstart] at hglobals
  exact ⟨global, hglobal, hglobals⟩

/-- The rounds of the walk see the program as a row of pieces. -/
theorem ensures_headerRounds (hc : c.Closed) (hw : c.Worded) :
    ∀ left s, Orderly s → Ensures (roundsFrom (return !(← atEnd))
      (fun _ ↦ do headerRound; return .yield ()) left ()) c s Unlost fun _ after ↦
        ∃ new, Surveyed c s new after := by
  have hended {s : State} (hs : Orderly s) (hend : c.kindAt s.position = .eof) :
      ∃ new, Surveyed c s new s :=
    ⟨[], hs, .refl s, (List.append_nil _).symm, .nil _, rfl, .ended hend⟩
  intro left
  induction left with
  | zero =>
    intro s hs
    rw [roundsFrom]
    simp only [ensures_bind, ensures_atEnd, ensures_pure, ensures_ite, ensures_read,
      ensures_violate]
    exact ⟨fun _ ↦ by simp, fun hend ↦ hended hs (by simpa using hend)⟩
  | succ left ih =>
    intro s hs
    rw [roundsFrom]
    simp only [ensures_bind, ensures_atEnd, ensures_pure, ensures_ite]
    refine ⟨fun hmore ↦ ?_, fun hend ↦ hended hs (by simpa using hend)⟩
    refine (ensures_headerRound hc hw hs (by simpa using hmore)).mono ?_
    rintro _ after ⟨new, hround⟩
    refine (ih after hround.orderly).mono ?_
    rintro _ later ⟨rest, hlater⟩
    refine ⟨new ++ rest, hlater.orderly, hround.extends_.trans hlater.extends_, ?_,
      hround.scopes.append hlater.scopes, ?_, hround.laid later rest hlater.extends_ hlater.laid⟩
    · rw [hlater.globals, hround.globals, List.append_assoc]
    · rw [hlater.functions, hround.functions, List.filterMap_append, List.reverse_append,
        List.append_assoc]

theorem ensures_headers (hc : c.Closed) (hw : c.Worded) (hs : Orderly s) :
    Ensures headers c s Unlost fun _ after ↦ ∃ new, Surveyed c s new after := by
  simp only [headers, roundsWhile, ensures_bind, ensures_read, ensures_isRecorded, ensures_ite,
    ensures_violate, ensures_pure]
  exact (ensures_headerRounds hc hw _ s hs).mono fun _ _ h ↦ ⟨fun _ ↦ h, fun _ ↦ by simp⟩

end

end FrontEnd
