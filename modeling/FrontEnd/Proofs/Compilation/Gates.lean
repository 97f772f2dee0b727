import FrontEnd.CommandLine.Report
import Mathlib.Data.List.Infix

/-!
# Gates between the stages

Whether a compilation halts at lexical errors, and whether a text that the parser refused is checked,
decides how many stages run.  A stage that a gate keeps from running comes behind one that found fault,
so gates hide diagnostics but never change the verdict: it is that of the three stages taken by
themselves (`succeeded_compile`), and what is reported is a front part of what they report together
(`diagnostics_compile`).

The command inherits this.  Besides its two success lines it prints listings only, and no listing reads
like one of them (`mem_outputLines`), so a success line that is printed is one for a stage.
-/

namespace FrontEnd

/-- The same limits, with gates that let no more stages run. -/
structure Settings.Stricter (strict loose : Settings) : Prop where
  wordLimit : strict.wordLimit = loose.wordLimit
  limits : strict.limits = loose.limits
  stepLimit : strict.stepLimit = loose.stepLimit
  haltOnLexicalErrors : loose.haltOnLexicalErrors → strict.haltOnLexicalErrors
  analyzeRejected : strict.analyzeRejected → loose.analyzeRejected

namespace Settings

variable (settings : Settings) (source : String)

/-- The compilation in which every stage runs. -/
def ungated : Compilation :=
  let scan := scan settings.wordLimit source
  ⟨scan, some (parse settings.stepLimit scan.tokens), some (analyze settings.limits scan.tokens)⟩

/-- Whether the parser is kept from running. -/
def haltsAtScan : Bool :=
  !(scan settings.wordLimit source).clean && settings.haltOnLexicalErrors

/-- Whether the checker is kept from running once the parser has run. -/
def haltsAtParse : Bool :=
  !(parse settings.stepLimit (scan settings.wordLimit source).tokens).accepted
    && !settings.analyzeRejected

end Settings

namespace Compilation

/-- The diagnostics of the parser. -/
def syntaxLines (c : Compilation) : List String :=
  ((c.parse.bind Parse.error).map SyntaxError.message).toList

/-- The diagnostics of the checker. -/
def semanticLines (c : Compilation) : List String :=
  ((c.analysis.bind Analysis.error).map SemanticError.message).toList

end Compilation

variable (settings : Settings) (source : String)

theorem compile_eq : compile settings source =
    if settings.haltsAtScan source then ⟨(settings.ungated source).scan, none, none⟩
    else if settings.haltsAtParse source then
      ⟨(settings.ungated source).scan, (settings.ungated source).parse, none⟩
    else settings.ungated source :=
  rfl

/-! ### The verdict -/

/-- Whatever the gates, a compilation succeeds if the stages, taken by themselves, find no fault. -/
theorem succeeded_compile :
    (compile settings source).succeeded = (settings.ungated source).succeeded := by
  rw [compile_eq]
  by_cases hscan : settings.haltsAtScan source
  · have hclean : (scan settings.wordLimit source).clean = false := by
      simp only [Settings.haltsAtScan, Bool.and_eq_true, Bool.not_eq_true'] at hscan
      exact hscan.1
    simp [if_pos hscan, Compilation.succeeded, Settings.ungated, hclean]
  by_cases hparse : settings.haltsAtParse source
  · have hrefused :
        (parse settings.stepLimit (scan settings.wordLimit source).tokens).accepted = false := by
      simp only [Settings.haltsAtParse, Bool.and_eq_true, Bool.not_eq_true'] at hparse
      exact hparse.1
    simp [if_neg hscan, if_pos hparse, Compilation.succeeded, Settings.ungated, hrefused]
  · rw [if_neg hscan, if_neg hparse]

/-! ### The diagnostics -/

/-- What is reported is what the stages up to a closed gate report. -/
theorem diagnostics_compile : (compile settings source).diagnostics =
    let c := settings.ungated source
    c.scan.errors.map LexicalError.message
      ++ if settings.haltsAtScan source then []
        else c.syntaxLines ++ if settings.haltsAtParse source then [] else c.semanticLines := by
  rw [compile_eq]
  by_cases hscan : settings.haltsAtScan source
  · simp [if_pos hscan, Compilation.diagnostics]
  by_cases hparse : settings.haltsAtParse source
  · simp [if_neg hscan, if_pos hparse, Compilation.diagnostics, Compilation.syntaxLines]
  · rw [if_neg hscan, if_neg hparse]
    dsimp only
    rw [if_neg hscan, if_neg hparse, Compilation.diagnostics, List.append_assoc]
    rfl

variable {settings source}

namespace Settings.Stricter

variable {strict loose : Settings}

theorem haltsAtScan (h : strict.Stricter loose) (hloose : loose.haltsAtScan source) :
    strict.haltsAtScan source := by
  simp only [Settings.haltsAtScan, Bool.and_eq_true] at hloose ⊢
  exact ⟨h.wordLimit ▸ hloose.1, h.haltOnLexicalErrors hloose.2⟩

theorem haltsAtParse (h : strict.Stricter loose) (hloose : loose.haltsAtParse source) :
    strict.haltsAtParse source := by
  simp only [Settings.haltsAtParse, Bool.and_eq_true, Bool.not_eq_true'] at hloose ⊢
  refine ⟨h.wordLimit ▸ h.stepLimit ▸ hloose.1, ?_⟩
  rw [Bool.eq_false_iff]
  exact mt h.analyzeRejected (Bool.eq_false_iff.1 hloose.2)

/-- Stricter gates leave a front part of the diagnostics. -/
theorem diagnostics_prefix (h : strict.Stricter loose) :
    (compile strict source).diagnostics <+: (compile loose source).diagnostics := by
  have hungated : strict.ungated source = loose.ungated source := by
    unfold ungated
    rw [h.wordLimit, h.stepLimit, h.limits]
  rw [diagnostics_compile, diagnostics_compile, hungated]
  refine (List.prefix_append_right_inj _).2 ?_
  by_cases hscan : strict.haltsAtScan source
  · rw [if_pos hscan]
    exact List.nil_prefix
  · rw [if_neg hscan, if_neg (mt h.haltsAtScan hscan)]
    refine (List.prefix_append_right_inj _).2 ?_
    by_cases hparse : strict.haltsAtParse source
    · rw [if_pos hparse]
      exact List.nil_prefix
    · rw [if_neg hparse, if_neg (mt h.haltsAtParse hparse)]

end Settings.Stricter

/-- A compilation succeeds exactly if there is nothing to report. -/
theorem succeeded_compile_iff :
    (compile settings source).succeeded ↔ (compile settings source).diagnostics = [] := by
  rw [compile_eq]
  by_cases hscan : settings.haltsAtScan source
  · -- the lexical errors are reported, and they are why the compilation failed
    have herrors : (scan settings.wordLimit source).errors ≠ [] := by
      simp only [Settings.haltsAtScan, Scan.clean, Bool.and_eq_true, Bool.not_eq_true',
        List.isEmpty_eq_false_iff] at hscan
      exact hscan.1
    simp [if_pos hscan, Compilation.succeeded, Compilation.diagnostics, Settings.ungated, herrors]
  by_cases hparse : settings.haltsAtParse source
  · have herror : (parse settings.stepLimit (scan settings.wordLimit source).tokens).error ≠ none := by
      simp only [Settings.haltsAtParse, Parse.accepted, Bool.and_eq_true, Bool.not_eq_true',
        Option.isNone_eq_false_iff] at hparse
      exact Option.isSome_iff_ne_none.1 hparse.1
    simp [if_neg hscan, if_pos hparse, Compilation.succeeded, Compilation.diagnostics,
      Settings.ungated, herror]
  · rw [if_neg hscan, if_neg hparse]
    simp [Settings.ungated, Compilation.succeeded, Compilation.diagnostics, Scan.clean,
      Parse.accepted, Analysis.accepted, and_assoc]


/-! ### What the command prints -/

namespace CommandLine

/-- A line that is neither of the lines that report success. -/
def IsListing (line : String) : Prop :=
  line ≠ Parse.acceptedMessage ∧ line ≠ Analysis.acceptedMessage

/-- The lines that report success begin like no listing does. -/
theorem isListing_of_take_two {line : String} (hparse : line.toList.take 2 ≠ ['I', 'n'])
    (hcheck : line.toList.take 2 ≠ ['S', 'e']) : IsListing line :=
  ⟨fun h ↦ hparse (by simp [h, Parse.acceptedMessage]),
    fun h ↦ hcheck (by simp [h, Analysis.acceptedMessage])⟩

theorem head_spelling (k : Kind) :
    k.spelling.toList.head?.any fun c ↦ c != 'I' && c != 'S' := by
  cases k <;> decide

theorem isListing_token (t : Token) : IsListing t.listing := by
  have hhead := head_spelling t.kind
  unfold Token.listing Text.padded
  cases hspelling : t.kind.spelling.toList with
  | nil => simp [hspelling] at hhead
  | cons c rest =>
    simp only [hspelling, List.head?_cons, Option.any_some, Bool.and_eq_true, bne_iff_ne] at hhead
    apply isListing_of_take_two <;> simp [hspelling, hhead.1, hhead.2]

theorem isListing_event (e : TraceEvent) : IsListing e.text := by
  cases e with
  | looked top lookahead p =>
    show IsListing ("Stack top: " ++ top.text ++ ", lookahead: " ++ lookahead.spelling
      ++ " (" ++ p.text ++ ")")
    apply isListing_of_take_two <;> simp
  | matched k =>
    show IsListing ("Matched: " ++ k.spelling)
    apply isListing_of_take_two <;> simp
  | applied category body =>
    show IsListing ("Applying rule: " ++ category.name ++ " -> "
      ++ " ".intercalate (body.map GrammarSymbol.text))
    apply isListing_of_take_two <;> simp
  | skipped category =>
    show IsListing ("Skipping " ++ category.name ++ " (empty production)")
    apply isListing_of_take_two <;> simp

theorem isListing_scope {scope : Scope} {index : Nat} {line : String}
    (h : line ∈ scope.lines index) : IsListing line := by
  rcases List.mem_cons.1 h with rfl | hsymbol
  · apply isListing_of_take_two <;> simp
  · obtain ⟨symbol, -, rfl⟩ := List.mem_map.1 hsymbol
    apply isListing_of_take_two <;> simp

theorem mem_linesIf {asked : Bool} {lines : Unit → List String} {line : String} :
    line ∈ linesIf asked lines ↔ asked ∧ line ∈ lines () := by
  cases asked <;> simp [linesIf]

variable {o : Options} {c : Compilation} {line : String}

/-- A line that is printed and is no listing reports the success of a stage. -/
theorem mem_outputLines (hline : ¬IsListing line) : line ∈ outputLines o c ↔
    (c.parse.any Parse.accepted ∧ line = Parse.acceptedMessage) ∨
      (c.analysis.any Analysis.accepted ∧ line = Analysis.acceptedMessage) := by
  have htokens : line ∉ linesIf o.dumpTokens (fun _ ↦ c.scan.tokens.map Token.listing) := by
    intro h
    obtain ⟨t, -, rfl⟩ := List.mem_map.1 (mem_linesIf.1 h).2
    exact hline (isListing_token t)
  have htrace : line ∉ linesIf o.trace
      (fun _ ↦ ((c.parse.map Parse.trace).getD []).map TraceEvent.text) := by
    intro h
    obtain ⟨e, -, rfl⟩ := List.mem_map.1 (mem_linesIf.1 h).2
    exact hline (isListing_event e)
  have hsymbols : line ∉ linesIf o.dumpSymbols
      (fun _ ↦ (c.analysis.map fun a ↦ a.symbols.arena.lines).getD []) := by
    intro h
    have hlines := (mem_linesIf.1 h).2
    cases hanalysis : c.analysis with
    | none => simp [hanalysis] at hlines
    | some a =>
      rw [hanalysis] at hlines
      obtain ⟨⟨scope, index⟩, -, hscope⟩ := List.mem_flatMap.1 hlines
      exact hline (isListing_scope hscope)
  simp [outputLines, htokens, htrace, hsymbols, mem_linesIf]

theorem parseLine_mem_iff :
    Parse.acceptedMessage ∈ outputLines o c ↔ c.parse.any Parse.accepted := by
  rw [mem_outputLines fun h ↦ h.1 rfl]
  simp [Parse.acceptedMessage, Analysis.acceptedMessage]

theorem checkLine_mem_iff :
    Analysis.acceptedMessage ∈ outputLines o c ↔ c.analysis.any Analysis.accepted := by
  rw [mem_outputLines fun h ↦ h.2 rfl]
  simp [Parse.acceptedMessage, Analysis.acceptedMessage]

theorem exitCode_eq_zero_iff : (Report.ofCompilation o c).exitCode = 0 ↔ c.succeeded := by
  cases hc : c.succeeded <;> simp [Report.ofCompilation, hc]

/-- Where lexical errors halt a compilation, one whose text was parsed had none. -/
theorem clean_of_parse {settings : Settings} {source : String} (h : settings.haltOnLexicalErrors)
    (hparse : (compile settings source).parse.any Parse.accepted) :
    (compile settings source).scan.clean := by
  rw [compile_eq] at hparse ⊢
  by_cases hscan : settings.haltsAtScan source
  · rw [if_pos hscan] at hparse
    cases hparse
  · have hclean : (scan settings.wordLimit source).clean := by
      simpa [Settings.haltsAtScan, h] using hscan
    rw [if_neg hscan]
    split <;> exact hclean

/-- Gates hide diagnostics but never change the verdict.

Under the same limits a text succeeds whatever the gates; with stricter gates a front part of the
diagnostics is reported; and success means that there is nothing to report.  So does the exit code
zero of the command, which is the same with and without going on past errors.  With it both success
lines are printed, and unless the command goes on past errors both are printed only then. -/
theorem gates_keep_verdicts (source : String) :
    (∀ settings : Settings,
      (∀ halt analyze,
        (compile { settings with haltOnLexicalErrors := halt, analyzeRejected := analyze }
          source).succeeded = (compile settings source).succeeded) ∧
      (∀ loose, settings.Stricter loose →
        (compile settings source).diagnostics <+: (compile loose source).diagnostics) ∧
      ((compile settings source).succeeded ↔ (compile settings source).diagnostics = [])) ∧
    ∀ (o : Options) (path : String),
      let r := Report.ofFile o path (.ok source)
      (r.exitCode = 0 ↔ r.errors = []) ∧
      (∀ keepGoing, (Report.ofFile { o with keepGoing := keepGoing } path (.ok source)).exitCode
        = r.exitCode) ∧
      (r.exitCode = 0 → Parse.acceptedMessage ∈ r.output ∧ Analysis.acceptedMessage ∈ r.output) ∧
      (o.keepGoing = false → Parse.acceptedMessage ∈ r.output → Analysis.acceptedMessage ∈ r.output →
        r.exitCode = 0) := by
  refine ⟨fun settings ↦ ⟨fun halt analyze ↦ ?_, fun loose h ↦ h.diagnostics_prefix,
    succeeded_compile_iff⟩, fun o path ↦ ⟨?_, fun keepGoing ↦ ?_, fun hexit ↦ ?_,
    fun hstop hparse hcheck ↦ ?_⟩⟩
  · rw [succeeded_compile, succeeded_compile]
    rfl
  · exact exitCode_eq_zero_iff.trans succeeded_compile_iff
  · show (Report.ofCompilation _ _).exitCode = (Report.ofCompilation _ _).exitCode
    unfold Report.ofCompilation
    rw [succeeded_compile, succeeded_compile]
    rfl
  · have hsucceeded := exitCode_eq_zero_iff.1 hexit
    simp only [Compilation.succeeded, Bool.and_eq_true] at hsucceeded
    exact ⟨parseLine_mem_iff.2 hsucceeded.1.2, checkLine_mem_iff.2 hsucceeded.2⟩
  · have hhalts : o.settings.haltOnLexicalErrors := by simp [Options.settings, hstop]
    have haccepted := parseLine_mem_iff.1 hparse
    refine exitCode_eq_zero_iff.2 ?_
    simp only [Compilation.succeeded, Bool.and_eq_true]
    exact ⟨⟨clean_of_parse hhalts haccepted, haccepted⟩, checkLine_mem_iff.1 hcheck⟩

/-- A text at which every stage finds fault. -/
def faultyText : String := "mn() \x7b nt x = 1 @ y; \x7d"

/-- Of the faults of a text the usual gates show the first, and a program without faults is reported
to have passed both stages. -/
theorem gates_keep_verdicts_faultyText :
    let loose := { Settings.default with haltOnLexicalErrors := false, analyzeRejected := true }
    let r := Report.ofFile .none "program.cns" (.ok "mn() \x7b end; \x7d")
    (Settings.default.Stricter loose ∧ (compile loose faultyText).diagnostics.length = 3 ∧
      (compile .default faultyText).diagnostics <+: (compile loose faultyText).diagnostics) ∧
    (r.exitCode = 0 ∧ Parse.acceptedMessage ∈ r.output ∧ Analysis.acceptedMessage ∈ r.output) := by
  intro loose r
  have hstricter : Settings.default.Stricter loose := ⟨rfl, rfl, rfl, fun _ ↦ rfl, fun _ ↦ rfl⟩
  have hexit : r.exitCode = 0 := by decide +kernel
  exact ⟨⟨hstricter, by decide +kernel,
    ((gates_keep_verdicts faultyText).1 .default).2.1 loose hstricter⟩, hexit,
    ((gates_keep_verdicts "mn() \x7b end; \x7d").2 .none "program.cns").2.2.1 hexit⟩

end CommandLine

end FrontEnd
