import FrontEnd.Proofs.Check.NeverLost
import FrontEnd.Proofs.Retelling.Parse
import FrontEnd.Proofs.Retelling.Program
import Mathlib.Logic.Equiv.Basic

/-!
# Layout and names do not matter

A program is told anew by laying out its tokens in another way and by renaming its names.  If the names
are renamed to names, no two to the same one, and those of built-in functions are kept, then what is
said of the program stays the same (`Renaming.verdicts`): it is accepted as before, or refused for the
same reason at the same token, and what is recorded of its names and warned of is renamed.

A renaming only has to say what becomes of names.  That it keeps what is no name makes it injective on
all texts, as a `Retelling` has to be: reserved words are not names, so nothing is renamed to one.
-/

namespace FrontEnd

open Check

/-- A renaming of the names in programs. -/
structure Renaming where
  /-- What a name is renamed to. -/
  apply : String → String
  /-- A name stays a name. -/
  named : ∀ {name}, isName name → isName (apply name)
  injective : ∀ {name other}, isName name → isName other → apply name = apply other → name = other
  /-- Built-in functions keep their names. -/
  builtin : ∀ b : Builtin, apply b.name = b.name

namespace Renaming

variable (ρ : Renaming)

/-- The renaming of whatever may be a name. -/
def rename (text : String) : String :=
  if isName text then ρ.apply text else text

/-- Tokens that are the same but for where they stand and for the renaming of names. -/
def Retold (t u : Token) : Prop :=
  u.kind = t.kind ∧ u.lexeme = if t.kind = .identifier then ρ.apply t.lexeme else t.lexeme

instance (t u : Token) : Decidable (ρ.Retold t u) :=
  inferInstanceAs (Decidable (_ ∧ _))

theorem isName_rename (text : String) : isName (ρ.rename text) = isName text := by
  unfold rename
  split
  next h => rw [ρ.named h, h]
  next => rfl

theorem rename_injective : Function.Injective ρ.rename := by
  intro text other h
  have hnames := congrArg isName h
  rw [isName_rename, isName_rename] at hnames
  by_cases hname : isName text
  · have hother : isName other := hnames ▸ hname
    simp only [rename, hname, hother, if_true] at h
    exact ρ.injective hname hother h
  · have hother : ¬ isName other := hnames ▸ hname
    simpa only [rename, if_neg hname, if_neg hother] using h

theorem rename_of_ofWord? {word : String} {k : Kind} (h : Kind.ofWord? word = some k) :
    ρ.rename word = word := by
  refine if_neg fun hname ↦ ?_
  rw [ofWord?_of_isName hname] at h
  cases h

theorem rename_builtin (b : Builtin) : ρ.rename b.name = b.name := by
  unfold rename
  split
  · exact ρ.builtin b
  · rfl

end Renaming

namespace Retelling

theorem rel_getElem? {α : Type} {rel : α → α → Prop} {l m : List α} (h : List.Forall₂ rel l m)
    (i : Nat) : Option.Rel rel l[i]? m[i]? := by
  induction h generalizing i with
  | nil => exact .none
  | cons h _ ih =>
    cases i with
    | zero => exact .some h
    | succ i => exact ih i

theorem isNone_eq {α : Type} {rel : α → α → Prop} {a b : Option α} (h : Option.Rel rel a b) :
    b.isNone = a.isNone := by
  cases h <;> rfl

/-- At the top of texts that tell the same program, the same stands around. -/
theorem contexts_top {T : Retelling} (limits : Limits) {tokens tokens' : List Token}
    (h : List.Forall₂ T.Tokens tokens tokens') (hne : tokens ≠ []) :
    T.Contexts (.top limits tokens) (.top limits tokens') := by
  have hlast : T.Tokens (Context.top limits tokens).last (Context.top limits tokens').last := by
    have hrel := rel_getLast? h
    rw [List.getLast?_eq_getLast_of_ne_nil hne] at hrel
    simp only [Context.top, List.getLast?_eq_getLast_of_ne_nil hne]
    generalize tokens'.getLast? = found' at hrel
    cases hrel with
    | some hrel => exact hrel
  refine ⟨fun i ↦ ?_, fun i ↦ ?_, ?_, rfl, rfl, rfl, rfl, rfl⟩
  · have hrel := rel_getElem? h i
    unfold Context.tokenAt
    generalize hfound : (Context.top limits tokens).tokens[i]? = found,
      hfound' : (Context.top limits tokens').tokens[i]? = found'
    simp only [Context.top, List.getElem?_toArray] at hfound hfound'
    rw [hfound, hfound'] at hrel
    cases hrel with
    | none => exact hlast
    | some hrel => exact hrel
  · have hrel := rel_getElem? h i
    simp only [Context.kindAt, Context.top, List.getElem?_toArray]
    generalize tokens[i]? = found, tokens'[i]? = found' at hrel
    cases hrel with
    | none => rfl
    | some hrel => exact T.kind hrel
  · simp only [Context.top, List.size_toArray, h.length_eq]

end Retelling

namespace Renaming

variable (ρ : Renaming) {wordLimit wordLimit' : Nat} {source source' : String}

/-- What relates the scans of two texts that tell the same program. -/
def retelling (h : List.Forall₂ ρ.Retold (scan wordLimit source).tokens
    (scan wordLimit' source').tokens) : Retelling where
  rename := ρ.rename
  Tokens t u := ∃ i : Nat, (scan wordLimit source).tokens[i]? = some t ∧
    (scan wordLimit' source').tokens[i]? = some u
  injective := ρ.rename_injective
  reserved := ρ.rename_of_ofWord?
  builtin := ρ.rename_builtin
  kind := by
    rintro t u ⟨i, ht, hu⟩
    have hrel := Retelling.rel_getElem? h i
    rw [ht, hu] at hrel
    cases hrel with
    | some hrel => exact hrel.1
  lexeme := by
    rintro t u ⟨i, ht, hu⟩
    have hrel := Retelling.rel_getElem? h i
    rw [ht, hu] at hrel
    cases hrel with
    | some hrel =>
      rw [hrel.2]
      refine ite_congr rfl (fun hk ↦ ?_) fun _ ↦ rfl
      exact (if_pos (isName_of_mem_scan (List.mem_of_getElem? ht) hk)).symm
  entryPoint := by
    rintro t u ⟨i, ht, -⟩ hk
    have hword := (worded_of_mem_scan (List.mem_of_getElem? ht)).2 (by
      show t.kind.isKeyword = true
      rw [hk]
      rfl)
    exact Kind.eq_entryPointName_of_ofWord? (hword.trans (congrArg some hk))

/-- Layout and names do not matter: of a program that is told anew, the parser and the check say what
they said of it, at the same token and with the names renamed. -/
theorem verdicts_retold (h : List.Forall₂ ρ.Retold (scan wordLimit source).tokens
    (scan wordLimit' source').tokens) (steps : Nat) (limits : Limits) :
    let tokens := (scan wordLimit source).tokens
    let tokens' := (scan wordLimit' source').tokens
    let T := ρ.retelling h
    ((parse steps tokens').accepted = (parse steps tokens).accepted ∧
      Option.Rel T.SyntaxErrors (parse steps tokens).error (parse steps tokens').error) ∧
    (analyze limits tokens').accepted = (analyze limits tokens).accepted ∧
      T.Analyses (analyze limits tokens) (analyze limits tokens') := by
  intro tokens tokens' T
  have htokens : List.Forall₂ T.Tokens tokens tokens' :=
    List.forall₂_iff_get.2 ⟨h.length_eq, fun i hi hi' ↦
      ⟨i, List.getElem?_eq_getElem hi, List.getElem?_eq_getElem hi'⟩⟩
  have hparses := Retelling.syntaxErrors_parse htokens steps
  have hne : tokens ≠ [] := by simp [tokens, scan]
  have hanalyses := Retelling.analyses (Retelling.contexts_top limits htokens hne)
  exact ⟨⟨Retelling.isNone_eq hparses, hparses⟩, Retelling.isNone_eq hanalyses.error, hanalyses⟩

/-- Two names change places. -/
def swap {x y : String} (hx : isName x) (hy : isName y)
    (hbuiltin : ∀ b : Builtin, b.name ≠ x ∧ b.name ≠ y) : Renaming where
  apply := Equiv.swap x y
  named {name} hname := by
    rw [Equiv.swap_apply_def]
    split_ifs
    · exact hy
    · exact hx
    · exact hname
  injective _ _ h := (Equiv.swap x y).injective h
  builtin b := Equiv.swap_apply_of_ne_of_ne (hbuiltin b).1 (hbuiltin b).2

end Renaming

/-- A program that reads a variable and a member before they have a value, and then writes to a name
that is not declared. -/
def boxProgram : String :=
  "strct box \x7b nt size; \x7d; mn() \x7b nt x; dfstrct box b; b.size = x + b.size; y = x; end; \x7d"

/-- The variable is called as the member was, and the member as the variable was. -/
def boxRenaming : Renaming :=
  .swap (x := "x") (y := "size") (by decide) (by decide) fun b ↦ by cases b <;> decide

/-- The same program on several lines and with these names. -/
def boxProgramRetold : String :=
  "strct box \x7b nt x; \x7d;\n\nmn() \x7b\n  nt size;\n  dfstrct box b;\n" ++
    "  b.x = size + b.x;\n  y = size;\n  end; \x7d"

theorem verdicts_retold_boxProgram :
    let tokens := (scan 16 boxProgram).tokens
    let tokens' := (scan 8 boxProgramRetold).tokens
    ∃ h : List.Forall₂ boxRenaming.Retold tokens tokens',
      let T := boxRenaming.retelling h
      ((parse 1000 tokens').accepted = (parse 1000 tokens).accepted ∧
        Option.Rel T.SyntaxErrors (parse 1000 tokens).error (parse 1000 tokens').error) ∧
      (analyze .default tokens').accepted = (analyze .default tokens).accepted ∧
        T.Analyses (analyze .default tokens) (analyze .default tokens') := by
  intro tokens tokens'
  have h : List.Forall₂ boxRenaming.Retold tokens tokens' := by decide +kernel
  exact ⟨h, boxRenaming.verdicts_retold h 1000 .default⟩

end FrontEnd
