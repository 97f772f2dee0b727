import FrontEnd.Check.Statement

/-!
# Skeletons of bodies

The skeleton of a body is how control goes through it: its conditionals, loops, switches and jumps,
with the other statements all alike.  It is a tree, so what encloses a statement can be said of it
outright (`Skeleton.inside`), and with that the rules of control flow (`Skeleton.Legal`).

For a part of a body the rules are relative to what encloses it (`Skeleton.Allowed`), and they come
down to those for its parts.  For a whole body they are the rules as stated (`Skeleton.legal_iff`).

All parts of a skeleton are members of one family, so an argument about them is one induction.
-/

namespace FrontEnd

open Check

/-- What a part of a skeleton is. -/
inductive Role where
  | statement
  | statements
  /-- Statements between braces, with the label of their scope. -/
  | block (label : String)
  /-- What follows the first block of a conditional. -/
  | branches
  /-- What stands between the braces of a switch. -/
  | cases

/-- A part of the body of a function, by how control goes through it. -/
inductive Skeleton : Role → Type
  /-- A declaration, an assignment, a call, a count or a print. -/
  | simple : Skeleton .statement
  | returns : Skeleton .statement
  | breaks : Skeleton .statement
  | continues : Skeleton .statement
  | ends : Skeleton .statement
  | conditional (first : Skeleton (.block "if block")) (more : Skeleton .branches) :
    Skeleton .statement
  | whileLoop (body : Skeleton (.block "while block")) : Skeleton .statement
  | doLoop (body : Skeleton (.block "do block")) : Skeleton .statement
  | forLoop (body : Skeleton (.block "for block")) : Skeleton .statement
  | switch (selector : DataType) (cases : Skeleton .cases) : Skeleton .statement
  | empty : Skeleton .statements
  | next (first : Skeleton .statement) (rest : Skeleton .statements) : Skeleton .statements
  | braces {label : String} (body : Skeleton .statements) : Skeleton (.block label)
  | noBranch : Skeleton .branches
  | elseIf (body : Skeleton (.block "else-if block")) (more : Skeleton .branches) :
    Skeleton .branches
  | otherwise (body : Skeleton (.block "else block")) : Skeleton .branches
  | noCase : Skeleton .cases
  | labelled (label : Token) (body : Skeleton .statements) (more : Skeleton .cases) :
    Skeleton .cases
  | default (body : Skeleton .statements) (more : Skeleton .cases) : Skeleton .cases

/-- What encloses a statement inside a function. -/
inductive Around where
  | branch | loop | switch | case
  deriving DecidableEq

namespace Skeleton

/-- All statements inside a part, with what encloses each of them, innermost first, when something
encloses the part. -/
def inside : {role : Role} → Skeleton role → List Around → List (List Around × Skeleton .statement)
  | _, simple, around => [(around, simple)]
  | _, returns, around => [(around, returns)]
  | _, breaks, around => [(around, breaks)]
  | _, continues, around => [(around, continues)]
  | _, ends, around => [(around, ends)]
  | _, conditional first more, around =>
    (around, conditional first more) :: (first.inside (.branch :: around) ++ more.inside around)
  | _, whileLoop body, around => (around, whileLoop body) :: body.inside (.loop :: around)
  | _, doLoop body, around => (around, doLoop body) :: body.inside (.loop :: around)
  | _, forLoop body, around => (around, forLoop body) :: body.inside (.loop :: around)
  | _, switch selector cases, around =>
    (around, switch selector cases) :: cases.inside (.switch :: around)
  | _, empty, _ => []
  | _, next first rest, around => first.inside around ++ rest.inside around
  | _, braces body, around => body.inside around
  | _, noBranch, _ => []
  | _, elseIf body more, around => body.inside (.branch :: around) ++ more.inside around
  | _, otherwise body, around => body.inside (.branch :: around)
  | _, noCase, _ => []
  | _, labelled _ body more, around => body.inside (.case :: around) ++ more.inside around
  | _, default body more, around => body.inside (.case :: around) ++ more.inside around

/-- The statements of a sequence. -/
def list : Skeleton .statements → List (Skeleton .statement)
  | empty => []
  | next first rest => first :: rest.list

/-- The blocks of a switch. -/
def blocks : Skeleton .cases → List (Skeleton .statements)
  | noCase => []
  | labelled _ body more => body :: more.blocks
  | default body more => body :: more.blocks

/-- The labels of a switch. -/
def labels : Skeleton .cases → List Token
  | noCase => []
  | labelled label _ more => label :: more.labels
  | default _ more => more.labels

/-- How many blocks of a switch are its default. -/
def defaults : Skeleton .cases → Nat
  | noCase => 0
  | labelled _ _ more => more.defaults
  | default _ more => more.defaults + 1

/-- The rules for the blocks of a switch with a selector of a type: each ends with a jump out of it,
the labels are literals of that type and distinct, and there is one default at most. -/
structure Ordered (selector : DataType) (cases : Skeleton .cases) : Prop where
  closed : ∀ block ∈ cases.blocks, block.list.getLast? = some breaks
  kinds : ∀ label ∈ cases.labels, label.kind ∈ labelKinds selector
  distinct : (cases.labels.map Token.lexeme).Nodup
  default : cases.defaults ≤ 1

/-- The rules of control flow, for a body of the entry point or of another function. -/
structure Legal (isEntryPoint : Bool) (body : Skeleton .statements) : Prop where
  /-- A jump out stands inside a loop or a case. -/
  breaks : ∀ around, (around, breaks) ∈ body.inside [] → .loop ∈ around ∨ .case ∈ around
  /-- Of the loops and cases around a jump to the next round, the nearest is a loop. -/
  continues : ∀ around, (around, continues) ∈ body.inside [] →
    around.find? (fun a ↦ a == .loop || a == .case) = some .loop
  /-- No switch stands inside another one. -/
  nested : ∀ around selector cases, (around, switch selector cases) ∈ body.inside [] →
    .switch ∉ around
  ordered : ∀ around selector cases, (around, switch selector cases) ∈ body.inside [] →
    cases.Ordered selector
  /-- The end of the program stands in the entry point and is enclosed by nothing. -/
  ends : ∀ around, (around, ends) ∈ body.inside [] → isEntryPoint ∧ around = []
  /-- Nothing follows the end of the program. -/
  last : Skeleton.ends ∉ body.list.dropLast

/-- The rules of control flow for a statement itself, with what encloses it. -/
def AllowedHere (isEntryPoint : Bool) (around : List Around) : Skeleton .statement → Prop
  | breaks => .loop ∈ around ∨ .case ∈ around
  | continues => around.find? (fun a ↦ a == .loop || a == .case) = some .loop
  | ends => isEntryPoint ∧ around = []
  | switch selector cases => .switch ∉ around ∧ cases.Ordered selector
  | _ => True

/-- The rules of control flow for all statements inside a part, with what encloses it. -/
def Allowed {role : Role} (isEntryPoint : Bool) (around : List Around) (x : Skeleton role) : Prop :=
  ∀ path y, (path, y) ∈ x.inside around → y.AllowedHere isEntryPoint path

section

variable {isEntryPoint : Bool} {around : List Around}

/-! ### The rules for the parts of a part -/

/-- The rules for statements that are listed with what encloses them. -/
theorem forall_mem_append_iff {xs ys : List (List Around × Skeleton .statement)} :
    (∀ path y, (path, y) ∈ xs ++ ys → y.AllowedHere isEntryPoint path) ↔
      (∀ path y, (path, y) ∈ xs → y.AllowedHere isEntryPoint path) ∧
        ∀ path y, (path, y) ∈ ys → y.AllowedHere isEntryPoint path := by
  simp only [List.mem_append, or_imp, forall_and]

/-- The rules for a statement are those for itself and for what stands inside it. -/
theorem allowed_iff_of_inside {x : Skeleton .statement}
    {parts : List (List Around × Skeleton .statement)} (h : x.inside around = (around, x) :: parts) :
    x.Allowed isEntryPoint around ↔ x.AllowedHere isEntryPoint around ∧
      ∀ path y, (path, y) ∈ parts → y.AllowedHere isEntryPoint path := by
  simp only [Allowed, h, List.mem_cons, Prod.mk.injEq, or_imp, forall_and]
  simp

@[simp]
theorem allowed_conditional {first : Skeleton (.block "if block")} {more : Skeleton .branches} :
    (conditional first more).Allowed isEntryPoint around ↔
      first.Allowed isEntryPoint (.branch :: around) ∧ more.Allowed isEntryPoint around :=
  (allowed_iff_of_inside rfl).trans <| (and_iff_right trivial).trans forall_mem_append_iff

@[simp]
theorem allowed_whileLoop {body : Skeleton (.block "while block")} :
    (whileLoop body).Allowed isEntryPoint around ↔ body.Allowed isEntryPoint (.loop :: around) :=
  (allowed_iff_of_inside rfl).trans (and_iff_right trivial)

@[simp]
theorem allowed_doLoop {body : Skeleton (.block "do block")} :
    (doLoop body).Allowed isEntryPoint around ↔ body.Allowed isEntryPoint (.loop :: around) :=
  (allowed_iff_of_inside rfl).trans (and_iff_right trivial)

@[simp]
theorem allowed_forLoop {body : Skeleton (.block "for block")} :
    (forLoop body).Allowed isEntryPoint around ↔ body.Allowed isEntryPoint (.loop :: around) :=
  (allowed_iff_of_inside rfl).trans (and_iff_right trivial)

@[simp]
theorem allowed_switch {selector : DataType} {cases : Skeleton .cases} :
    (switch selector cases).Allowed isEntryPoint around ↔
      (.switch ∉ around ∧ cases.Ordered selector) ∧
        cases.Allowed isEntryPoint (.switch :: around) :=
  allowed_iff_of_inside rfl

@[simp]
theorem allowed_empty : empty.Allowed isEntryPoint around :=
  fun _ _ hmem ↦ absurd hmem List.not_mem_nil

@[simp]
theorem allowed_next {first : Skeleton .statement} {rest : Skeleton .statements} :
    (next first rest).Allowed isEntryPoint around ↔
      first.Allowed isEntryPoint around ∧ rest.Allowed isEntryPoint around :=
  forall_mem_append_iff

@[simp]
theorem allowed_braces {label : String} {body : Skeleton .statements} :
    (braces body : Skeleton (.block label)).Allowed isEntryPoint around ↔ body.Allowed isEntryPoint around :=
  Iff.rfl

@[simp]
theorem allowed_noBranch : noBranch.Allowed isEntryPoint around :=
  fun _ _ hmem ↦ absurd hmem List.not_mem_nil

@[simp]
theorem allowed_elseIf {body : Skeleton (.block "else-if block")} {more : Skeleton .branches} :
    (elseIf body more).Allowed isEntryPoint around ↔
      body.Allowed isEntryPoint (.branch :: around) ∧ more.Allowed isEntryPoint around :=
  forall_mem_append_iff

@[simp]
theorem allowed_otherwise {body : Skeleton (.block "else block")} :
    (otherwise body).Allowed isEntryPoint around ↔ body.Allowed isEntryPoint (.branch :: around) :=
  Iff.rfl

@[simp]
theorem allowed_noCase : noCase.Allowed isEntryPoint around :=
  fun _ _ hmem ↦ absurd hmem List.not_mem_nil

@[simp]
theorem allowed_labelled {token : Token} {body : Skeleton .statements} {more : Skeleton .cases} :
    (labelled token body more).Allowed isEntryPoint around ↔
      body.Allowed isEntryPoint (.case :: around) ∧ more.Allowed isEntryPoint around :=
  forall_mem_append_iff

@[simp]
theorem allowed_default {body : Skeleton .statements} {more : Skeleton .cases} :
    (default body more).Allowed isEntryPoint around ↔
      body.Allowed isEntryPoint (.case :: around) ∧ more.Allowed isEntryPoint around :=
  forall_mem_append_iff

/-! ### The blocks of a switch -/

/-- The rules for the blocks of a switch that has had some blocks before. -/
def InOrder (selector : DataType) : Skeleton .cases → SwitchSoFar → Prop
  | noCase, _ => True
  | labelled label body more, soFar =>
    label.kind ∈ labelKinds selector ∧ label.lexeme ∉ soFar.labels ∧
      body.list.getLast? = some breaks ∧
        more.InOrder selector { soFar with labels := label.lexeme :: soFar.labels }
  | default body more, soFar =>
    soFar.hadDefault = false ∧ body.list.getLast? = some breaks ∧
      more.InOrder selector { soFar with hadDefault := true }

theorem inOrder_iff {selector : DataType} : ∀ (cases : Skeleton .cases) (soFar : SwitchSoFar),
    cases.InOrder selector soFar ↔
      (∀ block ∈ cases.blocks, block.list.getLast? = some breaks) ∧
      (∀ label ∈ cases.labels, label.kind ∈ labelKinds selector) ∧
      (cases.labels.map Token.lexeme).Nodup ∧
      (∀ label ∈ cases.labels, label.lexeme ∉ soFar.labels) ∧
      cases.defaults ≤ if soFar.hadDefault then 0 else 1
  | noCase, soFar => by simp [InOrder, blocks, labels, defaults]
  | labelled label body more, soFar => by
    rw [InOrder, inOrder_iff more]
    simp only [blocks, labels, defaults, List.forall_mem_cons, List.map_cons, List.nodup_cons]
    constructor
    · rintro ⟨hkind, hfresh, hclosed, hblocks, hkinds, hdistinct, hothers, hdefault⟩
      refine ⟨⟨hclosed, hblocks⟩, ⟨hkind, hkinds⟩, ⟨?_, hdistinct⟩,
        ⟨hfresh, fun other h hmem ↦ hothers other h (List.mem_cons_of_mem _ hmem)⟩, hdefault⟩
      intro hmem
      obtain ⟨other, hother, hsame⟩ := List.mem_map.1 hmem
      exact hothers other hother (hsame ▸ List.mem_cons_self)
    · rintro ⟨⟨hclosed, hblocks⟩, ⟨hkind, hkinds⟩, ⟨hnew, hdistinct⟩, ⟨hfresh, hothers⟩, hdefault⟩
      refine ⟨hkind, hfresh, hclosed, hblocks, hkinds, hdistinct, fun other h ↦ ?_, hdefault⟩
      exact List.not_mem_cons_of_ne_of_not_mem
        (fun hsame ↦ hnew (List.mem_map.2 ⟨other, h, hsame⟩)) (hothers other h)
  | default body more, soFar => by
    rw [InOrder, inOrder_iff more]
    simp only [blocks, labels, defaults, List.forall_mem_cons]
    constructor
    · rintro ⟨hfirst, hclosed, hblocks, hkinds, hdistinct, hothers, hdefault⟩
      refine ⟨⟨hclosed, hblocks⟩, hkinds, hdistinct, hothers, ?_⟩
      simpa [hfirst] using hdefault
    · rintro ⟨⟨hclosed, hblocks⟩, hkinds, hdistinct, hothers, hdefault⟩
      cases hhad : soFar.hadDefault with
      | true => simp [hhad] at hdefault
      | false => exact ⟨rfl, hclosed, hblocks, hkinds, hdistinct, hothers, by simpa [hhad] using hdefault⟩

theorem ordered_iff {selector : DataType} {cases : Skeleton .cases} :
    cases.Ordered selector ↔ cases.InOrder selector ⟨[], false⟩ := by
  rw [inOrder_iff]
  constructor
  · exact fun h ↦ ⟨h.closed, h.kinds, h.distinct, by simp, h.default⟩
  · exact fun ⟨hclosed, hkinds, hdistinct, _, hdefault⟩ ↦ ⟨hclosed, hkinds, hdistinct, hdefault⟩

/-! ### Sequences -/

/-- How a statement ends. -/
def ending : Skeleton .statement → Ending
  | breaks => .jumpOut
  | _ => .other

/-- How the last statement of a sequence ends, or else what came before. -/
def endingAfter : Skeleton .statements → Option Ending → Option Ending
  | empty, last => last
  | next first rest, _ => rest.endingAfter (some first.ending)

theorem ending_eq_jumpOut_iff {x : Skeleton .statement} : x.ending = .jumpOut ↔ x = breaks := by
  cases x <;> simp [ending]

theorem endingAfter_eq : ∀ (body : Skeleton .statements) (last : Option Ending),
    body.endingAfter last = (body.list.getLast?.map ending).or last
  | empty, last => by simp [endingAfter, list]
  | next first rest, last => by
    rw [endingAfter, endingAfter_eq rest, list]
    cases hrest : rest.list with
    | nil => rfl
    | cons y ys =>
      obtain ⟨z, hz⟩ : ∃ z, (y :: ys).getLast? = some z := ⟨_, List.getLast?_eq_some_getLast (by simp)⟩
      rw [List.getLast?_cons_cons, hz]
      rfl

/-- A block ends with a jump out if that is its last statement. -/
theorem endingAfter_eq_jumpOut_iff {body : Skeleton .statements} :
    body.endingAfter none = some .jumpOut ↔ body.list.getLast? = some breaks := by
  rw [endingAfter_eq, Option.or_none, Option.map_eq_some_iff]
  simp only [ending_eq_jumpOut_iff, exists_eq_right]

/-- Where statements are enclosed by something, none of them ends the program. -/
theorem ends_not_mem_list {a : Around} : ∀ {body : Skeleton .statements},
    body.Allowed isEntryPoint (a :: around) → .ends ∉ body.list
  | .empty, _ => by simp [list]
  | .next first rest, h => by
    rw [allowed_next] at h
    rw [list, List.mem_cons, not_or]
    refine ⟨?_, ends_not_mem_list h.2⟩
    rintro rfl
    have := h.1 (a :: around) ends (by simp [inside])
    cases this.2

theorem ends_not_mem_dropLast {a : Around} {body : Skeleton .statements} :
    (body.Allowed isEntryPoint (a :: around) ∧ .ends ∉ body.list.dropLast) ↔
      body.Allowed isEntryPoint (a :: around) :=
  and_iff_left_of_imp fun h hmem ↦ ends_not_mem_list h ((List.dropLast_sublist _).subset hmem)

/-- The rules for a sequence are those for its first statement and those for the rest. -/
theorem allowed_next_iff {P : Prop} {first : Skeleton .statement} {rest : Skeleton .statements}
    (hlast : around = [] → (P ↔ rest = .empty)) :
    ((first.Allowed isEntryPoint around ∧ (first = .ends → P)) ∧
        rest.Allowed isEntryPoint around ∧ .ends ∉ rest.list.dropLast) ↔
      (next first rest).Allowed isEntryPoint around ∧ .ends ∉ (next first rest).list.dropLast := by
  rw [allowed_next]
  have hempty : rest.list = [] ↔ rest = .empty := by
    cases rest with
    | empty => exact iff_of_true (by simp [list]) rfl
    | next => exact iff_of_false (by simp [list]) fun h ↦ by cases h
  have hends (h : ends.Allowed isEntryPoint around) : around = [] :=
    (h around .ends (by simp [inside])).2
  constructor
  · rintro ⟨⟨hfirst, hfinal⟩, hrest, hno⟩
    refine ⟨⟨hfirst, hrest⟩, ?_⟩
    rw [list]
    by_cases hnil : rest.list = []
    · simp [hnil]
    · rw [List.dropLast_cons_of_ne_nil hnil, List.mem_cons, not_or]
      refine ⟨?_, hno⟩
      rintro rfl
      exact hnil (hempty.2 ((hlast (hends hfirst)).1 (hfinal rfl)))
  · rintro ⟨⟨hfirst, hrest⟩, hno⟩
    rw [list] at hno
    by_cases hnil : rest.list = []
    · refine ⟨⟨hfirst, ?_⟩, hrest, by simp [hnil]⟩
      rintro rfl
      exact (hlast (hends hfirst)).2 (hempty.1 hnil)
    · rw [List.dropLast_cons_of_ne_nil hnil, List.mem_cons, not_or] at hno
      exact ⟨⟨hfirst, fun h ↦ absurd h.symm hno.1⟩, hrest, hno.2⟩

/-- For a whole body, which nothing encloses, the rules are those stated. -/
theorem legal_iff {body : Skeleton .statements} :
    body.Legal isEntryPoint ↔ body.Allowed isEntryPoint [] ∧ .ends ∉ body.list.dropLast := by
  constructor
  · refine fun h ↦ ⟨fun around x hx ↦ ?_, h.last⟩
    cases x with
    | breaks => exact h.breaks around hx
    | continues => exact h.continues around hx
    | ends => exact h.ends around hx
    | switch selector cases => exact ⟨h.nested around _ _ hx, h.ordered around _ _ hx⟩
    | _ => trivial
  · rintro ⟨hallowed, hlast⟩
    exact
      { breaks := fun around hx ↦ hallowed around breaks hx
        continues := fun around hx ↦ hallowed around continues hx
        nested := fun around selector cases hx ↦ (hallowed around (switch selector cases) hx).1
        ordered := fun around selector cases hx ↦ (hallowed around (switch selector cases) hx).2
        ends := fun around hx ↦ hallowed around ends hx
        last := hlast }

end

end Skeleton

end FrontEnd
