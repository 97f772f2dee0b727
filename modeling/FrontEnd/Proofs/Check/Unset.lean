import FrontEnd.Proofs.Check.Climbing
import FrontEnd.Proofs.Check.Course

/-!
# Reads of what has no value

A check warns where it reads a variable or a member that has no value yet.  What it reads is told by
the moments of its run, for a name that is read is looked up: an operand at its name, a target behind
it.  `Moment.ReadsUnset` is the lookup of a name that is an operand, or the target of a compound
assignment, and has no value then; it says which token has to be passed for the read to be over and what
a warning of it says.  A name that is counted is not among them.

An `Account` matches the warnings of a part of a run with the reads of what has no value: each warning
is of one of them, no place is warned of twice, and each read that the run got past is warned of.  Two
parts that follow one another account for their warnings together, since each of them only warns of
what it passes itself (`Course.accounted`).
-/

namespace FrontEnd

open Check

/-! ### Reads -/

/-- Whether a token of the kind has the name behind it for itself: another name, which nothing that is
read may follow, or a sign of counting. -/
def Kind.attaches : Kind → Bool
  | .identifier | .increment | .decrement => true
  | _ => false

/-- Nothing stands in front of an index that would have the name there for itself. -/
def Context.Detached (c : Context) (i : Nat) : Prop :=
  ∀ j, i = j + 1 → (c.kindAt j).attaches = false

/-- The name at an index is looked up at a moment, and stands for a symbol then. -/
structure Moment.Finds (m : Moment) (i : Nat) (symbol : Symbol) : Prop where
  kind : m.context.kindAt i = .identifier
  detached : m.context.Detached i
  looked : m.lookup = some (m.context.tokenAt i).lexeme
  found : m.state.arena.lookup m.context.scope (m.context.tokenAt i).lexeme = some symbol

/-- The name at an index is that of a variable that has no value when it is looked up. -/
structure Moment.UnsetName (m : Moment) (i : Nat) (symbol : Symbol) : Prop
    extends m.Finds i symbol where
  value : symbol.isValue
  single : symbol.isArray = false
  unset : symbol.initialized = false

/-- The name at an index is that of an instance, with a member behind it that has no value when the name
is looked up. -/
structure Moment.UnsetMember (m : Moment) (i : Nat) (symbol : Symbol) (member : String) : Prop
    extends m.Finds i symbol where
  dot : m.context.kindAt (i + 1) = .dot
  memberKind : m.context.kindAt (i + 2) = .identifier
  named : (m.context.tokenAt (i + 2)).lexeme = member
  unset : ∃ structName given members, symbol.kind = .structInstance structName given ∧
    (m.state.arena.lookup m.context.scope structName).map Symbol.kind = some (.struct members) ∧
      (∃ declared ∈ members, declared.name = member) ∧ given.contains member = false

/-- What has no value is read: the name that starts at an index is an operand, with its member if it has
one, or the target of a compound assignment.  The read is over once the token at the other index is
passed: the last one of an operand, or the first one of the value that is assigned.  The warning is what
the check says of it: of a compound assignment it names the instance and not the member. -/
inductive Moment.ReadsUnset (m : Moment) (i : Nat) : (stop : Nat) → Warning → Prop
  | name {symbol : Symbol} : m.UnsetName i symbol → m.state.position = i →
    (m.context.kindAt (i + 1)).extendsName = false →
      ReadsUnset m i i ⟨symbol.name, (m.context.tokenAt i).position⟩
  | member {symbol : Symbol} {member : String} : m.UnsetMember i symbol member →
    m.state.position = i →
      ReadsUnset m i (i + 2) ⟨symbol.name ++ "." ++ member, (m.context.tokenAt i).position⟩
  | compound {symbol : Symbol} : m.UnsetName i symbol → m.state.position = i + 1 →
    (Operator.ofCompound? (m.context.kindAt (i + 1))).isSome →
      ReadsUnset m i (i + 2) ⟨symbol.name, (m.context.tokenAt i).position⟩
  | compoundMember {symbol : Symbol} {member : String} : m.UnsetMember i symbol member →
    m.state.position = i + 1 → (Operator.ofCompound? (m.context.kindAt (i + 3))).isSome →
      ReadsUnset m i (i + 4) ⟨symbol.name, (m.context.tokenAt i).position⟩

/-- The name at an index is that of an array without a value, an element of which is a target. -/
structure Moment.UnsetArray (m : Moment) (i : Nat) (w : Warning) : Prop where
  array : ∃ symbol, m.Finds i symbol ∧ symbol.isArray ∧ symbol.initialized = false ∧
    w = ⟨symbol.name, (m.context.tokenAt i).position⟩
  behind : m.state.position = i + 1
  bracket : m.context.kindAt (i + 1) = .leftBracket

/-- A moment is the reason for a warning of the name at an index. -/
def Moment.Warrants (m : Moment) (i : Nat) (w : Warning) : Prop :=
  (∃ stop, m.ReadsUnset i stop w) ∨ m.UnsetArray i w

section

variable {m : Moment} {c : Context} {s t u : State} {i j stop : Nat} {w : Warning}

theorem detached_zero (c : Context) : c.Detached 0 :=
  fun _ h ↦ absurd h (Nat.zero_ne_add_one _)

theorem detached_succ (h : (c.kindAt i).attaches = false) : c.Detached (i + 1) :=
  fun _ hj ↦ Nat.succ.inj hj ▸ h

/-- Behind a token of a kind. -/
theorem detached_after {k : Kind} (hi : c.kindAt i = k) (heof : k ≠ .eof) (hk : k.attaches = false) :
    c.Detached (c.after i) := by
  rw [Context.after_of_kindAt hi heof]
  exact detached_succ (hi ▸ hk)

theorem Context.Detached.not_behind (h : c.Detached (i + 1)) : c.kindAt i ≠ .identifier := by
  intro hi
  have hfalse := h i rfl
  rw [hi] at hfalse
  cases hfalse

namespace Moment.ReadsUnset

theorem lookup_ne_none (h : m.ReadsUnset i stop w) : m.lookup ≠ none := by
  have hsome {name : String} (h : m.lookup = some name) : m.lookup ≠ none := by simp [h]
  cases h with
  | name h => exact hsome h.looked
  | member h => exact hsome h.looked
  | compound h => exact hsome h.looked
  | compoundMember h => exact hsome h.looked

theorem detached (h : m.ReadsUnset i stop w) : m.context.Detached i := by
  cases h with
  | name h => exact h.detached
  | member h => exact h.detached
  | compound h => exact h.detached
  | compoundMember h => exact h.detached

/-- A name is looked up before its read is over. -/
theorem position_le (h : m.ReadsUnset i stop w) : m.state.position ≤ stop := by
  cases h with
  | name _ h => omega
  | member _ h => omega
  | compound _ h => omega
  | compoundMember _ h => omega

/-- What is looked up where a name stands is read as an operand. -/
theorem of_name (h : m.ReadsUnset i stop w) (hname : m.context.kindAt m.state.position = .identifier) :
    i = m.state.position ∧ (m.context.kindAt (i + 1) = .dot ∨
      (m.context.kindAt (i + 1)).extendsName = false) := by
  cases h with
  | name _ h hends => exact ⟨h.symm, .inr hends⟩
  | member hunset h => exact ⟨h.symm, .inl hunset.dot⟩
  | compound _ h hsign => rw [h] at hname; rw [hname] at hsign; cases hsign
  | compoundMember hunset h => rw [h] at hname; cases hname.symm.trans hunset.dot

/-- Where a name stands, one thing is read at most. -/
theorem unique (h : m.ReadsUnset i stop w) {j stop' : Nat} {w' : Warning} (h' : m.ReadsUnset j stop' w')
    (hname : m.context.kindAt m.state.position = .identifier) : j = i ∧ w' = w := by
  obtain ⟨rfl, -⟩ := h.of_name hname
  obtain ⟨rfl, -⟩ := h'.of_name hname
  have hnot : m.state.position ≠ m.state.position + 1 := Nat.ne_add_one _
  have hsame {symbol other : Symbol} (hfinds : m.Finds m.state.position symbol)
      (hfinds' : m.Finds m.state.position other) : other = symbol :=
    Option.some.inj (hfinds'.found.symm.trans hfinds.found)
  cases h with
  | name hunset _ hends =>
    cases h' with
    | name hunset' => exact ⟨rfl, by rw [hsame hunset.toFinds hunset'.toFinds]⟩
    | member hunset' => rw [hunset'.dot] at hends; cases hends
    | compound _ hat => exact absurd hat hnot
    | compoundMember _ hat => exact absurd hat hnot
  | member hunset =>
    cases h' with
    | name _ _ hends => rw [hunset.dot] at hends; cases hends
    | member hunset' =>
      rw [hsame hunset.toFinds hunset'.toFinds, ← hunset.named, ← hunset'.named]
      exact ⟨rfl, rfl⟩
    | compound _ hat => exact absurd hat hnot
    | compoundMember _ hat => exact absurd hat hnot
  | compound _ hat => exact absurd hat hnot
  | compoundMember _ hat => exact absurd hat hnot

/-- What is looked up behind a name is read as a target. -/
theorem of_behind (h : m.ReadsUnset i stop w) (hposition : m.state.position = j + 1)
    (hname : m.context.kindAt j = .identifier) : i = j ∧
      ((Operator.ofCompound? (m.context.kindAt (j + 1))).isSome ∨ m.context.kindAt (j + 1) = .dot) := by
  cases h with
  | name hunset h _ =>
    exact absurd hname (Context.Detached.not_behind (hposition ▸ h ▸ hunset.detached))
  | member hunset h =>
    exact absurd hname (Context.Detached.not_behind (hposition ▸ h ▸ hunset.detached))
  | compound hunset h hsign =>
    obtain rfl : i = j := by omega
    exact ⟨rfl, .inl hsign⟩
  | compoundMember hunset h hsign =>
    obtain rfl : i = j := by omega
    exact ⟨rfl, .inr hunset.dot⟩

end Moment.ReadsUnset

/-! ### Accounts -/

/-- How a part of a run accounts for its warnings, apart from those given first: by the index of what is
read. -/
structure Account (first : List Warning) (s : State) (past : List Moment) (t : State) (ended : Prop)
    (reads : List (Nat × Warning)) : Prop where
  le : s.position ≤ t.position
  warnings : t.warnings.toList = s.warnings.toList ++ (first ++ reads.map Prod.snd)
  within : ∀ r ∈ reads, s.position ≤ r.1 ∧ r.1 < t.position
  nodup : (reads.map Prod.fst).Nodup
  warranted : ∀ r ∈ reads, ∃ m ∈ past, m.Warrants r.1 r.2
  answered : ∀ m ∈ past, ∀ {i stop w}, m.ReadsUnset i stop w → ended ∨ stop < t.position →
    (i, w) ∈ reads

/-- The state once a warning was given. -/
def State.warned (s : State) (w : Warning) : State :=
  { s with warnings := s.warnings.push w }

/-- Parts of runs that account for their warnings. -/
def Course.accounted : Course :=
  fun s past t ended ↦ ∃ reads, Account [] s past t ended reads

namespace Account

variable {first : List Warning} {past later : List Moment} {ended : Prop}
  {reads reads' : List (Nat × Warning)}

theorem nil (s : State) (ended : Prop) : Account [] s [] s ended [] where
  le := Nat.le_refl _
  warnings := by simp
  within r hr := absurd hr List.not_mem_nil
  nodup := .nil
  warranted r hr := absurd hr List.not_mem_nil
  answered m hm := absurd hm List.not_mem_nil

theorem append (h : Account first s past t True reads) (h' : Account [] t later u ended reads') :
    Account first s (later ++ past) u ended (reads ++ reads') where
  le := Nat.le_trans h.le h'.le
  warnings := by rw [h'.warnings, h.warnings]; simp
  within r hr := by
    rcases List.mem_append.1 hr with hr | hr
    · exact ⟨(h.within r hr).1, Nat.lt_of_lt_of_le (h.within r hr).2 h'.le⟩
    · exact ⟨Nat.le_trans h.le (h'.within r hr).1, (h'.within r hr).2⟩
  nodup := by
    rw [List.map_append]
    refine h.nodup.append h'.nodup fun n hn hn' ↦ ?_
    obtain ⟨r, hr, rfl⟩ := List.mem_map.1 hn
    obtain ⟨r', hr', hsame⟩ := List.mem_map.1 hn'
    have hlt := (h.within r hr).2
    have hle := (h'.within r' hr').1
    omega
  warranted r hr := by
    rcases List.mem_append.1 hr with hr | hr
    · obtain ⟨m, hm, hwarrants⟩ := h.warranted r hr
      exact ⟨m, List.mem_append_right _ hm, hwarrants⟩
    · obtain ⟨m, hm, hwarrants⟩ := h'.warranted r hr
      exact ⟨m, List.mem_append_left _ hm, hwarrants⟩
  answered m hm i stop w hreads hpassed := by
    rcases List.mem_append.1 hm with hm | hm
    · exact List.mem_append_right _ (h'.answered m hm hreads hpassed)
    · exact List.mem_append_left _ (h.answered m hm hreads (.inl trivial))

/-- A change that neither goes back nor warns. -/
theorem change (c : Context) (h : Account first s past t ended reads)
    (hposition : t.position ≤ u.position) (hwarnings : u.warnings = t.warnings)
    (hstays : ended ∨ u.position = t.position) :
    Account first s (⟨c, u, none⟩ :: past) u ended reads where
  le := Nat.le_trans h.le hposition
  warnings := by rw [hwarnings, h.warnings]
  within r hr := ⟨(h.within r hr).1, Nat.lt_of_lt_of_le (h.within r hr).2 hposition⟩
  nodup := h.nodup
  warranted r hr := by
    obtain ⟨m, hm, hwarrants⟩ := h.warranted r hr
    exact ⟨m, List.mem_cons_of_mem _ hm, hwarrants⟩
  answered m hm i stop w hreads hpassed := by
    rcases List.mem_cons.1 hm with rfl | hm
    · exact absurd rfl hreads.lookup_ne_none
    · refine h.answered m hm hreads ?_
      rcases hstays with hended | hsame
      · exact .inl hended
      · exact hsame ▸ hpassed

/-- A token is passed. -/
theorem passing (c : Context) (s : State) : Account [] s [⟨c, s.movedTo (s.position + 1), none⟩]
    (s.movedTo (s.position + 1)) True [] :=
  (nil s True).change c (Nat.le_succ _) rfl (.inl trivial)

/-- A lookup comes before a part of a run that answers it. -/
theorem behindLookup (h : Account first s past t ended reads)
    (hm : ∀ {i stop w}, m.ReadsUnset i stop w → ended ∨ stop < t.position → (i, w) ∈ reads) :
    Account first s (past ++ [m]) t ended reads where
  le := h.le
  warnings := h.warnings
  within := h.within
  nodup := h.nodup
  warranted r hr := by
    obtain ⟨m, hm, hwarrants⟩ := h.warranted r hr
    exact ⟨m, List.mem_append_left _ hm, hwarrants⟩
  answered m' hm' i stop w hreads hpassed := by
    rcases List.mem_append.1 hm' with hm' | hm'
    · exact h.answered m' hm' hreads hpassed
    · obtain rfl := List.mem_singleton.1 hm'
      exact hm hreads hpassed

/-- A warning that is given first. -/
theorem warned (h : Account [] s past t True []) (c : Context) (w : Warning) (ended : Prop) :
    Account [w] s (⟨c, t.warned w, none⟩ :: past) (t.warned w) ended [] where
  le := h.le
  warnings := by simp [State.warned, h.warnings]
  within := h.within
  nodup := h.nodup
  warranted r hr := absurd hr List.not_mem_nil
  answered m hm i stop w' hreads _ := by
    rcases List.mem_cons.1 hm with rfl | hm
    · exact absurd rfl hreads.lookup_ne_none
    · exact h.answered m hm hreads (.inl trivial)

/-- Only which moments there are counts. -/
theorem of_mem (h : Account first s past t ended reads) (hmem : ∀ m, m ∈ past ↔ m ∈ later) :
    Account first s later t ended reads where
  le := h.le
  warnings := h.warnings
  within := h.within
  nodup := h.nodup
  warranted r hr := by
    obtain ⟨m, hm, hwarrants⟩ := h.warranted r hr
    exact ⟨m, (hmem m).1 hm, hwarrants⟩
  answered m hm := h.answered m ((hmem m).2 hm)

end Account

/-- A part of a run answers the lookup of the name at an index, which came before it: it accounts for its
own warnings, and first gives one of that name if it is read. -/
structure Answers (m : Moment) (i : Nat) (s : State) (past : List Moment) (t : State) (ended : Prop)
    (answer : List Warning) (reads : List (Nat × Warning)) : Prop where
  account : Account answer s past t ended reads
  single : answer.length ≤ 1
  due : ∀ w ∈ answer, m.Warrants i w
  owed : ∀ {j stop w}, m.ReadsUnset j stop w → ended ∨ stop < t.position → j = i ∧ w ∈ answer

/-- A lookup that reads nothing, or the read of which is not passed. -/
theorem Answers.of_unread {past : List Moment} {ended : Prop} {reads : List (Nat × Warning)}
    (h : Account [] s past t ended reads)
    (hm : ∀ {j stop w}, m.ReadsUnset j stop w → ¬ (ended ∨ stop < t.position)) :
    Answers m i s past t ended [] reads where
  account := h
  single := Nat.zero_le _
  due _ hw := absurd hw List.not_mem_nil
  owed hreads hend := absurd hend (hm hreads)

/-- What is read is warned of at once. -/
theorem Answers.of_read {past : List Moment} (c : Context) (h : Account [] s past t True [])
    (hread : m.ReadsUnset i stop w) (hname : m.context.kindAt m.state.position = .identifier)
    (ended : Prop) : Answers m i s (⟨c, t.warned w, none⟩ :: past) (t.warned w) ended [w] [] where
  account := h.warned c w ended
  single := Nat.le_refl _
  due := List.forall_mem_singleton.2 (.inl ⟨stop, hread⟩)
  owed hreads _ := by
    obtain ⟨rfl, rfl⟩ := hread.unique hreads hname
    exact ⟨rfl, List.mem_singleton.2 rfl⟩

/-- A part of a run that passes a name, with the lookup of it, and a part that answers the lookup. -/
theorem Answers.joined {before later : List Moment} {ended : Prop} {answer : List Warning}
    {reads reads' : List (Nat × Warning)} (h : Account [] s before t True reads)
    (h' : Answers m i t later u ended answer reads') (hfrom : s.position ≤ i) (hpassed : i < t.position)
    (hother : ∀ r ∈ reads, r.1 ≠ i) :
    Account [] s (later ++ (before ++ [m])) u ended (reads ++ (answer.map (i, ·) ++ reads')) where
  le := Nat.le_trans h.le h'.account.le
  warnings := by
    rw [h'.account.warnings, h.warnings]
    simp [Function.comp_def]
  within r hr := by
    have hle := h'.account.le
    simp only [List.mem_append, List.mem_map] at hr
    rcases hr with hr | ⟨w, -, rfl⟩ | hr
    · exact ⟨(h.within r hr).1, Nat.lt_of_lt_of_le (h.within r hr).2 hle⟩
    · exact ⟨hfrom, Nat.lt_of_lt_of_le hpassed hle⟩
    · exact ⟨Nat.le_trans h.le (h'.account.within r hr).1, (h'.account.within r hr).2⟩
  nodup := by
    -- An answer is one warning or none.
    have hanswer : ((answer.map (i, ·)).map Prod.fst).Nodup := by
      have hsingle := h'.single
      cases answer with
      | nil => exact .nil
      | cons w rest =>
        obtain rfl : rest = [] := List.length_eq_zero_iff.1 (Nat.le_zero.1 (Nat.le_of_succ_le_succ hsingle))
        exact List.nodup_singleton i
    simp only [List.map_append]
    refine h.nodup.append (hanswer.append h'.account.nodup fun n hn hn' ↦ ?_) fun n hn hn' ↦ ?_
    · obtain ⟨r, hr, rfl⟩ := List.mem_map.1 hn
      obtain ⟨w, -, rfl⟩ := List.mem_map.1 hr
      obtain ⟨r', hr', hsame⟩ := List.mem_map.1 hn'
      have hle := (h'.account.within r' hr').1
      dsimp only at hsame
      omega
    · obtain ⟨r, hr, rfl⟩ := List.mem_map.1 hn
      rcases List.mem_append.1 hn' with hn' | hn'
      · obtain ⟨r', hr', hsame⟩ := List.mem_map.1 hn'
        obtain ⟨w, -, rfl⟩ := List.mem_map.1 hr'
        exact hother r hr hsame.symm
      · obtain ⟨r', hr', hsame⟩ := List.mem_map.1 hn'
        have hlt := (h.within r hr).2
        have hle := (h'.account.within r' hr').1
        omega
  warranted r hr := by
    simp only [List.mem_append, List.mem_map] at hr
    rcases hr with hr | ⟨w, hw, rfl⟩ | hr
    · obtain ⟨m', hm, hwarrants⟩ := h.warranted r hr
      exact ⟨m', by simp [hm], hwarrants⟩
    · exact ⟨m, by simp, h'.due w hw⟩
    · obtain ⟨m', hm, hwarrants⟩ := h'.account.warranted r hr
      exact ⟨m', by simp [hm], hwarrants⟩
  answered m' hm j stop w hreads hend := by
    simp only [List.mem_append, List.mem_singleton] at hm ⊢
    rcases hm with hm | hm | rfl
    · exact .inr (.inr (h'.account.answered m' hm hreads hend))
    · exact .inl (h.answered m' hm hreads (.inl trivial))
    · obtain ⟨rfl, hw⟩ := h'.owed hreads hend
      exact .inr (.inl (List.mem_map_of_mem hw))

instance : Course.accounted.Easy where
  nil s ended := ⟨[], .nil s ended⟩
  append h h' := ⟨_, h.choose_spec.append h'.choose_spec⟩
  change c h hposition hwarnings hstays := ⟨_, h.choose_spec.change c hposition hwarnings hstays⟩

end

end FrontEnd
