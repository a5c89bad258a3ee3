import TapeMachine.Proofs.Engine.Endless
import TapeMachine.Proofs.Table.Places
import Mathlib.Data.List.Induction
import Mathlib.Data.List.Nodup
/-!
# Rules selected from a log

Which transition a table finds can be told from the transitions that were appended, without the
table: its place is that of the first one with the same state and symbol, and it is the last of
these (`lookup_edited`).
-/
namespace TapeMachine

namespace Edit

def appended? : Edit → Option Transition
  | insert _ => none
  | append t => some t

/-- The transitions that changes append, in their order. -/
def log (edits : List Edit) : List Transition := edits.filterMap appended?

theorem log_concat_insert (edits : List Edit) (name : Name) :
    log (edits ++ [.insert name]) = log edits := by
  simp [log, appended?]

theorem log_concat_append (edits : List Edit) (t : Transition) :
    log (edits ++ [.append t]) = log edits ++ [t] := by
  simp [log, appended?]

end Edit

def Transition.serves (name : Name) (cell : Char) (t : Transition) : Bool :=
  t.state == name && t.accepts cell

/-- Of the keys that serve a name and a cell, the one that was appended first; of the transitions
appended under it, the last. -/
def select? (name : Name) (cell : Char) (log : List Transition) : Option Transition :=
  (log.find? (·.serves name cell)).bind fun first => log.reverse.find? (·.sameRule first)

theorem isSome_select? (name : Name) (cell : Char) (log : List Transition) :
    (select? name cell log).isSome = log.any (·.serves name cell) := by
  rw [← List.isSome_find?, select?]
  cases hfirst : log.find? (·.serves name cell) with
  | none => rfl
  | some first =>
    have hmem : first ∈ log.reverse := List.mem_reverse.mpr (List.mem_of_find?_eq_some hfirst)
    have hsame : first.sameRule first = true := Transition.sameRule_iff.mpr ⟨rfl, rfl⟩
    simpa using ⟨first, List.mem_reverse.mp hmem, hsame⟩

namespace Table

theorem edited_concat (edits : List Edit) (edit : Edit) :
    edited (edits ++ [edit]) = edit.apply (edited edits) := by
  simp [edited]

theorem consistent_edited (edits : List Edit) : (edited edits).Consistent :=
  (Placed.keeps_empty.edited consistent_empty edits).1

theorem reads_edited (edits : List Edit) (name : Name) :
    ((edited edits).rules name).map (·.read) =
      Roster.enterAll [] (((Edit.log edits).filter (·.state == name)).map (·.read)) := by
  induction edits using List.reverseRecOn with
  | nil => rfl
  | append_singleton edits edit ih =>
    rw [edited_concat]
    cases edit with
    | insert other => rw [Edit.apply, rules_insert, Edit.log_concat_insert, ih]
    | append t =>
      rw [Edit.apply, rules_append, Edit.log_concat_append, List.filter_append, List.map_append]
      by_cases hname : name = t.state
      · have howned : ∀ u ∈ (edited edits).rules name, u.state = t.state := by
          intro u hu
          rw [(consistent_edited edits).state_of_mem_rules hu, hname]
        rw [if_pos hname, State.reads_place howned, ih]
        simp [Roster.enterAll, hname]
      · rw [if_neg hname, ih]
        simp [Ne.symm hname]

theorem last_of_mem_rules_edited (edits : List Edit) {name : Name} {t : Transition}
    (ht : t ∈ (edited edits).rules name) :
    (Edit.log edits).reverse.find? (·.sameRule t) = some t := by
  induction edits using List.reverseRecOn with
  | nil => cases ht
  | append_singleton edits edit ih =>
    have hreads := (consistent_edited (edits ++ [edit])).reads_rules name
    have hstate := (consistent_edited (edits ++ [edit])).state_of_mem_rules ht
    rw [edited_concat] at ht hreads
    cases edit with
    | insert other =>
      rw [Edit.apply, rules_insert] at ht
      rw [Edit.log_concat_insert, ih ht]
    | append u =>
      rw [Edit.apply, rules_append] at ht hreads
      rw [Edit.log_concat_append, List.reverse_concat, List.find?_cons]
      by_cases hname : name = u.state
      · rw [if_pos hname] at ht hreads
        by_cases hread : u.read = t.read
        -- No other rule of the name reads the symbol that was just appended.
        · have hu : u ∈ State.place u ((edited edits).rules name) := State.mem_place_self u _
          have hsame : u = t := List.inj_on_of_nodup_map hreads hu ht hread
          rw [hsame, Transition.sameRule_iff.mpr ⟨rfl, rfl⟩]
        · have hother : u.sameRule t = false := by
            rw [Bool.eq_false_iff, ne_eq, Transition.sameRule_iff]
            exact fun hrule => hread hrule.2
          rw [hother]
          rcases State.mem_place ht with hsame | ht
          · exact absurd (congrArg Transition.read hsame).symm hread
          · exact ih ht
      · have hother : u.sameRule t = false := by
          rw [Bool.eq_false_iff, ne_eq, Transition.sameRule_iff, hstate]
          exact fun hrule => hname hrule.1.symm
        rw [if_neg hname] at ht
        rw [hother]
        exact ih ht

/-- The rule that is found has the symbol of the key that came first, and is the last under it. -/
theorem find?_rules_edited (edits : List Edit) (name : Name) (cell : Char) :
    ((edited edits).rules name).find? (·.accepts cell) = select? name cell (Edit.log edits) := by
  have hreads : (((edited edits).rules name).find? (·.accepts cell)).map (·.read) =
      ((Edit.log edits).find? (·.serves name cell)).map (·.read) := by
    have hserves : ∀ t : Transition,
        decide ((t.state == name) = true ∧ t.read.accepts cell = true) = t.serves name cell := by
      intro t
      rw [Bool.decide_and, Bool.decide_eq_true, Bool.decide_eq_true]
      rfl
    have hfind := congrArg (List.find? (·.accepts cell)) (reads_edited edits name)
    rw [Roster.find?_enterAll, List.nil_append, List.find?_map, List.find?_map,
      List.find?_filter] at hfind
    simp only [Function.comp_def, hserves] at hfind
    exact hfind
  rw [select?]
  cases ht : ((edited edits).rules name).find? (·.accepts cell) with
  | none =>
    rw [ht, Option.map_none, eq_comm, Option.map_eq_none_iff] at hreads
    rw [hreads, Option.bind_none]
  | some t =>
    rw [ht, Option.map_some, eq_comm, Option.map_eq_some_iff] at hreads
    obtain ⟨first, hfirst, hread⟩ := hreads
    have hmem := List.mem_of_find?_eq_some ht
    have hstate : first.state = t.state := by
      have hserves := List.find?_some hfirst
      simp only [Transition.serves, Bool.and_eq_true, beq_iff_eq] at hserves
      rw [(consistent_edited edits).state_of_mem_rules hmem, hserves.1]
    have hrule : (fun u : Transition => u.sameRule first) = fun u => u.sameRule t := by
      funext u
      simp only [Transition.sameRule, hstate, hread]
    rw [hfirst, Option.bind_some, hrule, last_of_mem_rules_edited edits hmem]

theorem lookup_edited_eq_or (edits : List Edit) (name : Name) (cell : Char) :
    (edited edits).lookup name cell =
      (select? name cell (Edit.log edits)).or (select? Name.anonymous cell (Edit.log edits)) := by
  rw [lookup_eq_find?, List.find?_append, find?_rules_edited, find?_rules_edited]

/--
What is found after any changes is what their log selects for the name or, if nothing was appended
that serves it, for the anonymous state. A step is refused if and only if nothing was appended, for
the state of the machine or the anonymous one, that accepts what is under the head.
-/
theorem lookup_edited (edits : List Edit) (name : Name) (cell : Char) :
    let log := Edit.log edits
    (edited edits).lookup name cell =
      (if log.any (·.serves name cell) then select? name cell log
      else if name = Name.anonymous then none
      else select? Name.anonymous cell log) ∧
    (∀ x, (select? x cell log).isSome = log.any (·.serves x cell)) ∧
    ∀ m : Machine, m.program.table = edited edits → m.state = name → m.reading = cell →
      (m.step.1 = .refused name cell ↔
        ∀ t ∈ log, t.state = name ∨ t.state = Name.anonymous → t.accepts cell = false) := by
  intro log
  have hsome : ∀ x, (select? x cell log).isSome = log.any (·.serves x cell) :=
    fun x => isSome_select? x cell log
  have hlookup : (edited edits).lookup name cell =
      (select? name cell log).or (select? Name.anonymous cell log) :=
    lookup_edited_eq_or edits name cell
  refine ⟨?_, hsome, ?_⟩
  · rw [hlookup, ← hsome]
    cases hown : select? name cell log with
    | some t => rfl
    | none =>
      by_cases hname : name = Name.anonymous
      · rw [← hname, hown]
        simp [hname]
      · simp [hname]
  · intro m htable hstate hcell
    have hnone : (edited edits).lookup name cell = none ↔
        ∀ t ∈ log, t.state = name ∨ t.state = Name.anonymous → t.accepts cell = false := by
      rw [hlookup, Option.or_eq_none_iff, ← Option.not_isSome_iff_eq_none,
        ← Option.not_isSome_iff_eq_none, hsome, hsome]
      simp only [List.any_eq_true, not_exists, not_and, Transition.serves, Bool.and_eq_true,
        beq_iff_eq, Bool.not_eq_true]
      constructor
      · rintro ⟨hown, hanonymous⟩ t ht (hname | hname)
        · exact hown t ht hname
        · exact hanonymous t ht hname
      · intro h
        exact ⟨fun t ht hname => h t ht (.inl hname), fun t ht hname => h t ht (.inr hname)⟩
    have hnext : m.next? = (edited edits).lookup name cell := by
      rw [Machine.next?, htable, hstate, hcell]
    rw [← hnone, ← hnext]
    cases hn : m.next? with
    | none => simp [Machine.step_of_none hn, hstate, hcell]
    | some t => simp [Machine.step_of_some hn]

/-- A rule that is given again after a wildcard, a rule behind the wildcard, and an anonymous one. -/
def revised : List Edit :=
  let rule (name : Name) (read : Symbol) (target : Char) : Edit :=
    .append ⟨name, read, [target], .any, .stay⟩
  [rule ['q'] (.char '0') 'a', rule ['q'] .any 'w', .insert ['z'], rule ['q'] (.char '0') 'b',
    rule ['q'] (.char '1') 'c', rule Name.anonymous (.char '1') 'h']

/-- The rule given again keeps its place before the wildcard, the one behind it is never found, and
a name that nothing was appended for takes the anonymous rule or none. -/
theorem lookup_edited_revised :
    (edited revised).lookup ['q'] '0' = some ⟨['q'], .char '0', ['b'], .any, .stay⟩ ∧
      (edited revised).lookup ['q'] '1' = some ⟨['q'], .any, ['w'], .any, .stay⟩ ∧
      (edited revised).lookup ['x'] '1' = some ⟨Name.anonymous, .char '1', ['h'], .any, .stay⟩ ∧
      ∃ m : Machine, m.program.table = edited revised ∧ m.state = ['z'] ∧ m.reading = '0' ∧
        m.step.1 = .refused ['z'] '0' := by
  obtain ⟨hagain, -, -⟩ := lookup_edited revised ['q'] '0'
  obtain ⟨hbehind, -, -⟩ := lookup_edited revised ['q'] '1'
  obtain ⟨hother, -, -⟩ := lookup_edited revised ['x'] '1'
  obtain ⟨-, -, hstep⟩ := lookup_edited revised ['z'] '0'
  let m : Machine := Machine.ofProgram ⟨edited revised, ['z'], [Name.halt], ['0'], Tape.ofList ['0']⟩
  refine ⟨hagain.trans (by decide), hbehind.trans (by decide), hother.trans (by decide), m, rfl, rfl,
    rfl, ?_⟩
  exact (hstep m rfl rfl rfl).mpr (by decide)

end Table

end TapeMachine
