import Mathlib.Data.List.Basic
import TapeMachine.Program.Serial
import TapeMachine.Proofs.Language.Anonymous
import TapeMachine.Proofs.Language.WellFormed
import TapeMachine.Proofs.Table.Places
import TapeMachine.Proofs.Text.Json
/-!
# Programs told apart by their JSON texts

Programs with the same JSON text are the same (`compile_dump_injective`). The places of the names
are not written, but they follow from the states.
-/
namespace TapeMachine

theorem Symbol.toJson_injective : Function.Injective Symbol.toJson := by
  intro a b h
  cases a <;> cases b <;> simp_all [toJson, Json.word, Json.char, Json.fields]

theorem Direction.word_injective : Function.Injective Direction.word := by
  intro a b h
  cases a <;> cases b <;> first | rfl | exact absurd h (by decide)

theorem Transition.toJson_injective : Function.Injective Transition.toJson := by
  intro a b h
  simp only [toJson, Json.fields, Json.word, List.map_cons, List.map_nil, Json.record.injEq,
    List.cons.injEq, Prod.mk.injEq, Json.text.injEq, true_and, and_true, String.toList_inj] at h
  obtain ⟨hstate, hread, htarget, hwrite, hdirection⟩ := h
  cases a
  cases b
  simp_all [Symbol.toJson_injective.eq_iff, Direction.word_injective.eq_iff]

theorem State.toJson_injective : Function.Injective State.toJson := by
  intro a b h
  simp only [toJson, Json.fields, List.map_cons, List.map_nil, Json.record.injEq,
    List.cons.injEq, Prod.mk.injEq, Json.text.injEq, Json.list.injEq, true_and, and_true] at h
  obtain ⟨hname, htransitions⟩ := h
  cases a
  cases b
  simp_all [(List.map_injective_iff.mpr Transition.toJson_injective).eq_iff]

theorem Table.toJson_injective : Function.Injective Table.toJson := by
  intro a b h
  simp only [toJson, Json.fields, List.map_cons, List.map_nil, Json.record.injEq,
    List.cons.injEq, Prod.mk.injEq, Json.list.injEq, true_and, and_true] at h
  cases a
  cases b
  simp_all [(List.map_injective_iff.mpr State.toJson_injective).eq_iff]

theorem Tape.eq_of_cells {a b : Tape} (hcells : a.cells = b.cells) (hhead : a.head = b.head) :
    a = b := by
  obtain ⟨left, cell, right⟩ := a
  obtain ⟨left', cell', right'⟩ := b
  obtain ⟨hleft, hright⟩ := List.append_inj hcells (by simpa [head] using hhead)
  obtain rfl := List.reverse_inj.mp hleft
  obtain ⟨rfl, rfl⟩ := List.cons.inj hright
  rfl

theorem Json.char_injective : Function.Injective Json.char := by
  intro a b h
  simpa [char] using h

theorem Tape.toJson_injective : Function.Injective Tape.toJson := by
  intro a b h
  simp only [toJson, Json.fields, List.map_cons, List.map_nil, Json.record.injEq,
    List.cons.injEq, Prod.mk.injEq, Json.list.injEq, Json.number.injEq, true_and, and_true] at h
  exact eq_of_cells (List.map_injective_iff.mpr Json.char_injective h.1) h.2

theorem Program.toJson_injective : Function.Injective Program.toJson := by
  intro a b h
  simp only [toJson, Json.fields, List.map_cons, List.map_nil, Json.record.injEq,
    List.cons.injEq, Prod.mk.injEq, Json.list.injEq, Json.text.injEq, true_and, and_true] at h
  obtain ⟨htable, hinitial, hhalts, halphabet, htape⟩ := h
  have htext : Function.Injective Json.text := fun _ _ => Json.text.inj
  have htable := Table.toJson_injective htable
  have hhalts := List.map_injective_iff.mpr htext hhalts
  have halphabet := List.map_injective_iff.mpr Json.char_injective halphabet
  have htape := Tape.toJson_injective htape
  cases a
  cases b
  simp_all

theorem Program.dump_injective [Json.Escaping] (hescape : Json.Escaping.Readable) :
    Function.Injective Program.dump := by
  intro a b h
  exact toJson_injective (Json.compact_injective hescape (String.ofList_injective h))

theorem Table.Grows.edits {table next : Table} (h : table.Grows next) :
    ∃ edits : List Edit, next = edits.foldl Edit.apply table := by
  cases h with
  | names names => exact ⟨names.map .insert, by rw [List.foldl_map]; rfl⟩
  | transition t => exact ⟨[.append t], rfl⟩

theorem edited_readSource (source : List Char) :
    ∃ edits, Table.edited edits = (readSource source).draft.table := by
  apply Scan.readAll_induction (P := fun s => ∃ edits, Table.edited edits = s.draft.table)
    _ (Scan.orderly_begin Mark.origin) ⟨[], rfl⟩
  rintro _ _ _ _ _ hr ⟨edits, hedits⟩
  obtain ⟨others, hothers⟩ := hr.grows.edits
  exact ⟨edits ++ others, by rw [hothers, ← hedits, Table.edited, List.foldl_append]; rfl⟩

namespace Placed

def Builds (placed : Placed) (table : Table) : Prop :=
  ∃ edits, Table.edited edits = table ∧ edited? edits = some placed

theorem Builds.keeps {placed : Placed} {table : Table} (h : placed.Builds table) :
    placed.Keeps table := by
  obtain ⟨edits, rfl, hplaced⟩ := h
  obtain ⟨-, q, hq, hkeeps⟩ := keeps_empty.edited Table.consistent_empty edits
  obtain rfl := Option.some.inj (hplaced.symm.trans hq)
  exact hkeeps

theorem builds_edited (edits : List Edit) :
    ∃ placed : Placed, placed.Builds (Table.edited edits) := by
  obtain ⟨-, q, hq, -⟩ := keeps_empty.edited Table.consistent_empty edits
  exact ⟨q, edits, rfl, hq⟩

/-- The places of a table are all that its states leave open, and they are those of the names. -/
theorem Keeps.unique {a b : Placed} {table : Table} (ha : a.Keeps table) (hb : b.Keeps table) :
    a = b := by
  obtain ⟨states, places⟩ := a
  obtain ⟨states', places'⟩ := b
  have hstates : states = states' := ha.states.trans hb.states.symm
  have hplaces : places = places' := by
    funext name
    ext i
    exact (ha.places name i).trans (hb.places name i).symm
  rw [hstates, hplaces]

end Placed

/--
A program is equal to every other one with the same JSON text, and so are the places of its names,
however the tables came about. All that is asked of the text is that JSON reads every character.
-/
theorem compile_dump_injective [Json.Escaping] (hescape : Json.Escaping.Readable)
    (source : List Char) (p q : Program)
    (hp : (compile source).program = some p) (h : p.dump = q.dump) :
    p = q ∧ (∃ a : Placed, a.Builds p.table) ∧
      ∀ a b : Placed, a.Builds p.table → b.Builds q.table → a = b := by
  obtain rfl := Program.dump_injective hescape h
  refine ⟨rfl, ?_, fun a b ha hb => ha.keeps.unique hb.keeps⟩
  obtain ⟨edits, hedits⟩ := edited_readSource source
  rw [(Scan.program?_eq_some hp).1, scanSource_eq, Scan.draft_close, ← hedits]
  exact Placed.builds_edited edits

/-- A block with a comment, and the same transition without them. -/
theorem compile_dump_injective_block :
    let _ : Json.Escaping := ⟨Json.sparing⟩
    let source := [':', 'm', '\x7b', '#', 'x', '\n', '$', 'a', ':', '*', '>', 'a', ':', '_', ':',
      'R', ';', '\x7d', '!', 'm', '.', 'a', ';']
    let other := ['*', 'm', ';', '$', 'm', '.', 'a', ':', '*', '>', 'm', '.', 'a', ':', '_', ':',
      'R', ';', '!', 'm', '.', 'a', ';']
    Json.Escaping.Readable ∧
    ∃ p q, (compile source).program = some p ∧ (compile other).program = some q ∧
      p.dump = q.dump ∧ p = q ∧ (∃ a : Placed, a.Builds p.table) ∧
      ∀ a b : Placed, a.Builds p.table → b.Builds q.table → a = b := by
  intro _ source other
  have hsource : (compile source).program.isSome = true := by decide
  have hother : (compile other).program.isSome = true := by decide
  have hsame : (compile source).program = (compile other).program := by decide +kernel
  obtain ⟨p, hp⟩ := Option.isSome_iff_exists.mp hsource
  obtain ⟨q, hq⟩ := Option.isSome_iff_exists.mp hother
  have hdump : p.dump = q.dump := by
    rw [hp, hq] at hsame
    rw [Option.some.inj hsame]
  exact ⟨Json.readable_sparing, p, q, hp, hq, hdump,
    compile_dump_injective Json.readable_sparing source p q hp hdump⟩

end TapeMachine
