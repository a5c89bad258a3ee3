import TapeMachine.Proofs.Language.Directives
import TapeMachine.Proofs.Language.Reading
/-!
# The directives of a description

The history of a description lists the directives that were applied, in their order, with their
fields. Apart from them only the beginning of a block changes the draft, and only its table.
-/
namespace TapeMachine

/-- A directive that was applied, with its fields. -/
structure Application where
  directive : Directive
  fields : List (List Char)

variable {μ : Type}

namespace Scan

def application? (c : Char) (s : Scan μ) : Option Application :=
  match s.scopes.top with
  | .directive d =>
    if c = ';' ∧ s.item.spoilt = false ∧
        (s.draft.apply s.scopes.path d s.item.start s.item.allFields).isOk = true then
      some ⟨d, s.item.allFields⟩
    else none
  | _ => none

def history : List (μ × Char) → Scan μ → List Application
  | [], _ => []
  | (place, c) :: rest, s => (s.application? c).toList ++ history rest (s.read place c)

private theorem application?_of_ne {c : Char} (hc : c ≠ ';') (s : Scan μ) :
    s.application? c = none := by
  rw [application?]
  split
  next => exact if_neg fun h => hc h.1
  next => rfl

private theorem application?_of_spoilt {s : Scan μ} (h : s.item.spoilt = true) (c : Char) :
    s.application? c = none := by
  rw [application?]
  split
  next => exact if_neg fun hsound => Bool.noConfusion (h.symm.trans hsound.2.1)
  next => rfl

private theorem application?_of_top {s : Scan μ} (h : ∀ d, s.scopes.top ≠ .directive d)
    (c : Char) : s.application? c = none := by
  rw [application?]
  split
  next d hd => exact absurd hd (h d)
  next => rfl

private theorem ne_of_ends {scope : Scope} {c : Char} (h : scope.ends c = false) : c ≠ ';' := by
  rintro rfl
  cases h

/-- A character applies the directive of the history, or it changes nothing but the table. -/
theorem Reads.applied {place : μ} {c : Char} {s t : Scan μ} (hr : Reads place c s t) :
    (∃ a path start, s.application? c = some a ∧
      Draft.Applies path start a.fields s.draft a.directive t.draft) ∨
    (s.application? c = none ∧ ∃ table, t.draft = { s.draft with table }) := by
  have hsame : ∃ table, s.draft = { s.draft with table } := ⟨s.draft.table, rfl⟩
  have hblock : s.scopes.top = .block → s.application? c = none := by
    intro htop
    apply application?_of_top
    intro d hd
    rw [htop] at hd
    cases hd
  have hname : ∀ {frame outer}, s.scopes = frame :: outer → frame.scope = .blockName →
      s.application? c = none := by
    intro frame outer hs hframe
    apply application?_of_top
    intro d hd
    rw [top_cons hs, hframe] at hd
    cases hd
  cases hr with
  | passes h =>
    refine .inr ⟨?_, hsame⟩
    rcases h with hlayout | htop | ⟨-, hends⟩
    · apply application?_of_ne
      rintro rfl
      cases hlayout
    · apply application?_of_top
      intro d hd
      rw [htop] at hd
      cases hd
    · exact application?_of_ne (ne_of_ends hends) s
  | opens scope htop => exact .inr ⟨hblock htop, hsame⟩
  | strays f htop => exact .inr ⟨hblock htop, hsame⟩
  | closes frame outer hs hframe =>
    refine .inr ⟨application?_of_top ?_ c, hsame⟩
    intro d hd
    rw [top_cons hs] at hd
    rw [hd] at hframe
    cases hframe
  | collects _ hends => exact .inr ⟨application?_of_ne (ne_of_ends hends) s, hsame⟩
  | separates _ hends => exact .inr ⟨application?_of_ne (ne_of_ends hends) s, hsame⟩
  | rejects _ _ hends => exact .inr ⟨application?_of_ne (ne_of_ends hends) s, hsame⟩
  | discards _ _ _ _ _ hspoilt => exact .inr ⟨application?_of_spoilt hspoilt c, hsame⟩
  | commits d frame outer hs hframe hc hsound =>
    have hpath : s.scopes.path = Scopes.path outer := by
      rw [hs]
      exact Scopes.path_cons_of_ne outer (by rw [hframe]; exact Scope.noConfusion)
    rw [draft_settle]
    cases happly : s.draft.apply outer.path d s.item.start s.item.allFields with
    | error r =>
      refine .inr ⟨?_, hsame⟩
      simp only [application?, top_cons hs, hframe, hpath, happly]
      exact if_neg fun h => Bool.noConfusion h.2.2
    | ok result =>
      refine .inl ⟨⟨d, s.item.allFields⟩, outer.path, s.item.start, ?_,
        Draft.applies_of_apply happly⟩
      simp only [application?, top_cons hs, hframe, hpath, happly]
      exact if_pos ⟨hc, hsound, rfl⟩
  | abandons frame outer hs hframe => exact .inr ⟨hname hs hframe, hsame⟩
  | names frame outer hs hframe =>
    refine .inr ⟨hname hs hframe, ?_⟩
    rw [draft_declareBlock]
    exact ⟨_, rfl⟩
  | numbers frame outer hs hframe => exact .inr ⟨hname hs hframe, hsame⟩
  | blanks frame outer hs hframe => exact .inr ⟨hname hs hframe, hsame⟩
  | drops _ _ _ _ hc =>
    refine .inr ⟨application?_of_ne ?_ s, hsame⟩
    rw [hc]
    decide
  | interrupts _ _ _ _ hc =>
    refine .inr ⟨application?_of_ne ?_ s, hsame⟩
    rw [hc]
    decide

end Scan

def sourceHistory (source : List Char) : List Application :=
  (Scan.begin Mark.origin).history (Mark.origin.locate source)

end TapeMachine
