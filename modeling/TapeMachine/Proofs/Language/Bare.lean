import TapeMachine.Proofs.Language.Grammar
import TapeMachine.Proofs.Language.Recovery
import TapeMachine.Proofs.Language.Reports
/-!
# Reading without layout and comments

Layout and comments change nothing but places. So a source is read as its bare text is, when places
are not looked at.
-/
namespace TapeMachine

namespace Scan

variable {μ : Type}

theorem opened?_of_layout {c : Char} (hc : isLayout c = true) : Scope.opened? c = none := by
  simp only [isLayout, Bool.or_eq_true, beq_iff_eq] at hc
  rcases hc with ((rfl | rfl) | rfl) | rfl <;> rfl

theorem ends_of_layout {c : Char} (hc : isLayout c = true) (scope : Scope) :
    scope.ends c = false := by
  simp only [isLayout, Bool.or_eq_true, beq_iff_eq] at hc
  rcases hc with ((rfl | rfl) | rfl) | rfl <;> simp [Scope.ends]

theorem next_of_collects {scope : Scope} (h : scope.collects = true) (c : Char) :
    scope.next c = if scope.ends c then .block else scope := by
  cases scope with
  | directive d => rfl
  | blockName => rfl
  | block => cases h
  | comment => cases h

private theorem top_readInBlock {s : Scan μ} (h : s.Orderly) (htop : s.scopes.top = .block)
    (place : μ) (c : Char) : (s.readInBlock place c).scopes.top = Scope.block.next c := by
  rw [readInBlock]
  split
  next hc =>
    rw [hc]
    cases hs : s.scopes with
    | nil =>
      rw [leave_atRoot hs]
      exact htop
    | cons frame outer =>
      have hframe : frame.scope = .block := by rw [← top_cons hs, htop]
      rw [leave_top hs hframe]
      exact Scopes.top_of_blocks (h.nested.outer hs)
  next =>
    split
    next hc =>
      rw [hc]
      exact htop
    next =>
      rw [Scope.next]
      cases Scope.opened? c with
      | none => exact htop
      | some scope => rfl

/-- While an item is read its scope stays; at its end the scope is left, alone, with the block that
it is in or for the block that it names. -/
theorem Reads.scopes_of_collects {place : μ} {c : Char} {s t : Scan μ} (hr : Reads place c s t)
    {frame : Frame} {outer : Scopes} (hs : s.scopes = frame :: outer)
    (hcollects : frame.scope.collects = true) :
    (frame.scope.ends c = false ∧ t.scopes = s.scopes) ∨ (c = ';' ∧ t.scopes = outer) ∨
      (c = '\x7d' ∧ t.scopes = outer.tail) ∨
      (frame.scope = .blockName ∧ c = '\x7b' ∧ ∃ name, t.scopes = ⟨.block, name⟩ :: outer) := by
  have htop := top_cons hs
  have hsame : ∀ {frame' outer'}, s.scopes = frame' :: outer' → frame' = frame ∧ outer' = outer := by
    intro frame' outer' hs'
    exact List.cons.inj (hs'.symm.trans hs)
  cases hr with
  | passes hpass =>
    refine .inl ⟨?_, rfl⟩
    rw [htop] at hpass
    rcases hpass with hlayout | hcomment | ⟨-, hends⟩
    · exact ends_of_layout hlayout _
    · rw [hcomment] at hcollects
      cases hcollects
    · exact hends
  | opens scope hblock => rw [← htop, hblock] at hcollects; cases hcollects
  | strays f hblock => rw [← htop, hblock] at hcollects; cases hcollects
  | closes frame' outer' hs' hframe' =>
    rw [(hsame hs').1, hcollects] at hframe'
    cases hframe'
  | collects _ hends => exact .inl ⟨htop ▸ hends, rfl⟩
  | separates _ hends => exact .inl ⟨htop ▸ hends, rfl⟩
  | rejects _ _ hends => exact .inl ⟨htop ▸ hends, rfl⟩
  | discards frame' outer' hs' _ hc => exact .inr (.inl ⟨hc, (hsame hs').2⟩)
  | commits d frame' outer' hs' _ hc =>
    exact .inr (.inl ⟨hc, (scopes_settle _ _ _).trans (hsame hs').2⟩)
  | abandons frame' outer' hs' _ hc => exact .inr (.inl ⟨hc, (hsame hs').2⟩)
  | names frame' outer' hs' hframe' hc =>
    obtain ⟨rfl, rfl⟩ := hsame hs'
    exact .inr (.inr (.inr ⟨hframe', hc, _, scopes_declareBlock _ _⟩))
  | numbers frame' outer' hs' hframe' hc =>
    obtain ⟨rfl, rfl⟩ := hsame hs'
    exact .inr (.inr (.inr ⟨hframe', hc, _, rfl⟩))
  | blanks frame' outer' hs' hframe' hc =>
    obtain ⟨rfl, rfl⟩ := hsame hs'
    exact .inr (.inr (.inr ⟨hframe', hc, _, rfl⟩))
  | drops frame' outer' hs' _ hc =>
    obtain ⟨rfl, rfl⟩ := hsame hs'
    exact .inr (.inr (.inl ⟨hc, rfl⟩))
  | interrupts frame' outer' hs' _ hc =>
    obtain ⟨rfl, rfl⟩ := hsame hs'
    exact .inr (.inr (.inl ⟨hc, rfl⟩))

theorem exists_frame_of_collects {s : Scan μ} (h : s.scopes.top.collects = true) :
    ∃ frame outer, s.scopes = frame :: outer ∧ frame.scope.collects = true := by
  cases hs : s.scopes with
  | nil =>
    rw [hs] at h
    cases h
  | cons frame outer =>
    rw [top_cons hs] at h
    exact ⟨frame, outer, rfl, h⟩

theorem top_read {s : Scan μ} (h : s.Orderly) (place : μ) (c : Char) :
    (s.read place c).scopes.top = s.scopes.top.next c := by
  cases hcollects : s.scopes.top.collects with
  | false =>
    cases htop : s.scopes.top with
    | directive d => rw [htop] at hcollects; cases hcollects
    | blockName => rw [htop] at hcollects; cases hcollects
    | comment =>
      rw [read_comment htop, Scope.next]
      by_cases hc : c = '\n'
      · obtain ⟨frame, outer, hs, hframe⟩ := exists_frame htop Scope.noConfusion
        rw [if_pos hc, if_pos hc, leave_top hs hframe]
        exact Scopes.top_of_blocks (h.nested.outer hs)
      · rw [if_neg hc, if_neg hc, htop]
    | block =>
      by_cases hlayout : isLayout c = true
      · rw [read_layout (by rw [htop]; exact Scope.noConfusion) place hlayout, htop, Scope.next,
          opened?_of_layout hlayout]
        rfl
      · rw [read_block htop place (Bool.eq_false_iff.mpr hlayout)]
        exact top_readInBlock h htop place c
  | true =>
    obtain ⟨frame, outer, hs, hframe⟩ := exists_frame_of_collects hcollects
    have houter := h.nested.outer hs
    rw [next_of_collects hcollects, top_cons hs]
    rcases (reads_read h place c).scopes_of_collects hs hframe with
      ⟨hends, hscopes⟩ | ⟨rfl, hscopes⟩ | ⟨rfl, hscopes⟩ | ⟨hname, rfl, name, hscopes⟩
    · rw [hscopes, hends, top_cons hs]
      rfl
    · rw [hscopes, Scopes.top_of_blocks houter]
      rfl
    · rw [hscopes, Scopes.top_of_blocks fun f hf => houter f (List.mem_of_mem_tail hf)]
      simp [Scope.ends]
    · rw [hscopes, hname]
      rfl

def uncomment (s : Scan μ) : Scan μ :=
  if s.scopes.top = .comment then { s with scopes := s.scopes.tail } else s

theorem uncomment_of_ne {s : Scan μ} (h : s.scopes.top ≠ .comment) : s.uncomment = s := if_neg h

theorem uncomment_of_eq {s : Scan μ} (h : s.scopes.top = .comment) :
    s.uncomment = { s with scopes := s.scopes.tail } := if_pos h

private theorem close_uncomment (place : μ) (s : Scan μ) :
    s.uncomment.close place = s.close place := by
  by_cases htop : s.scopes.top = .comment
  · obtain ⟨frame, outer, hs, hframe⟩ := exists_frame htop Scope.noConfusion
    rw [uncomment_of_eq htop]
    simp [close_eq, hs, unfinished?, hframe]
  · rw [uncomment_of_ne htop]

theorem action?_of_top {s : Scan μ} (h : s.scopes.top.collects = false) (c : Char) :
    s.action? c = none := by
  rw [action?]
  split
  · rfl
  · cases htop : s.scopes.top with
    | directive d => rw [htop] at h; cases h
    | blockName => rw [htop] at h; cases h
    | block => rfl
    | comment => rfl

theorem action?_of_layout (s : Scan μ) {c : Char} (hc : isLayout c = true) :
    s.action? c = none := by
  have hne : c ≠ ';' ∧ c ≠ '\x7b' := by
    constructor
    · rintro rfl
      cases hc
    · rintro rfl
      cases hc
  rw [action?]
  split
  · rfl
  · cases s.scopes.top with
    | directive d => exact if_neg hne.1
    | blockName => exact if_neg fun h => hne.2 h.1
    | block => rfl
    | comment => rfl

/-- A character that does not belong to the bare text asks for nothing and at most ends or begins
a comment. -/
private theorem uncomment_read {s : Scan Unit} (h : s.Orderly) {c : Char}
    (hc : isLayout c = true ∨ s.scopes.top = .comment ∨ s.scopes.top.next c = .comment) :
    (s.read () c).uncomment = s.uncomment ∧ s.action? c = none := by
  by_cases htop : s.scopes.top = .comment
  · refine ⟨?_, action?_of_top (by rw [htop]; rfl) c⟩
    rw [read_comment htop]
    split
    · obtain ⟨frame, outer, hs, hframe⟩ := exists_frame htop Scope.noConfusion
      have hblock : Scopes.top outer ≠ .comment := by
        rw [Scopes.top_of_blocks (h.nested.outer hs)]
        exact Scope.noConfusion
      rw [leave_top hs hframe, uncomment_of_ne hblock, uncomment_of_eq htop, hs]
      rfl
    · rfl
  · by_cases hlayout : isLayout c = true
    · rw [read_layout htop () hlayout]
      exact ⟨rfl, action?_of_layout s hlayout⟩
    · have hnext : s.scopes.top.next c = .comment := (hc.resolve_left hlayout).resolve_left htop
      have hblock : s.scopes.top = .block := by
        cases hcollects : s.scopes.top.collects with
        | false =>
          cases hs : s.scopes.top with
          | directive d => rw [hs] at hcollects; cases hcollects
          | blockName => rw [hs] at hcollects; cases hcollects
          | block => rfl
          | comment => exact absurd hs htop
        | true =>
          rw [next_of_collects hcollects] at hnext
          split at hnext
          · cases hnext
          · exact absurd hnext htop
      refine ⟨?_, action?_of_top (by rw [hblock]; rfl) c⟩
      have hopened : Scope.opened? c = some .comment := by
        rw [hblock, Scope.next] at hnext
        cases hopened : Scope.opened? c with
        | none => rw [hopened] at hnext; cases hnext
        | some scope => rw [hopened] at hnext; rw [← hnext]; rfl
      have hidle : s.item = Item.fresh () := h.idle (by rw [hblock]; rfl)
      rw [read_opener hblock () hopened, uncomment_of_ne htop, uncomment_of_eq rfl]
      obtain ⟨scopes, item, draft, log⟩ := s
      cases hidle
      rfl

/-- What a text asks for when it is read to the end of the source, and the scan after that. -/
def outcome (s : Scan Unit) (text : List Char) : List Action × Scan Unit :=
  (s.actions (text.map (Prod.mk ())), (s.readAll (text.map (Prod.mk ()))).close ())

private theorem outcome_cons (s : Scan Unit) (c : Char) (text : List Char) :
    s.outcome (c :: text) = ((s.action? c).toList ++ ((s.read () c).outcome text).1,
      ((s.read () c).outcome text).2) := rfl

theorem outcome_bare {s : Scan Unit} (h : s.Orderly) (text : List Char) :
    s.outcome text = s.uncomment.outcome (s.scopes.top.bare text) := by
  -- By induction on the text: its layout and its comments change nothing.
  induction text generalizing s with
  | nil =>
    change (_, s.close ()) = (_, s.uncomment.close ())
    rw [close_uncomment]
    rfl
  | cons c text ih =>
    have hrest := ih ((reads_read h () c).orderly h)
    rw [top_read h] at hrest
    rw [outcome_cons, hrest, Scope.bare]
    by_cases hc : isLayout c = true ∨ s.scopes.top = .comment ∨ s.scopes.top.next c = .comment
    · obtain ⟨hread, haction⟩ := uncomment_read h hc
      rw [if_pos hc, hread, haction]
      rfl
    · have htop : s.scopes.top ≠ .comment := fun heq => hc (.inr (.inl heq))
      have hnext : (s.read () c).scopes.top ≠ .comment := by
        rw [top_read h]
        exact fun heq => hc (.inr (.inr heq))
      rw [if_neg hc, uncomment_of_ne htop, uncomment_of_ne hnext, outcome_cons]

theorem close_recast {ν : Type} (f : μ → ν) (place : μ) (s : Scan μ) :
    (s.recast f []).close (f place) = (s.close place).recast f [] := by
  rw [close_eq, close_eq]
  simp [recast, Item.recast, Diagnostic.recast]

theorem actions_recast {ν : Type} (f : μ → ν) (source : List (μ × Char)) (s : Scan μ) :
    (s.recast f []).actions (source.map (Prod.map f id)) = s.actions source := by
  induction source generalizing s with
  | nil => rfl
  | cons p source ih =>
    change ((s.recast f []).action? p.2).toList ++ ((s.recast f []).read (f p.1) p.2).actions _ = _
    rw [read_recast, ih]
    rfl

end Scan

theorem outcome_source (source : List Char) :
    (Scan.begin ()).outcome source =
      ((Scan.begin Mark.origin).actions (Mark.origin.locate source),
        (scanSource source).recast (fun _ => ()) []) := by
  have hbegin : Scan.begin () = (Scan.begin Mark.origin).recast (fun _ => ()) [] := rfl
  rw [Scan.outcome, ← Scan.map_forget_locate Mark.origin, hbegin, Scan.actions_recast,
    Scan.readAll_recast]
  exact congrArg (Prod.mk _) (Scan.close_recast (fun _ => ()) (Mark.origin.after source) _)

theorem outcome_bareSource (source : List Char) :
    (Scan.begin ()).outcome (bareSource source) =
      ((Scan.begin Mark.origin).actions (Mark.origin.locate source),
        (scanSource source).recast (fun _ => ()) []) := by
  rw [← outcome_source]
  exact (Scan.outcome_bare (Scan.orderly_begin ()) source).symm

end TapeMachine
