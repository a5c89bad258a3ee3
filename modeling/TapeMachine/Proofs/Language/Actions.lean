import TapeMachine.Proofs.Language.Generation
import TapeMachine.Proofs.Language.WellFormed
/-!
# What a source asks for

Reading a source asks for actions, one after another: to make a block known or to apply a directive.
Whatever else the source holds, its draft is what these actions amount to, and what is reported
besides faults is what they report (`enactAll_sourceActions`).
-/
namespace TapeMachine

def sourceActions (source : List Char) : List Action :=
  (Scan.begin Mark.origin).actions (Mark.origin.locate source)

def Cause.isFault : Cause → Bool
  | fault _ => true
  | refusal _ | notice _ | problem _ => false

variable {μ : Type}

namespace Scan

private def plain (s : Scan μ) : Draft Unit := s.draft.recast fun _ => ()

def answers (s : Scan μ) : List Cause := (s.diagnostics.map Diagnostic.cause).filter (!·.isFault)

private theorem answers_of_fault {s t : Scan μ} {f : Fault} {place : Option μ} {scope : Scope}
    (h : t.log = ⟨.fault f, place, scope⟩ :: s.log) : t.answers = s.answers := by
  rw [answers, answers, diagnostics, diagnostics, h, List.reverse_cons, List.map_append,
    List.filter_append]
  exact List.append_nil _

private theorem answers_reportAll (notices : List Notice) (place : μ) (s : Scan μ) :
    (s.reportAll notices place).answers = s.answers ++ notices.map .notice := by
  rw [reportAll_eq, answers, answers, diagnostics, diagnostics, List.reverse_append,
    List.reverse_reverse, List.map_append, List.filter_append, List.map_map]
  have hnotices : ∀ cause ∈ notices.map Cause.notice, (!cause.isFault) = true := by
    intro cause hcause
    obtain ⟨n, -, rfl⟩ := List.mem_map.mp hcause
    rfl
  exact congrArg _ (List.filter_eq_self.mpr hnotices)

/-- What a character that asks for `asked` does to the draft and to the reports about actions. -/
private def Enacts (asked : List Action) (s t : Scan μ) : Prop :=
  t.plain = (Draft.enactAll asked s.plain).1 ∧
    t.answers = s.answers ++ (Draft.enactAll asked s.plain).2

private theorem enacts_none {s t : Scan μ} {c : Char} (hnone : s.action? c = none)
    (hdraft : t.draft = s.draft) (hanswers : t.answers = s.answers) :
    Enacts (s.action? c).toList s t := by
  rw [hnone]
  refine ⟨congrArg (Draft.recast fun _ => ()) hdraft, ?_⟩
  rw [hanswers]
  exact (List.append_nil _).symm

private theorem path_of_collects {s : Scan μ} {frame : Frame} {outer : Scopes}
    (hs : s.scopes = frame :: outer) (hcollects : frame.scope.collects = true) :
    s.scopes.path = Scopes.path outer := by
  rw [hs]
  refine Scopes.path_cons_of_ne outer ?_
  intro hblock
  rw [hblock] at hcollects
  cases hcollects

private theorem enacts_commit {s : Scan μ} {d : Directive} {frame : Frame} {outer : Scopes}
    (hs : s.scopes = frame :: outer) (hframe : frame.scope = .directive d)
    (hsound : s.item.spoilt = false) (place : μ) :
    Enacts (s.action? ';').toList s ((s.back outer place).settle s.item.start
      (s.draft.apply outer.path d s.item.start s.item.allFields)) := by
  have hasked : s.action? ';' = some (.apply outer.path d s.item.allFields) := by
    rw [action?, if_neg (by simp [hsound]), top_cons hs, hframe,
      path_of_collects hs (by rw [hframe]; rfl)]
    rfl
  have hplain : s.plain.apply outer.path d () s.item.allFields =
      Applied.recast (fun _ => ()) (s.draft.apply outer.path d s.item.start s.item.allFields) :=
    Draft.apply_recast (fun _ => ()) outer.path s.draft d s.item.start s.item.allFields
  rw [hasked, Option.toList_some, Enacts, Draft.enactAll_cons, Draft.enact, hplain]
  cases s.draft.apply outer.path d s.item.start s.item.allFields with
  | error r =>
    refine ⟨rfl, ?_⟩
    simp only [settle, report, answers, diagnostics, List.reverse_cons, List.map_append,
      List.filter_append]
    rfl
  | ok result =>
    obtain ⟨draft, notices⟩ := result
    refine ⟨congrArg (Draft.recast fun _ => ()) (draft_reportAll _ _ _), ?_⟩
    simp only [settle, Applied.recast, answers_reportAll, Draft.enactAll, List.append_nil]
    rfl

private theorem enacts_names {s : Scan μ} {frame : Frame} {outer : Scopes}
    (hs : s.scopes = frame :: outer) (hframe : frame.scope = .blockName)
    (hsound : s.item.spoilt = false) (hname : s.item.current ≠ []) (place : μ) :
    Enacts (s.action? '\x7b').toList s
      ((s.back (⟨.block, some s.item.current.reverse⟩ :: outer) place).declareBlock place) := by
  let path := outer.path ++ [s.item.current.reverse]
  have hasked : s.action? '\x7b' = some (.declare path) := by
    rw [action?, if_neg (by simp [hsound]), top_cons hs, hframe,
      path_of_collects hs (by rw [hframe]; rfl)]
    exact if_pos ⟨rfl, hname⟩
  have hpath : Scopes.qualify (⟨.block, some s.item.current.reverse⟩ :: outer) Name.anonymous =
      Name.join path := rfl
  rw [hasked, Option.toList_some]
  constructor
  · exact congrArg (Draft.recast fun _ => ()) (draft_declareBlock place _)
  · simp only [declareBlock, back, hpath, answers_reportAll, Draft.enactAll, Draft.enact,
      List.append_nil]
    rfl

/-- A character has the effect of the action that it asks for, if it asks for one. -/
private theorem Reads.enacts {place : μ} {c : Char} {s t : Scan μ} (hr : Reads place c s t) :
    Enacts (s.action? c).toList s t := by
  have hends : s.scopes.top.ends c = false → s.action? c = none := action?_of_ends
  have htop : s.scopes.top = .block → s.action? c = none := by
    intro htop
    exact action?_of_top (by rw [htop]; rfl) c
  have hspoilt : s.item.spoilt = true → s.action? c = none := fun h => if_pos h
  cases hr with
  | passes h =>
    have hnone : s.action? c = none := by
      rcases h with hlayout | hcomment | ⟨-, h⟩
      · exact action?_of_layout s hlayout
      · exact action?_of_top (by rw [hcomment]; rfl) c
      · exact hends h
    exact enacts_none hnone rfl rfl
  | opens scope hblock => exact enacts_none (htop hblock) rfl rfl
  | strays f hblock => exact enacts_none (htop hblock) rfl (answers_of_fault rfl)
  | closes frame outer hs hframe =>
    exact enacts_none (action?_of_top (by rw [top_cons hs, hframe]) c) rfl rfl
  | collects _ h => exact enacts_none (hends h) rfl rfl
  | separates _ h => exact enacts_none (hends h) rfl rfl
  | rejects f _ h => exact enacts_none (hends h) rfl (answers_of_fault rfl)
  | discards _ _ _ _ _ h => exact enacts_none (hspoilt h) rfl rfl
  | commits d frame outer hs hframe hc hsound =>
    rw [hc]
    exact enacts_commit hs hframe hsound place
  | abandons frame outer hs hframe hc =>
    have hnone : s.action? c = none := by
      rw [action?, top_cons hs, hframe, hc]
      split
      · rfl
      · rfl
    exact enacts_none hnone rfl (answers_of_fault rfl)
  | names frame outer hs hframe hc hsound hname =>
    rw [hc]
    exact enacts_names hs hframe hsound hname place
  | numbers _ _ _ _ _ h => exact enacts_none (hspoilt h) rfl rfl
  | blanks frame outer hs hframe _ _ hname =>
    have hnone : s.action? c = none := by
      rw [action?, top_cons hs, hframe]
      split
      · rfl
      · exact if_neg fun h => h.2 hname
    exact enacts_none hnone rfl (answers_of_fault rfl)
  | drops _ _ _ _ _ h => exact enacts_none (hspoilt h) rfl rfl
  | interrupts frame outer hs hframe hc =>
    have hnone : s.action? c = none := by
      rw [action?, hc]
      split
      · rfl
      · split
        · rfl
        · rfl
        · rfl
    exact enacts_none hnone rfl (answers_of_fault rfl)

private theorem enacts_readAll {s : Scan μ} (h : s.Orderly) (source : List (μ × Char)) :
    Enacts (s.actions source) s (s.readAll source) := by
  -- By induction on the text: it has the effect of the actions that it asks for.
  induction source generalizing s with
  | nil => exact ⟨rfl, (List.append_nil _).symm⟩
  | cons p source ih =>
    obtain ⟨place, c⟩ := p
    have hr := reads_read h place c
    obtain ⟨hdraft, hanswers⟩ := hr.enacts
    obtain ⟨hdraft', hanswers'⟩ := ih (hr.orderly h)
    rw [Enacts, actions, readAll_cons, Draft.enactAll_append, ← hdraft]
    exact ⟨hdraft', by rw [hanswers', hanswers, List.append_assoc]⟩

theorem recast_draft_readAll {s : Scan μ} (h : s.Orderly) (source : List (μ × Char)) :
    (s.readAll source).draft.recast (fun _ => ()) =
      (Draft.enactAll (s.actions source) (s.draft.recast fun _ => ())).1 :=
  (enacts_readAll h source).1

private theorem answers_close (place : μ) (s : Scan μ) : (s.close place).answers = s.answers := by
  rw [close_eq, answers, answers, diagnostics, diagnostics, List.reverse_append,
    List.reverse_reverse, List.map_append, List.filter_append, List.map_map]
  have hfaults : ∀ cause ∈ (s.scopes.filterMap (unfinished? s.item.spoilt)).map Cause.fault,
      ¬ (!cause.isFault) = true := by
    intro cause hcause
    obtain ⟨f, -, rfl⟩ := List.mem_map.mp hcause
    exact Bool.false_ne_true
  exact (congrArg _ (List.filter_eq_nil_iff.mpr hfaults)).trans (List.append_nil _)

end Scan

/-- A source amounts to the actions it asks for, and they make all its reports but the faults. -/
theorem enactAll_sourceActions (source : List Char) :
    Draft.enactAll (sourceActions source) Draft.empty =
      ((scanSource source).draft.recast fun _ => (), (scanSource source).answers) := by
  obtain ⟨hdraft, hanswers⟩ :=
    Scan.enacts_readAll (Scan.orderly_begin Mark.origin) (Mark.origin.locate source)
  rw [scanSource_eq, Scan.draft_close, Scan.answers_close]
  exact (Prod.ext hdraft (hanswers.trans (List.nil_append _))).symm

end TapeMachine
