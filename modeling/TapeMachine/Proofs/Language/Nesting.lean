import TapeMachine.Proofs.Language.Accounting
/-!
# Scopes that are closed

The open scopes are blocks with at most one other scope inside them, and an item that is closed in
the regular way is closed without fail. The only scope errors of a source are the ends of blocks
that stand where no block is open or within an item (`scanSource_nesting`).
-/
namespace TapeMachine

def Cause.isScopeError : Cause → Bool
  | fault (.strayClose _) => true
  | _ => false

def Scope.closedBy : Scope → Char → Bool
  | directive _, c => c == ';'
  | blockName, c => c == ';' || c == '\x7b'
  | comment, c => c == '\n'
  | block, _ => false

variable {μ : Type}

namespace Scan

/-- Blocks with at most one other scope inside them; no fault is left over from an item. -/
structure Disciplined (s : Scan μ) : Prop where
  frames : ∃ (inner : Option Frame) (blocks : Scopes), s.scopes = inner.toList ++ blocks ∧
    (∀ frame ∈ inner, frame.scope ≠ .block) ∧ ∀ frame ∈ blocks, frame.scope = .block
  sound : s.scopes.top = .block ∨ s.scopes.top = .comment → s.item.spoilt = false

/-- What is reported about scopes that cannot be closed, in order. -/
def scopeErrors (s : Scan μ) : List (Option μ × String) :=
  (s.diagnostics.filter (·.cause.isScopeError)).map fun d => (d.place, d.message)

/-- What there is to say about an end of a block that ends none: that no block is open, or which
item it interrupts, unless that has a fault already. -/
def misplaced? (place : μ) (c : Char) (s : Scan μ) : Option (Option μ × String) :=
  if c = '\x7d' then
    if s.scopes = [] then some (some place, "Cannot exit namespace. At root level!")
    else if s.scopes.top.collects = true ∧ s.item.spoilt = false then
      some (some place, "Tried to exit namespace but found " ++ s.scopes.top.word)
    else none
  else none

def misplacedEnds : List (μ × Char) → Scan μ → List (Option μ × String)
  | [], _ => []
  | (place, c) :: rest, s => (s.misplaced? place c).toList ++ misplacedEnds rest (s.read place c)

theorem Orderly.disciplined {s : Scan μ} (h : s.Orderly) : s.Disciplined := by
  constructor
  case frames =>
    by_cases htop : s.scopes.top = .block
    · exact ⟨none, s.scopes, rfl, fun _ hf => absurd hf (by simp), h.nested.blocks htop⟩
    · obtain ⟨frame, outer, hs, hframe⟩ := exists_frame rfl htop
      refine ⟨some frame, outer, hs, ?_, h.nested.outer hs⟩
      intro f hf
      rw [← Option.some.inj hf, hframe]
      exact htop
  case sound =>
    intro htop
    have hidle : s.item.Idle := h.idle (by rcases htop with htop | htop <;> rw [htop] <;> rfl)
    rw [hidle]
    rfl

private theorem ends_of_closedBy {scope : Scope} {c : Char} (h : scope.closedBy c = true)
    (hcollects : scope.collects = true) : scope.ends c = true ∧ c ≠ '\x7d' := by
  cases scope with
  | directive d =>
    obtain rfl : c = ';' := beq_iff_eq.mp h
    exact ⟨rfl, by decide⟩
  | blockName =>
    rw [Scope.closedBy, Bool.or_eq_true, beq_iff_eq, beq_iff_eq] at h
    rcases h with rfl | rfl
    · exact ⟨rfl, by decide⟩
    · exact ⟨rfl, by decide⟩
  | block => cases hcollects
  | comment => cases hcollects

theorem exit_of_closedBy {s : Scan μ} (h : s.Orderly) {c : Char} (place : μ)
    (hc : s.scopes.top.closedBy c = true) :
    ∃ frame outer, s.scopes.exit s.scopes.top = .ok (frame, outer) ∧
      ((s.read place c).scopes = outer ∨
        c = '\x7b' ∧ ∃ name, (s.read place c).scopes = ⟨.block, name⟩ :: outer) := by
  have htop : s.scopes.top ≠ .block := by
    intro htop
    rw [htop] at hc
    cases hc
  obtain ⟨frame, outer, hs, hframe⟩ := exists_frame rfl htop
  refine ⟨frame, outer, ?_, ?_⟩
  · rw [top_cons hs, hs, Scopes.exit, if_pos rfl]
  · by_cases hcomment : s.scopes.top = .comment
    · rw [hcomment] at hc
      rw [read_comment hcomment, if_pos (beq_iff_eq.mp hc), leave_top hs (hframe.trans hcomment)]
      exact .inl rfl
    · have hcollects : frame.scope.collects = true := by
        rw [hframe]
        cases hscope : s.scopes.top with
        | directive d => rfl
        | blockName => rfl
        | block => exact absurd hscope htop
        | comment => exact absurd hscope hcomment
      rw [← hframe] at hc
      obtain ⟨hends, hclose⟩ := ends_of_closedBy hc hcollects
      rcases (reads_read h place c).scopes_of_collects hs hcollects with
        ⟨hgoes, -⟩ | ⟨-, hscopes⟩ | ⟨hbrace, -⟩ | ⟨-, hopen, hscopes⟩
      · exact absurd (hends.symm.trans hgoes) Bool.false_ne_true.symm
      · exact .inl hscopes
      · exact absurd hbrace hclose
      · exact .inr ⟨hopen, hscopes⟩

theorem scopeErrors_report {cause : Cause} (h : cause.isScopeError = false) (place : μ)
    (s : Scan μ) : (s.report cause place).scopeErrors = s.scopeErrors := by
  simp [scopeErrors, diagnostics, report, h]

theorem scopeErrors_report_strayClose (e : ScopeError) (place : μ) (s : Scan μ) :
    (s.report (.fault (.strayClose e)) place).scopeErrors =
      s.scopeErrors ++ [(some place, e.message)] := by
  rw [scopeErrors, diagnostics, report, List.reverse_cons, List.filter_append, List.map_append]
  rfl

private theorem scopeErrors_reportAll (notices : List Notice) (place : μ) (s : Scan μ) :
    (s.reportAll notices place).scopeErrors = s.scopeErrors := by
  induction notices generalizing s with
  | nil => rfl
  | cons n notices ih =>
    have hnotice : (Cause.notice n).isScopeError = false := rfl
    rw [reportAll, List.foldl_cons, ← reportAll, ih, scopeErrors_report hnotice]

private theorem scopeErrors_settle (start : μ) (applied : Applied μ) (s : Scan μ) :
    (s.settle start applied).scopeErrors = s.scopeErrors := by
  cases applied with
  | error r => exact scopeErrors_report rfl start s
  | ok result => exact scopeErrors_reportAll result.2 start { s with draft := result.1 }

private theorem scopeErrors_declareBlock (place : μ) (s : Scan μ) :
    (s.declareBlock place).scopeErrors = s.scopeErrors :=
  scopeErrors_reportAll _ place { s with draft := _ }

private theorem scopeErrors_collect (scope : Scope) (place : μ) (c : Char) (s : Scan μ) :
    (s.collect scope place c).scopeErrors = s.scopeErrors := by
  rw [collect]
  split
  · rfl
  · split
    · split
      · rfl
      · exact scopeErrors_report rfl place s
    · split
      · rfl
      · exact scopeErrors_report rfl place s

private theorem misplaced?_of_comment {s : Scan μ} (h : s.scopes.top = .comment) (place : μ)
    (c : Char) : s.misplaced? place c = none := by
  have hopen : s.scopes ≠ [] := by
    intro hs
    rw [hs] at h
    cases h
  simp [misplaced?, hopen, h, Scope.collects]

private theorem scopeErrors_interrupt {s : Scan μ} {frame : Frame} {outer : Scopes}
    (hs : s.scopes = frame :: outer) (houter : ∀ f ∈ outer, f.scope = .block)
    (hcollects : frame.scope.collects = true) (place : μ) :
    (s.interrupt frame.scope place).scopeErrors =
      s.scopeErrors ++ (s.misplaced? place '\x7d').toList := by
  have hopen : s.scopes ≠ [] := by
    rw [hs]
    exact List.cons_ne_nil _ _
  rw [interrupt_eq hs hcollects houter, misplaced?, if_pos rfl, if_neg hopen, top_cons hs]
  split
  next hspoilt =>
    rw [if_neg fun hsound => Bool.noConfusion (hspoilt.symm.trans hsound.2)]
    exact (List.append_nil _).symm
  next hspoilt =>
    have hmessage : (ScopeError.mismatch .block frame.scope).message =
        "Tried to exit namespace but found " ++ frame.scope.word :=
      congrArg (· ++ frame.scope.word) (by decide)
    rw [if_pos ⟨hcollects, Bool.eq_false_iff.mpr hspoilt⟩, ← hmessage]
    exact scopeErrors_report_strayClose _ place s

private theorem scopeErrors_readInBlock {s : Scan μ} (htop : s.scopes.top = .block) (place : μ)
    (c : Char) : (s.readInBlock place c).scopeErrors =
      s.scopeErrors ++ (s.misplaced? place c).toList := by
  rw [readInBlock, misplaced?]
  split
  next hc =>
    cases hs : s.scopes with
    | nil =>
      rw [leave_atRoot hs, if_pos rfl]
      exact scopeErrors_report_strayClose (.atRoot .block) place s
    | cons frame outer =>
      have hframe : frame.scope = .block := by rw [← top_cons hs, htop]
      rw [leave_top hs hframe, if_neg (List.cons_ne_nil _ _), ← hs, htop]
      exact (List.append_nil _).symm
  next =>
    rw [Option.toList_none, List.append_nil]
    split
    · exact scopeErrors_report rfl place s
    · split
      · rfl
      · exact scopeErrors_report rfl place s

private theorem scopeErrors_readInName {s : Scan μ} {frame : Frame} {outer : Scopes}
    (hs : s.scopes = frame :: outer) (houter : ∀ f ∈ outer, f.scope = .block)
    (hframe : frame.scope = .blockName) (place : μ) (c : Char) :
    (s.readInName place c).scopeErrors = s.scopeErrors ++ (s.misplaced? place c).toList := by
  by_cases hc : c = '\x7d'
  · subst hc
    rw [← scopeErrors_interrupt hs houter (by rw [hframe]; rfl), hframe]
    rfl
  · rw [misplaced?, if_neg hc, Option.toList_none, List.append_nil, readInName]
    split
    · rw [finishName_eq hs hframe]
      split
      · rfl
      · split
        · exact scopeErrors_report rfl place (s.back outer place)
        · exact scopeErrors_declareBlock place (s.back _ place)
    · split
      · rw [abandonName_eq hs hframe]
        split
        · rfl
        · exact scopeErrors_report rfl place (s.back outer place)
      · exact scopeErrors_collect .blockName place c s

private theorem scopeErrors_readInDirective {s : Scan μ} {d : Directive} {frame : Frame}
    {outer : Scopes} (hs : s.scopes = frame :: outer) (houter : ∀ f ∈ outer, f.scope = .block)
    (hframe : frame.scope = .directive d) (place : μ) (c : Char) :
    (s.readInDirective d place c).scopeErrors =
      s.scopeErrors ++ (s.misplaced? place c).toList := by
  by_cases hc : c = '\x7d'
  · subst hc
    rw [← scopeErrors_interrupt hs houter (by rw [hframe]; rfl), hframe]
    rfl
  · rw [misplaced?, if_neg hc, Option.toList_none, List.append_nil, readInDirective, if_neg hc]
    split
    · rw [commit_eq hs hframe]
      split
      · rfl
      · exact scopeErrors_settle _ _ (s.back outer place)
    · split
      · rfl
      · split
        · exact scopeErrors_collect (.directive d) place ':' s
        · exact scopeErrors_collect (.directive d) place c s

/-- A character adds a scope error exactly if it is a misplaced end of a block. -/
theorem scopeErrors_read {s : Scan μ} (h : s.Orderly) (place : μ) (c : Char) :
    (s.read place c).scopeErrors = s.scopeErrors ++ (s.misplaced? place c).toList := by
  have hquiet : s.misplaced? place c = none →
      s.scopeErrors = s.scopeErrors ++ (s.misplaced? place c).toList := by
    intro hnone
    rw [hnone, Option.toList_none, List.append_nil]
  apply read_cases (P := fun t => t.scopeErrors = s.scopeErrors ++ (s.misplaced? place c).toList) h
  case layout =>
    intro hlayout
    refine hquiet (if_neg ?_)
    rintro rfl
    cases hlayout
  case comment => exact fun hcomment => hquiet (misplaced?_of_comment hcomment place c)
  case line =>
    intro frame outer hs hframe _
    exact hquiet (misplaced?_of_comment (by rw [top_cons hs, hframe]) place c)
  case block => exact fun htop => scopeErrors_readInBlock htop place c
  case name =>
    intro frame outer hs houter hframe
    exact scopeErrors_readInName hs houter hframe place c
  case directive =>
    intro d frame outer hs houter hframe
    exact scopeErrors_readInDirective hs houter hframe place c

theorem scopeErrors_readAll {s : Scan μ} (h : s.Orderly) (source : List (μ × Char)) :
    (s.readAll source).scopeErrors = s.scopeErrors ++ s.misplacedEnds source := by
  -- By induction on the text: its scope errors are about its misplaced ends of blocks.
  induction source generalizing s with
  | nil => exact (List.append_nil _).symm
  | cons p source ih =>
    obtain ⟨place, c⟩ := p
    rw [readAll_cons, ih ((reads_read h place c).orderly h), scopeErrors_read h,
      List.append_assoc, misplacedEnds]

theorem scopeErrors_close (place : μ) (s : Scan μ) :
    (s.close place).scopeErrors = s.scopeErrors := by
  have hunfinished : ∀ f ∈ s.scopes.filterMap (unfinished? s.item.spoilt),
      (Cause.fault f).isScopeError = false := by
    intro f hf
    obtain ⟨frame, -, hframe⟩ := List.mem_filterMap.mp hf
    rw [unfinished?] at hframe
    split at hframe
    · cases hframe
    · cases hframe
      rfl
    · split at hframe <;> cases hframe
      rfl
    · split at hframe <;> cases hframe
      rfl
  have hnone : (endReports place (s.scopes.filterMap (unfinished? s.item.spoilt))).filter
      (·.cause.isScopeError) = [] := by
    apply List.filter_eq_nil_iff.mpr
    intro d hd
    obtain ⟨f, hf, rfl⟩ := List.mem_map.mp hd
    rw [hunfinished f hf]
    exact Bool.false_ne_true
  rw [scopeErrors, diagnostics_close, List.filter_append, hnone, List.append_nil, scopeErrors]

end Scan

def sourceMisplacedEnds (source : List Char) : List (Option Mark × String) :=
  (Scan.begin Mark.origin).misplacedEnds (Mark.origin.locate source)

/--
After every part of a source the open scopes are blocks with at most one other scope inside them,
and no fault is left over where a block or a comment is read. The end of a directive, of a block
name or of a comment closes its scope without fail. So the scope errors of the source are one for
each end of a block where no block is open, and one for each that interrupts an item without a
fault.
-/
theorem scanSource_nesting (source : List Char) :
    (∀ front, front <+: source → (readSource front).Disciplined) ∧
      (∀ front c, front ++ [c] <+: source →
        (readSource front).scopes.top.closedBy c = true → ∃ frame outer,
          (readSource front).scopes.exit (readSource front).scopes.top = .ok (frame, outer) ∧
            ((readSource (front ++ [c])).scopes = outer ∨
              c = '\x7b' ∧ ∃ name,
                (readSource (front ++ [c])).scopes = ⟨.block, name⟩ :: outer)) ∧
      (scanSource source).scopeErrors = sourceMisplacedEnds source := by
  refine ⟨?_, ?_, ?_⟩
  · exact fun front _ => (orderly_readSource front).disciplined
  · intro front c _ hc
    rw [readSource_concat]
    exact Scan.exit_of_closedBy (orderly_readSource front) _ hc
  · rw [scanSource_eq, Scan.scopeErrors_close, readSource,
      Scan.scopeErrors_readAll (Scan.orderly_begin Mark.origin)]
    exact List.nil_append _

/-- The first end of a block interrupts an item, at the second one no block is open. The others
stand in a comment and in an item that has a fault already. -/
theorem scanSource_nesting_interrupted :
    let front := [':', 'b', '\x7b', '*', 'q', '\x7d', '\x7d', '#', '\x7d']
    let source := front ++ ['\n', '&', '%', '\x7d']
    front <+: source ∧ front ++ ['\n'] <+: source ∧
      (readSource front).scopes.top.closedBy '\n' = true ∧ (readSource front).Disciplined ∧
      (∃ frame outer,
        (readSource front).scopes.exit (readSource front).scopes.top = .ok (frame, outer) ∧
          ((readSource (front ++ ['\n'])).scopes = outer ∨
            '\n' = '\x7b' ∧ ∃ name,
              (readSource (front ++ ['\n'])).scopes = ⟨.block, name⟩ :: outer)) ∧
      (scanSource source).scopeErrors =
        [(some ⟨5, 1, 6⟩, "Tried to exit namespace but found states"),
          (some ⟨6, 1, 7⟩, "Cannot exit namespace. At root level!")] := by
  intro front source
  have hfront : front <+: source := ⟨_, rfl⟩
  have hline : front ++ ['\n'] <+: source := ⟨['&', '%', '\x7d'], rfl⟩
  have hcomment : (readSource front).scopes.top.closedBy '\n' = true := by decide
  obtain ⟨hdisciplined, hexit, herrors⟩ := scanSource_nesting source
  refine ⟨hfront, hline, hcomment, hdisciplined front hfront, hexit front '\n' hline hcomment, ?_⟩
  rw [herrors]
  decide

end TapeMachine
