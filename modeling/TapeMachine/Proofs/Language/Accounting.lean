import TapeMachine.Proofs.Language.Items
import TapeMachine.Proofs.Language.WellFormed
/-!
# What the errors of a source are

An error is about an item, about a stray character of a block, about a block that is not closed or
about the table as a whole. An item that goes on has room for one error as long as it is not spoilt,
and a character takes up no more room than there is; so an item has one error at most.
-/
namespace TapeMachine

namespace Scopes

def blocks (scopes : Scopes) : Nat := scopes.countP fun frame => frame.scope == .block

theorem blocks_cons_block {frame : Frame} (outer : Scopes) (h : frame.scope = .block) :
    blocks (frame :: outer) = blocks outer + 1 := by
  simp [blocks, h]

theorem blocks_cons_of_ne {frame : Frame} (outer : Scopes) (h : frame.scope ≠ .block) :
    blocks (frame :: outer) = blocks outer := by
  simp [blocks, h]

theorem blocks_tail {scopes : Scopes} (h : ∀ frame ∈ scopes, frame.scope = .block) :
    blocks scopes.tail = blocks scopes - 1 := by
  cases scopes with
  | nil => rfl
  | cons frame outer => simp [blocks_cons_block outer (h frame List.mem_cons_self)]

end Scopes

namespace Table

/-- Only the initial state can make a consistent table unusable. -/
theorem countP_isFatal_problems {table : Table} (h : table.Consistent) (initial : Option Name) :
    (table.problems initial).countP Problem.isFatal ≤ 1 := by
  have hwarning : (table.reachabilityProblems initial).countP Problem.isFatal = 0 := by
    cases initial with
    | none => rfl
    | some name =>
      rw [reachabilityProblems]
      split <;> rfl
  have hinitial : (table.initialProblems initial).length ≤ 1 := by
    cases initial with
    | none => exact Nat.le_refl 1
    | some name =>
      rw [initialProblems]
      split
      · exact Nat.zero_le 1
      · exact Nat.le_refl 1
  rw [problems, h.unresolved, List.map_nil, List.append_nil, List.countP_append,
    hwarning]
  exact Nat.le_trans List.countP_le_length hinitial

end Table

namespace Scan

variable {μ : Type} {s t : Scan μ} {place : μ} {c : Char}

def errors (s : Scan μ) : Nat := Diagnostic.errorCount s.log

def room (s : Scan μ) : Nat := if s.item.spoilt then 0 else 1

def looseEnds (s : Scan μ) : List Fault :=
  (s.scopes.filter (·.scope.collects)).filterMap (unfinished? s.item.spoilt)

theorem errorCount_diagnostics (s : Scan μ) :
    Diagnostic.errorCount s.diagnostics = s.errors :=
  List.countP_reverse

theorem errors_report {cause : Cause} (h : cause.severity = .error) (place : μ) (s : Scan μ) :
    (s.report cause place).errors = s.errors + 1 := by
  simp [errors, report, Diagnostic.errorCount, Diagnostic.isError, Diagnostic.severity, h]

theorem errors_reportAll (notices : List Notice) (place : μ) (s : Scan μ) :
    (s.reportAll notices place).errors = s.errors := by
  rw [← errorCount_diagnostics, errorCount_reportAll, errorCount_diagnostics]

theorem errors_declareBlock (place : μ) (s : Scan μ) : (s.declareBlock place).errors = s.errors :=
  errors_reportAll _ place { s with draft := _ }

theorem errors_settle (start : μ) (applied : Applied μ) (s : Scan μ) :
    (s.settle start applied).errors ≤ s.errors + 1 := by
  cases applied with
  | error r => exact Nat.le_of_eq (errors_report rfl start s)
  | ok result =>
    have hsame := errors_reportAll result.2 start { s with draft := result.1 }
    exact Nat.le_trans (Nat.le_of_eq hsame) (Nat.le_succ _)

theorem Logs.errors_le (h : s.Logs t) : s.errors ≤ t.errors := by
  obtain ⟨newer, hlog, -⟩ := h
  simp [errors, Diagnostic.errorCount, hlog]

theorem Logs.diagnostics_eq (h : s.Logs t) :
    t.diagnostics = s.diagnostics ++ t.diagnostics.drop s.diagnostics.length := by
  obtain ⟨newer, hlog, -⟩ := h
  simp [diagnostics, hlog]

theorem Logs.errorCount_drop (h : s.Logs t) :
    t.errors = s.errors + Diagnostic.errorCount (t.diagnostics.drop s.diagnostics.length) := by
  rw [← errorCount_diagnostics, ← errorCount_diagnostics s, Diagnostic.errorCount,
    Diagnostic.errorCount, Diagnostic.errorCount, ← List.countP_append, ← h.diagnostics_eq]

theorem Reads.errors_of_collects (hr : Reads place c s t)
    (hcollects : s.scopes.top.collects = true) : t.errors ≤ s.errors + s.room ∧
      (s.scopes.top.ends c = false → t.errors + t.room = s.errors + s.room) := by
  have hterm : c = ';' → s.scopes.top.ends c ≠ false := by
    rintro rfl
    simp [Scope.ends]
  have hclose : c = '\x7d' → s.scopes.top.ends c ≠ false := by
    rintro rfl
    simp [Scope.ends]
  have hopen : ∀ {frame outer}, s.scopes = frame :: outer → frame.scope = .blockName → c = '\x7b' →
      s.scopes.top.ends c ≠ false := by
    rintro frame outer hs hframe rfl
    simp [Scope.ends, top_cons hs, hframe]
  have hroom : s.item.spoilt = false → s.room = 1 := fun hsound => if_neg (by rw [hsound]; simp)
  cases hr with
  | passes => exact ⟨Nat.le_add_right _ _, fun _ => rfl⟩
  | opens scope htop => rw [htop] at hcollects; cases hcollects
  | strays f htop => rw [htop] at hcollects; cases hcollects
  | closes frame outer hs hframe => rw [top_cons hs, hframe] at hcollects; cases hcollects
  | collects => exact ⟨Nat.le_add_right _ _, fun _ => rfl⟩
  | separates => exact ⟨Nat.le_add_right _ _, fun _ => rfl⟩
  | rejects f _ _ hsound =>
    have herrors : (s.reject f place).errors = s.errors + 1 := errors_report rfl place s
    rw [hroom hsound, herrors]
    exact ⟨Nat.le_refl _, fun _ => rfl⟩
  | discards _ _ _ _ hc => exact ⟨Nat.le_add_right _ _, fun hends => absurd hends (hterm hc)⟩
  | commits d frame outer _ _ hc hsound =>
    rw [hroom hsound]
    exact ⟨errors_settle _ _ (s.back outer place), fun hends => absurd hends (hterm hc)⟩
  | abandons frame outer _ _ hc hsound =>
    rw [hroom hsound]
    exact ⟨Nat.le_of_eq (errors_report rfl place (s.back outer place)),
      fun hends => absurd hends (hterm hc)⟩
  | names frame outer hs hframe hc =>
    refine ⟨?_, fun hends => absurd hends (hopen hs hframe hc)⟩
    have hsame := errors_declareBlock place
      (s.back (⟨.block, some s.item.current.reverse⟩ :: outer) place)
    exact Nat.le_trans (Nat.le_of_eq hsame) (Nat.le_add_right _ _)
  | numbers frame outer hs hframe hc =>
    exact ⟨Nat.le_add_right _ _, fun hends => absurd hends (hopen hs hframe hc)⟩
  | blanks frame outer hs hframe hc hsound =>
    rw [hroom hsound]
    exact ⟨Nat.le_of_eq (errors_report rfl place (s.back outer place)),
      fun hends => absurd hends (hopen hs hframe hc)⟩
  | drops _ _ _ _ hc => exact ⟨Nat.le_add_right _ _, fun hends => absurd hends (hclose hc)⟩
  | interrupts frame outer _ _ hc hsound =>
    rw [hroom hsound]
    exact ⟨Nat.le_of_eq (errors_report rfl place s), fun hends => absurd hends (hclose hc)⟩

theorem errors_read_comment (htop : s.scopes.top = .comment) (place : μ) (c : Char) :
    (s.read place c).errors = s.errors := by
  rw [read_comment htop]
  split
  · obtain ⟨frame, outer, hs, hframe⟩ := exists_frame htop Scope.noConfusion
    rw [leave_top hs hframe]
    rfl
  · rfl

theorem errors_read_block (htop : s.scopes.top = .block) (place : μ) (c : Char) :
    (s.read place c).errors = s.errors + if isStray s.scopes.blocks c then 1 else 0 := by
  by_cases hlayout : isLayout c = true
  · rw [read_layout (by rw [htop]; exact Scope.noConfusion) place hlayout]
    simp [isStray, hlayout]
  · rw [read_block htop place (Bool.eq_false_iff.mpr hlayout), readInBlock]
    split
    next hc =>
      subst hc
      cases hs : s.scopes with
      | nil =>
        rw [leave_atRoot hs]
        exact errors_report rfl place s
      | cons frame outer =>
        have hframe : frame.scope = .block := by rw [← top_cons hs, htop]
        rw [leave_top hs hframe, Scopes.blocks_cons_block outer hframe]
        simp [isStray, errors]
    next hclose =>
      split
      next hc =>
        subst hc
        exact errors_report rfl place s
      next =>
        cases hc : Scope.opened? c with
        | some scope => simp [isStray, hc, enter, errors]
        | none => simpa [isStray, hc, hlayout, hclose] using errors_report rfl place s

theorem blocks_read (h : s.Orderly) (place : μ) (c : Char) :
    (s.read place c).scopes.blocks = s.scopes.top.depth s.scopes.blocks c := by
  cases hcollects : s.scopes.top.collects with
  | true =>
    obtain ⟨frame, outer, hs, hframe⟩ := exists_frame_of_collects hcollects
    have hlower : s.scopes.blocks = Scopes.blocks outer := by
      rw [hs, Scopes.blocks_cons_of_ne outer]
      intro hblock
      rw [hblock] at hframe
      cases hframe
    have hcomment : frame.scope ≠ .comment := by
      intro hcomment
      rw [hcomment] at hframe
      cases hframe
    rw [hlower, top_cons hs, Scope.depth]
    rcases (reads_read h place c).scopes_of_collects hs hframe with
      ⟨hends, hscopes⟩ | ⟨rfl, hscopes⟩ | ⟨rfl, hscopes⟩ | ⟨hname, rfl, name, hscopes⟩
    · simp only [Scope.ends, Bool.or_eq_false_iff, Bool.and_eq_false_iff, beq_eq_false_iff_ne]
        at hends
      obtain ⟨⟨-, hclose⟩, hopen⟩ := hends
      rw [hscopes, hlower, if_neg fun hc => hopen.elim (· hc.1) (· hc.2),
        if_neg fun hc => hclose hc.2]
    · rw [hscopes]
      simp
    · rw [hscopes, Scopes.blocks_tail (h.nested.outer hs)]
      simp [hcomment]
    · rw [hscopes, hname, Scopes.blocks_cons_block outer rfl]
      rfl
  | false =>
    cases htop : s.scopes.top with
    | directive d => rw [htop] at hcollects; cases hcollects
    | blockName => rw [htop] at hcollects; cases hcollects
    | comment =>
      rw [read_comment htop]
      split
      · obtain ⟨frame, outer, hs, hframe⟩ := exists_frame htop Scope.noConfusion
        rw [leave_top hs hframe, hs,
          Scopes.blocks_cons_of_ne outer (by rw [hframe]; exact Scope.noConfusion)]
        simp [Scope.depth]
      · simp [Scope.depth]
    | block =>
      by_cases hlayout : isLayout c = true
      · rw [read_layout (by rw [htop]; exact Scope.noConfusion) place hlayout]
        have hclose : c ≠ '\x7d' := by
          rintro rfl
          cases hlayout
        simp [Scope.depth, hclose]
      · rw [read_block htop place (Bool.eq_false_iff.mpr hlayout), readInBlock]
        split
        next hc =>
          have hout : s.scopes.blocks - 1 = Scope.block.depth s.scopes.blocks c := by
            simp [Scope.depth, hc]
          rw [← hout, ← Scopes.blocks_tail (h.nested.blocks htop)]
          cases hs : s.scopes with
          | nil =>
            rw [leave_atRoot hs]
            exact congrArg Scopes.blocks hs
          | cons frame outer =>
            rw [leave_top hs (by rw [← top_cons hs, htop])]
            rfl
        next hclose =>
          have hsame : s.scopes.blocks = Scope.block.depth s.scopes.blocks c := by
            simp [Scope.depth, hclose]
          rw [← hsame]
          split
          · rfl
          · cases hc : Scope.opened? c with
            | some scope => exact Scopes.blocks_cons_of_ne _ (Scope.opened?_ne_block hc)
            | none => rfl

/-- An item that is not finished at the end of the source has the error that there is room for. -/
theorem length_looseEnds (h : s.Orderly) :
    s.looseEnds.length = if s.scopes.top.collects then s.room else 0 := by
  rw [looseEnds]
  cases hs : s.scopes with
  | nil => rfl
  | cons frame outer =>
    have houter : List.filter (fun f : Frame => f.scope.collects) outer = [] := by
      apply List.filter_eq_nil_iff.mpr
      intro f hf
      rw [h.nested.outer hs f hf]
      exact Bool.false_ne_true
    have htop : Scopes.top (frame :: outer) = frame.scope := rfl
    rw [List.filter_cons, houter, htop, room]
    cases hframe : frame.scope with
    | directive d => cases s.item.spoilt <;> simp [Scope.collects, unfinished?, hframe]
    | blockName => cases s.item.spoilt <;> simp [Scope.collects, unfinished?, hframe]
    | block => rfl
    | comment => rfl

theorem length_unfinished (spoilt : Bool) (scopes : Scopes) :
    (scopes.filterMap (unfinished? spoilt)).length =
      ((scopes.filter (·.scope.collects)).filterMap (unfinished? spoilt)).length +
        scopes.blocks := by
  induction scopes with
  | nil => rfl
  | cons frame outer ih =>
    rw [List.filterMap_cons, List.filter_cons]
    cases hframe : frame.scope with
    | block =>
      rw [Scopes.blocks_cons_block outer hframe]
      simp [unfinished?, hframe, Scope.collects, ih, Nat.add_assoc]
    | comment =>
      rw [Scopes.blocks_cons_of_ne outer (by rw [hframe]; exact Scope.noConfusion)]
      simp [unfinished?, hframe, Scope.collects, ih]
    | directive d =>
      rw [Scopes.blocks_cons_of_ne outer (by rw [hframe]; exact Scope.noConfusion)]
      cases spoilt <;> simp [unfinished?, hframe, Scope.collects, ih, Nat.add_right_comm]
    | blockName =>
      rw [Scopes.blocks_cons_of_ne outer (by rw [hframe]; exact Scope.noConfusion)]
      cases spoilt <;> simp [unfinished?, hframe, Scope.collects, ih, Nat.add_right_comm]

def endReports (place : μ) (faults : List Fault) : List (Diagnostic μ) :=
  faults.map fun f => ⟨.fault f, some place, .block⟩

theorem errorCount_endReports (place : μ) (faults : List Fault) :
    Diagnostic.errorCount (endReports place faults) = faults.length := by
  rw [Diagnostic.errorCount, endReports, List.countP_map]
  exact List.countP_eq_length.mpr fun _ _ => rfl

theorem diagnostics_close (place : μ) (s : Scan μ) : (s.close place).diagnostics =
    s.diagnostics ++ endReports place (s.scopes.filterMap (unfinished? s.item.spoilt)) := by
  simp [close_eq, diagnostics, endReports]

theorem errors_close (place : μ) (s : Scan μ) :
    (s.close place).errors = s.errors + s.looseEnds.length + s.scopes.blocks := by
  rw [← errorCount_diagnostics, diagnostics_close, Diagnostic.errorCount, List.countP_append,
    ← Diagnostic.errorCount, ← Diagnostic.errorCount, errorCount_diagnostics,
    errorCount_endReports, length_unfinished, Nat.add_assoc]
  rfl

theorem errorCount_problemReports (s : Scan μ) :
    Diagnostic.errorCount s.problemReports =
      (s.draft.table.problems (s.draft.initial.map (·.1))).countP Problem.isFatal := by
  rw [problemReports, Diagnostic.errorCount, List.countP_map]
  apply List.countP_congr
  intro p _
  cases hfatal : p.isFatal <;>
    simp [Diagnostic.isError, Diagnostic.severity, Cause.severity, hfatal]

end Scan

theorem readSource_concat (front : List Char) (c : Char) :
    readSource (front ++ [c]) = (readSource front).read (Mark.origin.after front).here c :=
  readSource_append front [c]

theorem scopes_readSource_append (front rest : List Char) :
    (readSource (front ++ rest)).scopes.top = rest.foldl Scope.next (readSource front).scopes.top ∧
      (readSource (front ++ rest)).scopes.blocks =
        (readSource front).scopes.top.openBlocks (readSource front).scopes.blocks rest := by
  induction rest generalizing front with
  | nil =>
    rw [List.append_nil]
    exact ⟨rfl, rfl⟩
  | cons c rest ih =>
    have horderly := orderly_readSource front
    have hrest := ih (front ++ [c])
    rwa [readSource_concat, Scan.top_read horderly, Scan.blocks_read horderly, List.append_assoc]
      at hrest

theorem top_readSource (source : List Char) :
    (readSource source).scopes.top = Scope.atEnd source :=
  (scopes_readSource_append [] source).1

theorem blocks_readSource (source : List Char) :
    (readSource source).scopes.blocks = sourceOpenBlocks source :=
  (scopes_readSource_append [] source).2

theorem atEnd_concat (front : List Char) (c : Char) :
    Scope.atEnd (front ++ [c]) = (Scope.atEnd front).next c := by
  simp [Scope.atEnd]

theorem sourceOpenBlocks_concat (front : List Char) (c : Char) :
    sourceOpenBlocks (front ++ [c]) = (Scope.atEnd front).depth (sourceOpenBlocks front) c := by
  rw [← blocks_readSource, readSource_concat, Scan.blocks_read (orderly_readSource front),
    top_readSource, blocks_readSource]

theorem logs_readSource (front text : List Char) :
    (readSource front).Logs (readSource (front ++ text)) := by
  rw [readSource_append]
  exact Scan.logs_readAll (orderly_readSource front) _

/-- What is reported about a part of a source: while it is read, and where it is left unfinished. -/
def Passage.reports (source : List Char) (p : Passage) : List (Diagnostic Mark) :=
  let read := readSource (p.front ++ p.text)
  read.diagnostics.drop (readSource p.front).diagnostics.length ++
    if p.front ++ p.text = source then
      Scan.endReports (Mark.origin.after source) read.looseEnds
    else []

def Passage.errors (source : List Char) (p : Passage) : Nat :=
  Diagnostic.errorCount (p.reports source)

theorem Passage.reports_sublist {source : List Char} {p : Passage}
    (h : p.front ++ p.text <+: source) :
    (p.reports source).Sublist (compile source).diagnostics := by
  have hread : ((readSource (p.front ++ p.text)).diagnostics.drop
      (readSource p.front).diagnostics.length).Sublist (readSource source).diagnostics := by
    obtain ⟨back, rfl⟩ := h
    rw [(logs_readSource (p.front ++ p.text) back).diagnostics_eq]
    exact (List.drop_sublist _ _).trans (List.sublist_append_left _ _)
  have hend : (if p.front ++ p.text = source then Scan.endReports (Mark.origin.after source)
      (readSource (p.front ++ p.text)).looseEnds else []).Sublist
        (Scan.endReports (Mark.origin.after source) ((readSource source).scopes.filterMap
          (Scan.unfinished? (readSource source).item.spoilt))) := by
    split
    next hwhole =>
      rw [hwhole]
      exact (List.Sublist.filterMap _ List.filter_sublist).map _
    next => exact List.nil_sublist _
  rw [diagnostics_compile, Scan.verdict, scanSource_eq, Scan.diagnostics_close]
  exact (hread.append hend).trans (List.sublist_append_left _ _)

/-- The number of errors up to a place, with those of an item that the source leaves unfinished. -/
def errorsThrough (source front : List Char) : Nat :=
  (readSource front).errors + if front = source then (readSource front).looseEnds.length else 0

theorem Passage.errors_add (source : List Char) (p : Passage) :
    p.errors source + (readSource p.front).errors = errorsThrough source (p.front ++ p.text) := by
  have hread := (logs_readSource p.front p.text).errorCount_drop
  rw [errors, reports, errorsThrough, hread, Diagnostic.errorCount, List.countP_append,
    ← Diagnostic.errorCount, ← Diagnostic.errorCount]
  split
  · rw [Scan.errorCount_endReports]
    omega
  · rw [Nat.add_zero, Nat.add_comm]
    rfl

/-- What is known of the errors of a source when a part of it is read and the rest is to be read. -/
structure Accounted (source front rest : List Char) : Prop where
  total : errorsThrough source source =
    errorsThrough source (front ++ (Scope.atEnd front).remainder rest) +
      ((Scope.atEnd front).items front rest).countP (fun p => 0 < p.errors source) +
        ((Scope.atEnd front).strays (sourceOpenBlocks front) rest).length
  least : (readSource front).errors ≤
    errorsThrough source (front ++ (Scope.atEnd front).remainder rest)
  most : errorsThrough source (front ++ (Scope.atEnd front).remainder rest) ≤
    (readSource front).errors + if (Scope.atEnd front).collects then (readSource front).room else 0
  last : (Scope.atEnd front).collects = true → (Scope.atEnd source).collects = true →
    front ++ (Scope.atEnd front).remainder rest = source →
      errorsThrough source source = (readSource front).errors + (readSource front).room
  items : ∀ p ∈ (Scope.atEnd front).items front rest, p.errors source ≤ 1 ∧
    ((Scope.atEnd source).collects = true → p.front ++ p.text = source → p.errors source = 1)

section

variable {source front rest : List Char} {c : Char}

theorem errorsThrough_remainder (hne : front ≠ source)
    (hcollects : (Scope.atEnd front).collects = false) (rest : List Char) :
    errorsThrough source (front ++ (Scope.atEnd front).remainder rest) =
      (readSource front).errors := by
  rw [Scope.remainder_of_not_collects hcollects, List.append_nil, errorsThrough, if_neg hne,
    Nat.add_zero]

theorem errorsThrough_self (source : List Char) :
    errorsThrough source source = (readSource source).errors +
      if (Scope.atEnd source).collects then (readSource source).room else 0 := by
  rw [errorsThrough, if_pos rfl, Scan.length_looseEnds (orderly_readSource source), top_readSource]

theorem reads_concat (front : List Char) (c : Char) :
    Scan.Reads (Mark.origin.after front).here c (readSource front) (readSource (front ++ [c])) := by
  rw [readSource_concat]
  exact Scan.reads_read (orderly_readSource front) _ c

theorem Accounted.of_collects (h : Accounted source (front ++ [c]) rest)
    (hcollects : (Scope.atEnd front).collects = true) : Accounted source front (c :: rest) := by
  have hcost := (reads_concat front c).errors_of_collects (by rw [top_readSource]; exact hcollects)
  have hgrows := (reads_concat front c).logs.errors_le
  rw [top_readSource] at hcost
  obtain ⟨hbound, hkept⟩ := hcost
  have hblock : Scope.atEnd front ≠ .block := by
    intro hblock
    rw [hblock] at hcollects
    cases hcollects
  have hrest : front ++ (Scope.atEnd front).remainder (c :: rest) =
      front ++ [c] ++ (Scope.atEnd (front ++ [c])).remainder rest := by
    rw [Scope.remainder, if_pos hcollects, atEnd_concat, List.append_assoc]
    rfl
  have hitems : (Scope.atEnd front).items front (c :: rest) =
      (Scope.atEnd (front ++ [c])).items (front ++ [c]) rest := by
    rw [Scope.items, if_neg fun hc => hblock hc.1, atEnd_concat]
  have hstrays : (Scope.atEnd front).strays (sourceOpenBlocks front) (c :: rest) =
      (Scope.atEnd (front ++ [c])).strays (sourceOpenBlocks (front ++ [c])) rest := by
    rw [Scope.strays, if_neg fun hc => hblock hc.1, atEnd_concat, sourceOpenBlocks_concat]
  have hnext : (Scope.atEnd (front ++ [c])).collects = !(Scope.atEnd front).ends c := by
    rw [atEnd_concat, Scan.next_of_collects hcollects]
    cases (Scope.atEnd front).ends c with
    | true => rfl
    | false => exact hcollects
  have hmost := h.most
  constructor
  case total =>
    rw [hrest, hitems, hstrays]
    exact h.total
  case least =>
    rw [hrest]
    exact Nat.le_trans hgrows h.least
  case most =>
    rw [hrest, if_pos hcollects]
    cases hends : (Scope.atEnd front).ends c with
    | true =>
      rw [hnext, hends] at hmost
      exact Nat.le_trans hmost hbound
    | false =>
      rw [hnext, hends] at hmost
      rw [← hkept hends]
      exact hmost
  case last =>
    intro _ hsource hwhole
    rw [hrest] at hwhole
    cases hends : (Scope.atEnd front).ends c with
    | true =>
      -- The source would end where the item does, and so not within an item.
      rw [hends] at hnext
      rw [Scope.remainder_of_not_collects hnext, List.append_nil] at hwhole
      rw [hwhole, hsource] at hnext
      cases hnext
    | false =>
      rw [hends] at hnext
      rw [← hkept hends]
      exact h.last hnext hsource hwhole
  case items =>
    rw [hitems]
    exact h.items

theorem readSource_opener {scope : Scope} (hblock : Scope.atEnd front = .block)
    (hopener : Scope.opened? c = some scope) : readSource (front ++ [c]) =
      (readSource front).enter scope (Mark.origin.after front).here := by
  rw [readSource_concat, Scan.read_opener (by rw [top_readSource, hblock]) _ hopener]

theorem Accounted.of_opens (h : Accounted source (front ++ [c]) rest) (hne : front ≠ source)
    (hblock : Scope.atEnd front = .block) (hcollects : (Scope.block.next c).collects = true) :
    Accounted source front (c :: rest) := by
  have hnext : Scope.atEnd (front ++ [c]) = Scope.block.next c := by rw [atEnd_concat, hblock]
  have hopener := Scope.opened?_of_next hcollects
  have hread := readSource_opener hblock hopener
  have herrors : (readSource (front ++ [c])).errors = (readSource front).errors := by
    rw [hread]
    rfl
  have hroom : (readSource (front ++ [c])).room = 1 := by
    rw [hread]
    rfl
  have hstray : isStray (sourceOpenBlocks front) c = false := by simp [isStray, hopener]
  let item : Passage := ⟨front, c :: (Scope.block.next c).remainder rest⟩
  have hwhole : front ++ [c] ++ (Scope.atEnd (front ++ [c])).remainder rest =
      item.front ++ item.text := by
    rw [hnext, List.append_assoc]
    rfl
  have hitem := item.errors_add source
  have hitems : (Scope.atEnd front).items front (c :: rest) =
      item :: (Scope.atEnd (front ++ [c])).items (front ++ [c]) rest := by
    rw [Scope.items, hblock, if_pos ⟨rfl, hcollects⟩, hnext]
  have hstrays : (Scope.atEnd front).strays (sourceOpenBlocks front) (c :: rest) =
      (Scope.atEnd (front ++ [c])).strays (sourceOpenBlocks (front ++ [c])) rest := by
    rw [Scope.strays, if_neg fun hs => Bool.false_ne_true (hstray ▸ hs.2), atEnd_concat,
      sourceOpenBlocks_concat]
  have hidle : (Scope.atEnd front).collects = false := by rw [hblock]; rfl
  have hfront := errorsThrough_remainder hne hidle (c :: rest)
  obtain ⟨htotal, hleast, hmost, hlast, hothers⟩ := h
  rw [hwhole] at htotal hleast hmost hlast
  rw [hnext] at hlast
  rw [hnext, if_pos hcollects, hroom] at hmost
  rw [herrors] at hleast hmost hlast
  rw [hroom] at hlast
  change item.errors source + (readSource front).errors = _ at hitem
  constructor
  case total =>
    rw [hfront, hitems, hstrays, List.countP_cons]
    by_cases hpos : 0 < item.errors source
    · simp only [hpos, decide_true, if_true]
      omega
    · simp only [hpos, decide_false, if_false, Bool.false_eq_true]
      omega
  case least => exact Nat.le_of_eq hfront.symm
  case most => exact Nat.le_trans (Nat.le_of_eq hfront) (Nat.le_add_right _ _)
  case last =>
    intro hopen
    rw [hblock] at hopen
    cases hopen
  case items =>
    intro p hp
    rw [hitems] at hp
    rcases List.mem_cons.mp hp with rfl | hp
    · refine ⟨by omega, ?_⟩
      intro hsource heq
      have hthrough := hlast hcollects hsource heq
      rw [heq] at hitem
      omega
    · exact hothers p hp

theorem errors_concat (hcollects : (Scope.atEnd front).collects = false) (c : Char) :
    (readSource (front ++ [c])).errors = (readSource front).errors +
      if Scope.atEnd front = .block ∧ isStray (sourceOpenBlocks front) c then 1 else 0 := by
  rw [readSource_concat]
  cases htop : Scope.atEnd front with
  | directive d => rw [htop] at hcollects; cases hcollects
  | blockName => rw [htop] at hcollects; cases hcollects
  | comment =>
    rw [Scan.errors_read_comment (by rw [top_readSource, htop])]
    simp
  | block =>
    rw [Scan.errors_read_block (by rw [top_readSource, htop]), blocks_readSource]
    simp

theorem Accounted.of_passes (h : Accounted source (front ++ [c]) rest) (hne : front ≠ source)
    (hcollects : (Scope.atEnd front).collects = false)
    (hopens : ((Scope.atEnd front).next c).collects = false) :
    Accounted source front (c :: rest) := by
  have herrors := errors_concat hcollects c
  have hnext : (Scope.atEnd (front ++ [c])).collects = false := by rw [atEnd_concat, hopens]
  have hitems : (Scope.atEnd front).items front (c :: rest) =
      (Scope.atEnd (front ++ [c])).items (front ++ [c]) rest := by
    rw [Scope.items, if_neg fun hc => Bool.false_ne_true (hopens ▸ hc.2), atEnd_concat]
  have hfront := errorsThrough_remainder hne hcollects (c :: rest)
  -- No item is being read, so the two bounds are the same.
  have hthrough : errorsThrough source (front ++ [c] ++
      (Scope.atEnd (front ++ [c])).remainder rest) = (readSource (front ++ [c])).errors := by
    have hmost := h.most
    rw [hnext] at hmost
    exact Nat.le_antisymm hmost h.least
  have htotal := h.total
  rw [hthrough, herrors] at htotal
  constructor
  case total =>
    rw [hfront, hitems, htotal, Scope.strays, ← atEnd_concat,
      ← sourceOpenBlocks_concat]
    split
    · rw [List.length_cons]
      omega
    · omega
  case least => exact Nat.le_of_eq hfront.symm
  case most => exact Nat.le_trans (Nat.le_of_eq hfront) (Nat.le_add_right _ _)
  case last =>
    intro hopen
    rw [hcollects] at hopen
    cases hopen
  case items =>
    rw [hitems]
    exact h.items

theorem accounted (front : List Char) (h : front ++ rest = source) :
    Accounted source front rest := by
  -- On the text that is still to be read: the item that is being read goes on in it.
  induction rest generalizing front with
  | nil =>
    rw [List.append_nil] at h
    subst h
    constructor
    case total => simp [Scope.remainder, Scope.items, Scope.strays]
    case least => simp [Scope.remainder, errorsThrough]
    case most => simp [Scope.remainder, errorsThrough_self]
    case last =>
      intro hcollects _ _
      rw [errorsThrough_self, if_pos hcollects]
    case items => exact fun p hp => absurd hp List.not_mem_nil
  | cons c rest ih =>
    have hnext := ih (front ++ [c]) (by rw [List.append_assoc]; exact h)
    have hne : front ≠ source := by
      rintro rfl
      simp at h
    cases hcollects : (Scope.atEnd front).collects with
    | true => exact hnext.of_collects hcollects
    | false =>
      cases hopens : ((Scope.atEnd front).next c).collects with
      | false => exact hnext.of_passes hne hcollects hopens
      | true =>
        have hblock : Scope.atEnd front = .block := Scope.block_of_next hcollects hopens
        exact hnext.of_opens hne hblock (by rwa [hblock] at hopens)

end

theorem errorCount_compile (source : List Char) :
    (compile source).errorCount = errorsThrough source source + sourceOpenBlocks source +
      Diagnostic.errorCount (scanSource source).problemReports := by
  have hscan : Diagnostic.errorCount (scanSource source).diagnostics =
      errorsThrough source source + sourceOpenBlocks source := by
    rw [Scan.errorCount_diagnostics, scanSource_eq, Scan.errors_close, blocks_readSource,
      errorsThrough, if_pos rfl]
  rw [Compiled.errorCount, diagnostics_compile, Scan.verdict, Diagnostic.errorCount,
    List.countP_append, ← Diagnostic.errorCount, ← Diagnostic.errorCount, hscan]

theorem draft_scanSource (source : List Char) :
    (scanSource source).draft = (readSource source).draft := by
  rw [scanSource_eq, Scan.draft_close]

theorem errorCount_newline {source : List Char} (h : Scope.atEnd source = .comment) :
    (compile (source ++ ['\n'])).errorCount = (compile source).errorCount := by
  have htop : (readSource source).scopes.top = .comment := by rw [top_readSource, h]
  have hend : Scope.atEnd (source ++ ['\n']) = .block := by rw [atEnd_concat, h]; rfl
  have herrors : (readSource (source ++ ['\n'])).errors = (readSource source).errors := by
    rw [readSource_concat, Scan.errors_read_comment htop]
  have hblocks : sourceOpenBlocks (source ++ ['\n']) = sourceOpenBlocks source := by
    rw [sourceOpenBlocks_concat, h]
    rfl
  have hdraft : (readSource (source ++ ['\n'])).draft = (readSource source).draft := by
    obtain ⟨frame, outer, hs, hframe⟩ := Scan.exists_frame htop Scope.noConfusion
    rw [readSource_concat, Scan.read_comment htop, if_pos rfl, Scan.leave_top hs hframe]
  rw [errorCount_compile, errorCount_compile, errorsThrough_self, errorsThrough_self, hend, h,
    herrors, hblocks, Scan.errorCount_problemReports, Scan.errorCount_problemReports,
    draft_scanSource, draft_scanSource, hdraft]
  rfl

/--
The errors of a source are those of its items, each of which has one at most; one for each stray
character and for each block that is not closed; and at most one that is found in the table as a
whole. An item in which the source ends has an error, and a comment in which it ends has none.
-/
theorem compile_errorCount (source : List Char) :
    (compile source).errorCount =
        (sourceItems source).countP (fun p => 0 < p.errors source) +
            (sourceStrays source).length + sourceOpenBlocks source +
          Diagnostic.errorCount (scanSource source).problemReports ∧
      ((sourceItems source).Nodup ∧ ∀ p, p ∈ sourceItems source ↔ p.IsItem source) ∧
      (∀ p ∈ sourceItems source, p.errors source ≤ 1 ∧
        (p.reports source).Sublist (compile source).diagnostics) ∧
      Diagnostic.errorCount (scanSource source).problemReports ≤ 1 ∧
      ((Scope.atEnd source).collects = true →
        (∃ p ∈ sourceItems source, p.front ++ p.text = source) ∧
          ∀ p ∈ sourceItems source, p.front ++ p.text = source → p.errors source = 1) ∧
      (Scope.atEnd source = .comment →
        (compile (source ++ ['\n'])).errorCount = (compile source).errorCount) := by
  obtain ⟨htotal, -, hmost, -, hitems⟩ := accounted [] (List.nil_append source)
  have hnone : errorsThrough source ([] ++ (Scope.atEnd []).remainder source) = 0 :=
    Nat.le_zero.mp hmost
  refine ⟨?_, ⟨nodup_sourceItems source, fun p => mem_sourceItems⟩, ?_, ?_, ?_,
    errorCount_newline⟩
  · rw [errorCount_compile, htotal, hnone, Nat.zero_add]
    rfl
  · intro p hp
    exact ⟨(hitems p hp).1, Passage.reports_sublist (mem_sourceItems.mp hp).within⟩
  · rw [Scan.errorCount_problemReports, draft_scanSource]
    exact Table.countP_isFatal_problems (sound_readSource source).draft.table.toConsistent _
  · intro hopen
    exact ⟨exists_item_of_atEnd hopen, fun p hp => (hitems p hp).2 hopen⟩

/-- A tape with two faults, a stray semicolon, a block that stays open with an unfinished item in it,
and no initial state. -/
example :
    let source := ['&', ':', '+', ';', ';', ':', 'b', '\x7b', '*', 'q']
    (sourceItems source).map (fun p => (p.text, p.errors source)) =
        [(['&', ':', '+', ';'], 1), ([':', 'b', '\x7b'], 0), (['*', 'q'], 1)] ∧
      sourceStrays source = [';'] ∧ sourceOpenBlocks source = 1 ∧
      (compile source).errorCount = 5 := by decide

end TapeMachine
