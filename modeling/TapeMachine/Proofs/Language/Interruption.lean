import TapeMachine.Proofs.Language.Recovery
import TapeMachine.Proofs.Language.Reports
/-!
# The end of a block inside an item

A brace that ends a block inside an item ends both: the item is dropped, and the block around it is
closed if there is one (`readAll_interrupted`). Either the item was spoilt already, or the brace is
a mismatch, so there is one error and no more. What follows is read as if the block had been closed
before the item.
-/
namespace TapeMachine

namespace Scan

variable {μ : Type}

private theorem read_brace {s : Scan μ} (h : s.Orderly) {frame : Frame} {outer : Scopes}
    (hs : s.scopes = frame :: outer) (hcollects : frame.scope.collects = true) (place : μ) :
    s.read place '\x7d' =
      if s.item.spoilt then s.back outer.tail place
      else (s.report (.fault (.strayClose (.mismatch .block frame.scope))) place).back
        outer.tail place := by
  have htop : s.scopes.top = frame.scope := top_cons hs
  have hread : s.read place '\x7d' = s.interrupt frame.scope place := by
    rw [read, htop]
    cases hframe : frame.scope with
    | directive d => rfl
    | blockName => rfl
    | block => rw [hframe] at hcollects; cases hcollects
    | comment => rw [hframe] at hcollects; cases hcollects
  rw [hread, interrupt_eq hs hcollects (h.nested.outer hs)]

/-- An item cut off by the end of a block costs one error and takes the innermost block along. -/
theorem readAll_interrupted {s : Scan μ} (h : s.Orderly) (htop : s.scopes.top = .block)
    (start stop : μ) {opener : Char} {scope : Scope} (hopener : Scope.opened? opener = some scope)
    (hcollects : scope.collects = true) (body : List (μ × Char))
    (hbody : ∀ p ∈ body, scope.ends p.2 = false) :
    ∃ e, e.isError = true ∧ s.readAll ((start, opener) :: (body ++ [(stop, '\x7d')])) =
      { s with scopes := s.scopes.tail, item := Item.fresh stop, log := e :: s.log } := by
  have hopen := read_opener htop start hopener
  have hentered : (s.enter scope start).Orderly := by
    rw [← hopen]
    exact (reads_read h start opener).orderly h
  obtain ⟨item, log, hread, hcollected⟩ := readAll_body hentered rfl hcollects body hbody
  have horderly : ({ s.enter scope start with item, log } : Scan μ).Orderly := by
    rw [← hread]
    exact orderly_readAll hentered body
  have hwhole : s.readAll ((start, opener) :: (body ++ [(stop, '\x7d')])) =
      ({ s.enter scope start with item, log } : Scan μ).read stop '\x7d' := by
    rw [readAll_cons, readAll_append, hopen, hread]
    rfl
  rw [hwhole, read_brace horderly rfl hcollects]
  rcases hcollected with ⟨hlog, hspoilt⟩ | ⟨-, hspoilt, e, he, hlog⟩
  · have hsound : item.spoilt = false := hspoilt
    refine ⟨⟨.fault (.strayClose (.mismatch .block scope)), some stop, scope⟩, rfl, ?_⟩
    simp only [hsound, hlog, Bool.false_eq_true, if_false]
    rfl
  · refine ⟨e, he, ?_⟩
    simp only [hspoilt, hlog, if_true]
    rfl

theorem read_close {s : Scan μ} {frame : Frame} {outer : Scopes} (hs : s.scopes = frame :: outer)
    (hframe : frame.scope = .block) (place : μ) :
    s.read place '\x7d' = { s with scopes := outer } := by
  rw [read_block (by rw [top_cons hs, hframe]) place rfl]
  exact leave_top hs hframe place

theorem verdict_agree {s t : Scan μ} (h : s.core = t.core) (place place' : μ) :
    ∃ last, (s.close place).verdict.map Diagnostic.gist = s.gists ++ last ∧
      (t.close place').verdict.map Diagnostic.gist = t.gists ++ last := by
  have hscopes := scopes_eq_of_core h
  have hspoilt : s.item.spoilt = t.item.spoilt := congrArg (fun u : Scan Unit => u.item.spoilt) h
  obtain ⟨htable, -, -, hinitial, -⟩ := draft_eq_of_core h
  have hverdict : ∀ (u : Scan μ) (place : μ), (u.close place).verdict.map Diagnostic.gist =
      u.gists ++ ((u.scopes.filterMap (unfinished? u.item.spoilt)).map
          (fun f => (Severity.error, f.message, Scope.block)) ++
        (u.draft.table.problems (u.draft.initial.map Prod.fst)).map
          fun p => ((Cause.problem p).severity, p.message, Scope.block)) := by
    intro u place
    rw [close_eq]
    simp only [verdict, diagnostics, problemReports, gists, List.reverse_append,
      List.reverse_reverse, List.map_append, List.map_map, List.append_assoc]
    rfl
  refine ⟨_, hverdict s place, ?_⟩
  rw [hverdict t place', hscopes, hspoilt, htable, hinitial]

end Scan

/-- At the root no block is open, so that its end would be an error. -/
theorem readSource_closed (front : List Char) (htop : (readSource front).scopes.top = .block) :
    readSource (if (readSource front).scopes.path = [] then front else front ++ ['\x7d']) =
      { readSource front with scopes := (readSource front).scopes.tail } := by
  have hblocks := (orderly_readSource front).nested.blocks htop
  cases hs : (readSource front).scopes with
  | nil =>
    rw [Scopes.path, if_pos rfl, List.tail_nil, ← hs]
  | cons frame outer =>
    have hframe : frame.scope = .block := hblocks frame (hs ▸ List.mem_cons_self)
    rw [if_neg (Scopes.path_ne_nil outer hframe), readSource_append]
    exact Scan.read_close hs hframe _

private theorem readSource_item (front body : List Char) (opener : Char)
    (htop : (readSource front).scopes.top = .block) (hopener : opener ∈ itemOpeners)
    (hbody : ∀ c ∈ body, c ≠ ';' ∧ c ≠ '\x7d' ∧ (opener = ':' → c ≠ '\x7b')) :
    ∃ e stop, e.isError = true ∧ readSource (front ++ (opener :: (body ++ ['\x7d']))) =
      { readSource front with scopes := (readSource front).scopes.tail, item := Item.fresh stop,
                              log := e :: (readSource front).log } := by
  obtain ⟨scope, hscope, hcollects, hname⟩ := opened_of_mem hopener
  let gap := Mark.origin.after front
  have hends : ∀ p ∈ (gap.past opener).locate body, scope.ends p.2 = false := fun p hp =>
    ends_of_unfinished hname (hbody p.2 (Mark.snd_mem_of_mem_locate hp))
  obtain ⟨e, he, hitem⟩ := Scan.readAll_interrupted (orderly_readSource front) htop gap.here
    ((gap.past opener).after body).here hscope hcollects _ hends
  rw [← readSource_append_item] at hitem
  exact ⟨e, _, he, hitem⟩

/--
Recovery at the end of a block inside an item is exact. The item begins in a block with one of the
openers and is unfinished at the brace; whether it is faulty does not matter. If a block is open
around it, the brace closes that block as it would have done before the item, and otherwise nothing
is left of item and brace. In the reports one error is added to those before the item, there and at
the end of the source.
-/
theorem readSource_interrupted (front body back : List Char) (opener : Char)
    (htop : (readSource front).scopes.top = .block) (hopener : opener ∈ itemOpeners)
    (hbody : ∀ c ∈ body, c ≠ ';' ∧ c ≠ '\x7d' ∧ (opener = ':' → c ≠ '\x7b')) :
    let source := front ++ (opener :: (body ++ ['\x7d'])) ++ back
    let reference :=
      (if (readSource front).scopes.path = [] then front else front ++ ['\x7d']) ++ back
    let read := readSource source
    let expected := readSource reference
    read.draft.table = expected.draft.table ∧ read.draft.alphabet = expected.draft.alphabet ∧
      read.draft.tape = expected.draft.tape ∧
      read.draft.initial.map Prod.fst = expected.draft.initial.map Prod.fst ∧
      read.draft.halts = expected.draft.halts ∧ read.scopes = expected.scopes ∧
      ∃ e later last, e.1 = Severity.error ∧
        expected.gists = (readSource front).gists ++ later ∧
        read.gists = (readSource front).gists ++ e :: later ∧
        (compile reference).diagnostics.map Diagnostic.gist = expected.gists ++ last ∧
        (compile source).diagnostics.map Diagnostic.gist = read.gists ++ last := by
  intro source reference read expected
  have hidle : (readSource front).item.Idle :=
    (orderly_readSource front).idle (by rw [htop]; rfl)
  obtain ⟨e, stop, he, hitem⟩ := readSource_item front body opener htop hopener hbody
  let closed := if (readSource front).scopes.path = [] then front else front ++ ['\x7d']
  have hclosed : readSource closed =
      { readSource front with scopes := (readSource front).scopes.tail } :=
    readSource_closed front htop
  have hcore : (readSource (front ++ (opener :: (body ++ ['\x7d'])))).core =
      (readSource closed).core := by
    rw [hitem, hclosed]
    exact Scan.core_eq_of_idle
      (s := { readSource front with scopes := (readSource front).scopes.tail }) hidle _ _
  obtain ⟨hsame, later, hread, hexpected⟩ := Scan.readAll_agree hcore
    (Mark.origin.after (front ++ (opener :: (body ++ ['\x7d'])))) (Mark.origin.after closed) back
  rw [← readSource_append, ← readSource_append] at hsame
  rw [← readSource_append] at hread hexpected
  obtain ⟨last, hlast, hlast'⟩ :=
    Scan.verdict_agree hsame (Mark.origin.after source) (Mark.origin.after reference)
  obtain ⟨htable, halphabet, htape, hinitial, hhalts⟩ := Scan.draft_eq_of_core hsame
  refine ⟨htable, halphabet, htape, hinitial, hhalts, Scan.scopes_eq_of_core hsame,
    e.gist, later, last, beq_iff_eq.mp he, ?_, ?_, hlast', hlast⟩
  · rw [hclosed] at hexpected
    exact hexpected
  · have hgists : (readSource (front ++ (opener :: (body ++ ['\x7d'])))).gists =
        (readSource front).gists ++ [e.gist] := by
      rw [hitem]
      simp only [Scan.gists, Scan.diagnostics, List.reverse_cons, List.map_append, List.map_cons,
        List.map_nil]
    rw [hread, hgists, List.append_assoc]
    rfl

/-- A transition that is faulty before the brace takes only the innermost of two blocks along. -/
theorem readSource_interrupted_transition :
    let front := [':', 'a', '\x7b', ':', 'b', '\x7b']
    let back := ['*', 'q', ';']
    (readSource front).scopes.path = [['a'], ['b']] ∧
      (readSource (front ++ ['$', '#', '\x7d'] ++ back)).draft.table =
        (readSource (front ++ ['\x7d'] ++ back)).draft.table ∧
      ∃ e later, e.1 = Severity.error ∧
        (readSource (front ++ ['$', '#', '\x7d'] ++ back)).gists =
          (readSource front).gists ++ e :: later := by
  have hbody : ∀ c ∈ ['#'], c ≠ ';' ∧ c ≠ '\x7d' ∧ ('$' = ':' → c ≠ '\x7b') := by
    intro c hc
    rw [List.mem_singleton.mp hc]
    decide
  obtain ⟨htable, -, -, -, -, -, e, later, -, he, -, hgists, -⟩ :=
    readSource_interrupted [':', 'a', '\x7b', ':', 'b', '\x7b'] ['#'] ['*', 'q', ';'] '$'
      (by decide) (by decide) hbody
  exact ⟨by decide, htable, e, later, he, hgists⟩

end TapeMachine
