import TapeMachine.Proofs.Language.Recast
/-!
# Recovery from a malformed item

An item that begins in a block and ends with a semicolon is either applied as a whole, with notices
only, or it leaves the scan as it was but for one error (`readAll_item`). What follows a malformed
item is therefore read as if the item had not been there.
-/
namespace TapeMachine

namespace Mark

theorem locate_concat (gap : Mark) (source : List Char) (c : Char) :
    gap.locate (source ++ [c]) = gap.locate source ++ [((gap.after source).here, c)] :=
  locate_append gap source [c]

theorem snd_mem_of_mem_locate {gap : Mark} {source : List Char} {p : Mark × Char}
    (h : p ∈ gap.locate source) : p.2 ∈ source := by
  induction source generalizing gap with
  | nil => cases h
  | cons c source ih =>
    rcases List.mem_cons.mp h with rfl | h
    · exact List.mem_cons_self
    · exact List.mem_cons_of_mem c (ih h)

end Mark

theorem readSource_append_item (front body : List Char) (opener stop : Char) :
    let inside := (Mark.origin.after front).past opener
    readSource (front ++ (opener :: (body ++ [stop]))) =
      (readSource front).readAll (((Mark.origin.after front).here, opener) ::
        (inside.locate body ++ [((inside.after body).here, stop)])) := by
  intro inside
  rw [← Mark.locate_concat]
  exact readSource_append front _

namespace Scan

variable {μ : Type}

def Collects (s : Scan μ) (item : Item μ) (log : List (Diagnostic μ)) : Prop :=
  (log = s.log ∧ item.spoilt = s.item.spoilt) ∨
    (s.item.spoilt = false ∧ item.spoilt = true ∧ ∃ e, e.isError = true ∧ log = e :: s.log)

private theorem Reads.collected {place : μ} {c : Char} {s t : Scan μ} (hr : Reads place c s t)
    {frame : Frame} {outer : Scopes} (hs : s.scopes = frame :: outer)
    (hcollects : frame.scope.collects = true) (hends : frame.scope.ends c = false) :
    ∃ item log, t = { s with item, log } ∧ s.Collects item log := by
  have hblock : s.scopes.top ≠ .block := by
    intro hb
    rw [← top_cons hs, hb] at hcollects
    cases hcollects
  have hsame : ∀ {frame' outer'}, s.scopes = frame' :: outer' → frame' = frame := by
    intro frame' outer' hs'
    rw [hs] at hs'
    exact (List.cons.inj hs').1.symm
  have hterm : c ≠ ';' := by
    rintro rfl
    cases hends
  have hclose : c ≠ '\x7d' := by
    rintro rfl
    cases hends
  have hopen : frame.scope = .blockName → c ≠ '\x7b' := by
    rintro hname rfl
    rw [hname] at hends
    cases hends
  cases hr with
  | passes => exact ⟨s.item, s.log, rfl, .inl ⟨rfl, rfl⟩⟩
  | opens scope htop => exact absurd htop hblock
  | strays f htop => exact absurd htop hblock
  | closes frame' outer' hs' hframe' =>
    rw [hsame hs', hcollects] at hframe'
    cases hframe'
  | collects => exact ⟨s.item.push c, s.log, rfl, .inl ⟨rfl, rfl⟩⟩
  | separates => exact ⟨s.item.separate, s.log, rfl, .inl ⟨rfl, rfl⟩⟩
  | rejects f _ _ hsound =>
    exact ⟨{ s.item with spoilt := true }, (s.reject f place).log, rfl,
      .inr ⟨hsound, rfl, _, rfl, rfl⟩⟩
  | discards _ _ _ _ hc => exact absurd hc hterm
  | commits _ _ _ _ _ hc => exact absurd hc hterm
  | abandons _ _ _ _ hc => exact absurd hc hterm
  | names _ _ hs' hframe' hc => exact absurd hc (hopen (hsame hs' ▸ hframe'))
  | numbers _ _ hs' hframe' hc => exact absurd hc (hopen (hsame hs' ▸ hframe'))
  | blanks _ _ hs' hframe' hc => exact absurd hc (hopen (hsame hs' ▸ hframe'))
  | drops _ _ _ _ hc => exact absurd hc hclose
  | interrupts _ _ _ _ hc => exact absurd hc hclose

theorem readAll_body {s : Scan μ} (h : s.Orderly) {frame : Frame} {outer : Scopes}
    (hs : s.scopes = frame :: outer) (hcollects : frame.scope.collects = true)
    (body : List (μ × Char)) (hbody : ∀ p ∈ body, frame.scope.ends p.2 = false) :
    ∃ item log, s.readAll body = { s with item, log } ∧ s.Collects item log := by
  -- By induction on the text that is collected: it changes only the item and the log.
  induction body generalizing s with
  | nil => exact ⟨s.item, s.log, rfl, .inl ⟨rfl, rfl⟩⟩
  | cons p body ih =>
    have hr := reads_read h p.1 p.2
    obtain ⟨item₁, log₁, hread, hfirst⟩ :=
      hr.collected hs hcollects (hbody p List.mem_cons_self)
    have horderly := hr.orderly h
    rw [hread] at horderly
    obtain ⟨item, log, hrest, hothers⟩ :=
      ih horderly hs (fun q hq => hbody q (List.mem_cons_of_mem p hq))
    refine ⟨item, log, ?_, ?_⟩
    · rw [readAll_cons, hread, hrest]
    rcases hfirst with ⟨hlog, hspoilt⟩ | ⟨hsound, hspoilt, e, he, hlog⟩
    · rcases hothers with ⟨hlog', hspoilt'⟩ | ⟨hsound', hspoilt', e, he, hlog'⟩
      · exact .inl ⟨hlog'.trans hlog, hspoilt'.trans hspoilt⟩
      · exact .inr ⟨hspoilt.symm.trans hsound', hspoilt', e, he, hlog'.trans (by rw [hlog])⟩
    · rcases hothers with ⟨hlog', hspoilt'⟩ | ⟨hsound', -⟩
      · exact .inr ⟨hsound, hspoilt'.trans hspoilt, e, he, hlog'.trans hlog⟩
      · exact Bool.noConfusion (hspoilt.symm.trans hsound')

theorem read_opener {s : Scan μ} (htop : s.scopes.top = .block) (place : μ) {c : Char}
    {scope : Scope} (hc : Scope.opened? c = some scope) :
    s.read place c = s.enter scope place := by
  have hlayout : isLayout c = false := by
    rw [Bool.eq_false_iff]
    intro hl
    simp only [isLayout, Bool.or_eq_true, beq_iff_eq] at hl
    rcases hl with ((rfl | rfl) | rfl) | rfl <;> cases hc
  have hclose : c ≠ '\x7d' := by
    rintro rfl
    cases hc
  have hterm : c ≠ ';' := by
    rintro rfl
    cases hc
  simp only [read, htop, hlayout, readInBlock, hclose, hterm, hc, if_false, Bool.false_eq_true]

private theorem read_terminator {s : Scan μ} {frame : Frame} {outer : Scopes}
    (hs : s.scopes = frame :: outer) (hcollects : frame.scope.collects = true) (place : μ) :
    (s.item.spoilt = true ∧ s.read place ';' = s.back outer place) ∨
    (s.item.spoilt = false ∧ ∃ e, e.isError = true ∧
      s.read place ';' = { s.back outer place with log := e :: s.log }) ∨
    (s.item.spoilt = false ∧ ∃ d draft notices, frame.scope = .directive d ∧
      s.draft.apply outer.path d s.item.start s.item.allFields = .ok (draft, notices) ∧
      s.read place ';' =
        { s.back outer place with draft }.reportAll notices s.item.start) := by
  have htop : s.scopes.top = frame.scope := top_cons hs
  cases hframe : frame.scope with
  | directive d =>
    have hread : s.read place ';' = s.commit d place := by
      rw [read, htop, hframe]
      rfl
    rw [hread, commit_eq hs hframe]
    cases hspoilt : s.item.spoilt with
    | true => exact .inl ⟨rfl, rfl⟩
    | false =>
      right
      cases happly : s.draft.apply outer.path d s.item.start s.item.allFields with
      | error r => exact .inl ⟨rfl, _, rfl, rfl⟩
      | ok result => exact .inr ⟨rfl, d, result.1, result.2, rfl, happly, rfl⟩
  | blockName =>
    have hread : s.read place ';' = s.abandonName place := by
      rw [read, htop, hframe]
      rfl
    rw [hread, abandonName_eq hs hframe]
    cases hspoilt : s.item.spoilt with
    | true => exact .inl ⟨rfl, rfl⟩
    | false => exact .inr (.inl ⟨rfl, _, rfl, rfl⟩)
  | block => rw [hframe] at hcollects; cases hcollects
  | comment => rw [hframe] at hcollects; cases hcollects

/--
An item read in a block up to its semicolon either costs one error and changes nothing else, or it is
a directive that is applied as a whole, with notices only.
-/
theorem readAll_item {s : Scan μ} (h : s.Orderly) (htop : s.scopes.top = .block) (start stop : μ)
    {opener : Char} {scope : Scope} (hopener : Scope.opened? opener = some scope)
    (hcollects : scope.collects = true) (body : List (μ × Char))
    (hbody : ∀ p ∈ body, scope.ends p.2 = false) :
    (∃ e, e.isError = true ∧ s.readAll ((start, opener) :: (body ++ [(stop, ';')])) =
      { s with item := Item.fresh stop, log := e :: s.log }) ∨
    (∃ d place fields draft notices, scope = .directive d ∧
      s.draft.apply s.scopes.path d place fields = .ok (draft, notices) ∧
      s.readAll ((start, opener) :: (body ++ [(stop, ';')])) =
        { s with item := Item.fresh stop, draft }.reportAll notices place) := by
  have hopen := read_opener htop start hopener
  have hentered : (s.enter scope start).Orderly := by
    rw [← hopen]
    exact (reads_read h start opener).orderly h
  obtain ⟨item, log, hread, hcollected⟩ := readAll_body hentered rfl hcollects body hbody
  have hwhole : s.readAll ((start, opener) :: (body ++ [(stop, ';')])) =
      ({ s.enter scope start with item, log } : Scan μ).read stop ';' := by
    rw [readAll_cons, readAll_append, hopen, hread]
    rfl
  rw [hwhole]
  have hend := read_terminator (s := { s.enter scope start with item, log }) rfl hcollects stop
  rcases hcollected with ⟨hlog, hspoilt⟩ | ⟨-, hspoilt, e, he, hlog⟩
  · have hsound : item.spoilt = false := hspoilt
    rcases hend with ⟨hspoilt', -⟩ | ⟨-, e, he, hend⟩ | ⟨-, d, draft, notices, hd, happly, hend⟩
    · exact Bool.noConfusion (hsound.symm.trans hspoilt')
    · refine .inl ⟨e, he, ?_⟩
      rw [hend, hlog]
      rfl
    · refine .inr ⟨d, item.start, item.allFields, draft, notices, hd, happly, ?_⟩
      rw [hend, hlog]
      rfl
  · rcases hend with ⟨-, hend⟩ | ⟨hsound, -⟩ | ⟨hsound, -⟩
    · refine .inl ⟨e, he, ?_⟩
      rw [hend, hlog]
      rfl
    · exact Bool.noConfusion (hspoilt.symm.trans hsound)
    · exact Bool.noConfusion (hspoilt.symm.trans hsound)

theorem errorCount_reportAll (notices : List Notice) (place : μ) (s : Scan μ) :
    Diagnostic.errorCount (s.reportAll notices place).diagnostics =
      Diagnostic.errorCount s.diagnostics := by
  have hnone : (notices.map fun n => (⟨.notice n, some place, s.scopes.top⟩ : Diagnostic μ)).countP
      Diagnostic.isError = 0 := by
    rw [List.countP_eq_zero]
    intro d hd
    obtain ⟨n, -, rfl⟩ := List.mem_map.mp hd
    exact Bool.false_ne_true
  rw [reportAll_eq, diagnostics, List.reverse_append, List.reverse_reverse, Diagnostic.errorCount,
    List.countP_append, hnone, Nat.add_zero]
  rfl

end Scan

def itemOpeners : List Char := ['&', '@', '$', '!', '~', '*', ':']

theorem opened_of_mem {opener : Char} (h : opener ∈ itemOpeners) :
    ∃ scope, Scope.opened? opener = some scope ∧ scope.collects = true ∧
      (scope = .blockName → opener = ':') := by
  simp only [itemOpeners, List.mem_cons, List.not_mem_nil, or_false] at h
  rcases h with rfl | rfl | rfl | rfl | rfl | rfl | rfl
  all_goals exact ⟨_, rfl, rfl, by simp⟩

theorem ends_of_unfinished {scope : Scope} {opener c : Char}
    (hname : scope = .blockName → opener = ':')
    (hc : c ≠ ';' ∧ c ≠ '\x7d' ∧ (opener = ':' → c ≠ '\x7b')) : scope.ends c = false := by
  obtain ⟨hterm, hclose, hopen⟩ := hc
  simp only [Scope.ends, Bool.or_eq_false_iff, Bool.and_eq_false_iff, beq_eq_false_iff_ne]
  refine ⟨⟨hterm, hclose⟩, ?_⟩
  by_cases hb : scope = .blockName
  · exact .inr (hopen (hname hb))
  · exact .inl hb

/--
A malformed item costs exactly one error and is otherwise as if it had not been there. The item
begins in a block with one of the openers and ends with its first semicolon; it holds no end of a
block, and no beginning of one if it opens as a block name.
-/
theorem readSource_malformed (front body back : List Char) (opener : Char)
    (htop : (readSource front).scopes.top = .block) (hopener : opener ∈ itemOpeners)
    (hbody : ∀ c ∈ body, c ≠ ';' ∧ c ≠ '\x7d' ∧ (opener = ':' → c ≠ '\x7b'))
    (herror : Diagnostic.errorCount (readSource front).diagnostics <
      Diagnostic.errorCount (readSource (front ++ (opener :: (body ++ [';'])))).diagnostics) :
    let whole := readSource (front ++ (opener :: (body ++ [';'])) ++ back)
    let without := readSource (front ++ back)
    whole.draft.table = without.draft.table ∧ whole.draft.alphabet = without.draft.alphabet ∧
      whole.draft.tape = without.draft.tape ∧
      whole.draft.initial.map Prod.fst = without.draft.initial.map Prod.fst ∧
      whole.draft.halts = without.draft.halts ∧ whole.scopes = without.scopes ∧
      ∃ e later, e.1 = Severity.error ∧ without.gists = (readSource front).gists ++ later ∧
        whole.gists = (readSource front).gists ++ e :: later := by
  intro whole without
  obtain ⟨scope, hscope, hcollects, hname⟩ := opened_of_mem hopener
  have hs := orderly_readSource front
  have hidle : (readSource front).item.Idle := hs.idle (by rw [htop]; rfl)
  let gap := Mark.origin.after front
  have hends : ∀ p ∈ (gap.past opener).locate body, scope.ends p.2 = false := fun p hp =>
    ends_of_unfinished hname (hbody p.2 (Mark.snd_mem_of_mem_locate hp))
  have hitem := Scan.readAll_item hs htop gap.here ((gap.past opener).after body).here hscope
    hcollects _ hends
  rw [← Mark.locate_concat] at hitem
  change (∃ e, _ ∧ (readSource front).readAll (gap.locate (opener :: (body ++ [';']))) = _) ∨
    (∃ d place fields draft notices, _ ∧ _ ∧
      (readSource front).readAll (gap.locate (opener :: (body ++ [';']))) = _) at hitem
  rw [← readSource_append] at hitem
  rcases hitem with ⟨e, he, hitem⟩ | ⟨d, place, fields, draft, notices, -, -, hitem⟩
  · have hcore := Scan.core_eq_of_idle hidle ((gap.past opener).after body).here
      (e :: (readSource front).log)
    rw [← hitem] at hcore
    obtain ⟨hsame, later, hwhole, hwithout⟩ := Scan.readAll_agree hcore
      (Mark.origin.after (front ++ (opener :: (body ++ [';'])))) gap back
    rw [← readSource_append, ← readSource_append] at hsame
    rw [← readSource_append] at hwhole hwithout
    obtain ⟨htable, halphabet, htape, hinitial, hhalts⟩ := Scan.draft_eq_of_core hsame
    refine ⟨htable, halphabet, htape, hinitial, hhalts, Scan.scopes_eq_of_core hsame,
      e.gist, later, ?_, hwithout, ?_⟩
    · exact beq_iff_eq.mp he
    · have hgists : (readSource (front ++ (opener :: (body ++ [';'])))).gists =
          (readSource front).gists ++ [e.gist] := by
        rw [hitem]
        simp only [Scan.gists, Scan.diagnostics, List.reverse_cons, List.map_append, List.map_cons,
          List.map_nil]
      rw [hwhole, hgists, List.append_assoc]
      rfl
  · rw [hitem, Scan.errorCount_reportAll] at herror
    exact absurd herror (Nat.lt_irrefl _)

/-- A tape with a symbol outside the alphabet, dropped between a declaration and its use. -/
theorem readSource_malformed_tape :
    let front := ['*', 'q', ';']
    let back := ['!', 'q', ';']
    (readSource (front ++ ['&', '0', ';'] ++ back)).draft.table =
        (readSource (front ++ back)).draft.table ∧
      ∃ e later, e.1 = Severity.error ∧
        (readSource (front ++ ['&', '0', ';'] ++ back)).gists =
          (readSource front).gists ++ e :: later := by
  have hbody : ∀ c ∈ ['0'], c ≠ ';' ∧ c ≠ '\x7d' ∧ ('&' = ':' → c ≠ '\x7b') := by
    intro c hc
    rw [List.mem_singleton.mp hc]
    decide
  obtain ⟨htable, -, -, -, -, -, e, later, he, -, hgists⟩ :=
    readSource_malformed ['*', 'q', ';'] ['0'] ['!', 'q', ';'] '&' (by decide) (by decide) hbody
      (by decide)
  exact ⟨htable, e, later, he, hgists⟩

end TapeMachine
