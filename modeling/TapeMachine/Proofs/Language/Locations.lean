import TapeMachine.Proofs.Language.Accounting
import TapeMachine.Proofs.Language.Excerpt
/-!
# Where diagnostics are located

A report is made at the character that is read, at the first character of the directive that it ends,
or at the end of the source. A directive about which something was reported reports nothing when it
ends, so reports are made in the order of their places. A place is told twice, by its mark and by
its excerpt, and the two agree (`compile_locations`).
-/
namespace TapeMachine

namespace Mark

def Within (source : List Char) (mark : Mark) : Prop :=
  ∃ before c after, source = before ++ c :: after ∧ mark = (origin.after before).here

theorem within_concat (front : List Char) (c : Char) :
    (origin.after front).here.Within (front ++ [c]) :=
  ⟨front, c, [], rfl, rfl⟩

theorem Within.concat {source : List Char} {mark : Mark} (h : mark.Within source) (c : Char) :
    mark.Within (source ++ [c]) := by
  obtain ⟨before, first, after, rfl, rfl⟩ := h
  exact ⟨before, first, after ++ [c], by rw [List.append_assoc, List.cons_append], rfl⟩

/-- The place between two texts: that of the character that follows, or the end. -/
def between (before : List Char) : List Char → Mark
  | [] => origin.after before
  | _ :: _ => (origin.after before).here

theorem offset_after_origin (text : List Char) : (origin.after text).offset = byteLength text := by
  rw [offset_after]
  exact Nat.zero_add _

theorem Within.offset_lt {source : List Char} {mark : Mark} (h : mark.Within source) :
    mark.offset < byteLength source := by
  obtain ⟨before, c, after, rfl, rfl⟩ := h
  have hoffset : (origin.after before).here.offset = byteLength before := offset_after_origin before
  have hc := c.utf8Size_pos
  rw [hoffset, byteLength_append, byteLength]
  omega

theorem between_eq (before after : List Char) :
    between before after =
      ⟨byteLength before, Excerpt.lineOf before,
        (Excerpt.lastLine before).length + if after = [] then 0 else 1⟩ := by
  rw [← offset_after_origin, ← line_after, ← column_after]
  cases after with
  | nil => rfl
  | cons c rest => simp [between, here]

/-- Counting along the text before a place leads to its line and column; the end comes after the
column. -/
theorem positionFrom_between (before after : List Char) :
    Excerpt.positionFrom 1 1 before = ((between before after).line,
      if after = [] then (between before after).column + 1 else (between before after).column) := by
  rw [Excerpt.positionFrom_eq, between_eq]
  cases after with
  | nil => rfl
  | cons c rest => rfl

end Mark

theorem Draft.initial_of_applies {μ : Type} {path : List Name} {start : μ} {fields : List (List Char)}
    {draft next : Draft μ} {d : Directive} (h : Draft.Applies path start fields draft d next) :
    next.initial = draft.initial ∨ ∃ name, next.initial = some (name, start) := by
  cases h with
  | initial name => exact .inr ⟨name, rfl⟩
  | _ => exact .inl rfl

namespace Scan

variable {μ : Type} {place : μ} {c : Char} {s t : Scan μ}

/-- The log of `t` is that of `s` with newer reports, all of them at one place. -/
def LogsAt (place : μ) (s t : Scan μ) : Prop :=
  ∃ newer, t.log = newer ++ s.log ∧ ∀ d ∈ newer, d.place = some place

theorem logsAt_of_eq (h : t.log = s.log) : LogsAt place s t :=
  ⟨[], h, fun _ hd => absurd hd List.not_mem_nil⟩

theorem logsAt_report (cause : Cause) (place : μ) (s : Scan μ) :
    LogsAt place s (s.report cause place) := by
  refine ⟨[_], rfl, ?_⟩
  intro d hd
  rw [List.mem_singleton.mp hd]

theorem logsAt_reportAll (notices : List Notice) (place : μ) (s : Scan μ) :
    LogsAt place s (s.reportAll notices place) := by
  rw [reportAll_eq]
  refine ⟨_, rfl, ?_⟩
  intro d hd
  obtain ⟨n, -, rfl⟩ := List.mem_map.mp (List.mem_reverse.mp hd)
  rfl

theorem logsAt_close (place : μ) (s : Scan μ) : LogsAt place s (s.close place) := by
  rw [close_eq]
  refine ⟨_, rfl, ?_⟩
  intro d hd
  obtain ⟨f, -, rfl⟩ := List.mem_map.mp (List.mem_reverse.mp hd)
  rfl

theorem logsAt_settle (start : μ) (applied : Applied μ) (s : Scan μ) :
    LogsAt start s (s.settle start applied) := by
  cases applied with
  | error r => exact logsAt_report (.refusal r) start s
  | ok result => exact logsAt_reportAll result.2 start { s with draft := result.1 }

/-- A character is reported about where it stands. Only the end of a directive about which nothing
was reported may be reported about where the directive begins. -/
theorem Reads.logsAt (hr : Reads place c s t) :
    LogsAt place s t ∨
      (s.scopes.top.collects = true ∧ s.item.spoilt = false ∧ LogsAt s.item.start s t) := by
  cases hr with
  | passes => exact .inl (logsAt_of_eq rfl)
  | opens => exact .inl (logsAt_of_eq rfl)
  | strays f => exact .inl (logsAt_report (.fault f) place s)
  | closes => exact .inl (logsAt_of_eq rfl)
  | collects => exact .inl (logsAt_of_eq rfl)
  | separates => exact .inl (logsAt_of_eq rfl)
  | rejects f => exact .inl (logsAt_report (.fault f) place s)
  | discards => exact .inl (logsAt_of_eq rfl)
  | commits d frame outer hs hframe hc hsound =>
    refine .inr ⟨by rw [top_cons hs, hframe]; rfl, hsound, ?_⟩
    exact logsAt_settle s.item.start _ (s.back outer place)
  | abandons frame outer => exact .inl (logsAt_report _ place (s.back outer place))
  | names frame outer => exact .inl (logsAt_reportAll _ place { s.back _ place with draft := _ })
  | numbers => exact .inl (logsAt_of_eq rfl)
  | blanks frame outer => exact .inl (logsAt_report _ place (s.back outer place))
  | drops => exact .inl (logsAt_of_eq rfl)
  | interrupts => exact .inl (logsAt_report _ place s)

theorem Reads.start (hr : Reads place c s t) (h : s.Orderly) (ht : t.scopes.top.collects = true) :
    (t.item.start = place ∧ t.log = s.log) ∨
      (s.scopes.top.collects = true ∧ t.item.start = s.item.start ∧
        (t.item.spoilt = false → s.item.spoilt = false ∧ t.log = s.log)) := by
  have hblocks : ∀ {scopes : Scopes}, (∀ f ∈ scopes, f.scope = .block) →
      ¬ scopes.top.collects = true := by
    intro scopes hscopes
    rw [Scopes.top_of_blocks hscopes]
    exact Bool.false_ne_true
  have houter : ∀ {frame} {outer : Scopes}, s.scopes = frame :: outer →
      ¬ outer.top.collects = true :=
    fun hs => hblocks (h.nested.outer hs)
  have htail : ∀ {frame} {outer : Scopes}, s.scopes = frame :: outer →
      ¬ (Scopes.top outer.tail).collects = true :=
    fun hs => hblocks fun f hf => h.nested.outer hs f (List.mem_of_mem_tail hf)
  cases hr with
  | passes => exact .inr ⟨ht, rfl, fun hsound => ⟨hsound, rfl⟩⟩
  | opens => exact .inl ⟨rfl, rfl⟩
  | strays f htop => exact absurd ht (by rw [report, htop]; exact Bool.false_ne_true)
  | closes frame outer hs => exact absurd ht (houter hs)
  | collects => exact .inr ⟨ht, rfl, fun hsound => ⟨hsound, rfl⟩⟩
  | separates => exact .inr ⟨ht, rfl, fun hsound => ⟨hsound, rfl⟩⟩
  | rejects => exact .inr ⟨ht, rfl, fun hsound => Bool.noConfusion hsound⟩
  | discards frame outer hs => exact absurd ht (houter hs)
  | commits d frame outer hs =>
    rw [scopes_settle] at ht
    exact absurd ht (houter hs)
  | abandons frame outer hs => exact absurd ht (houter hs)
  | names frame outer hs =>
    rw [scopes_declareBlock] at ht
    cases ht
  | numbers => cases ht
  | blanks => cases ht
  | drops frame outer hs => exact absurd ht (htail hs)
  | interrupts frame outer hs => exact absurd ht (htail hs)

theorem Reads.initial (hr : Reads place c s t) :
    t.draft.initial = s.draft.initial ∨
      (s.scopes.top.collects = true ∧ ∃ name, t.draft.initial = some (name, s.item.start)) := by
  cases hr with
  | commits d frame outer hs hframe =>
    rw [draft_settle]
    cases happly : s.draft.apply outer.path d s.item.start s.item.allFields with
    | error r => exact .inl rfl
    | ok result =>
      obtain ⟨next, notices⟩ := result
      rcases Draft.initial_of_applies (Draft.applies_of_apply happly) with hsame | hset
      · exact .inl hsame
      · exact .inr ⟨by rw [top_cons hs, hframe]; rfl, hset⟩
  | names => rw [draft_declareBlock]; exact .inl rfl
  | _ => exact .inl rfl

def places (s : Scan μ) : List μ := s.log.filterMap (·.place)

def InOrder (s : Scan Mark) : Prop :=
  s.places.Pairwise fun newer older => older.offset ≤ newer.offset

/-- What holds of places between two characters of a source: all are in what was read. If nothing
was reported about the item that is read, no report lies behind its beginning. -/
structure Located (source : List Char) (s : Scan Mark) : Prop where
  reports : ∀ d ∈ s.log, ∃ mark, d.place = some mark ∧ mark.Within source
  ordered : s.InOrder
  initial : ∀ named, s.draft.initial = some named → named.2.Within source
  start : s.scopes.top.collects = true → s.item.start.Within source
  quiet : s.scopes.top.collects = true → s.item.spoilt = false →
    ∀ mark ∈ s.places, mark.offset ≤ s.item.start.offset

theorem located_begin : Located [] (begin Mark.origin) where
  reports := fun _ hd => absurd hd List.not_mem_nil
  ordered := List.Pairwise.nil
  initial := fun _ hnamed => absurd hnamed (Option.some_ne_none _).symm
  start := fun ht => Bool.noConfusion ht
  quiet := fun ht => Bool.noConfusion ht

theorem Located.places {source : List Char} {s : Scan Mark} (h : Located source s) :
    ∀ mark ∈ s.places, mark.Within source := by
  intro mark hmark
  obtain ⟨d, hd, hplace⟩ := List.mem_filterMap.mp hmark
  obtain ⟨found, hfound, hwithin⟩ := h.reports d hd
  rwa [Option.some.inj (hplace.symm.trans hfound)]

theorem LogsAt.inOrder {mark : Mark} {s t : Scan Mark} (h : LogsAt mark s t) (hs : s.InOrder)
    (hbehind : ∀ older ∈ s.places, older.offset ≤ mark.offset) : t.InOrder := by
  obtain ⟨newer, hlog, hnewer⟩ := h
  have hplaces : ∀ found ∈ newer.filterMap (·.place), found = mark := by
    intro found hfound
    obtain ⟨d, hd, hplace⟩ := List.mem_filterMap.mp hfound
    exact Option.some.inj (hplace.symm.trans (hnewer d hd))
  rw [InOrder, Scan.places, hlog, List.filterMap_append, List.pairwise_append]
  refine ⟨?_, hs, ?_⟩
  · rw [List.eq_replicate_iff.mpr ⟨rfl, hplaces⟩, List.pairwise_replicate]
    exact .inr (Nat.le_refl _)
  · intro found hfound older holder
    rw [hplaces found hfound]
    exact hbehind older holder

theorem LogsAt.mem {mark : Mark} {s t : Scan Mark} (h : LogsAt mark s t) {d : Diagnostic Mark}
    (hd : d ∈ t.log) : d.place = some mark ∨ d ∈ s.log := by
  obtain ⟨newer, hlog, hnewer⟩ := h
  rw [hlog] at hd
  exact (List.mem_append.mp hd).imp_left (hnewer d)

/-- One character more: it is reported about at its own place, which lies behind all others, or at
the beginning of the item that it ends, where the item was quiet. -/
theorem Located.read {source : List Char} {s t : Scan Mark} {c : Char} (h : Located source s)
    (horderly : s.Orderly) (hr : Reads (Mark.origin.after source).here c s t) :
    Located (source ++ [c]) t := by
  have hplace : (Mark.origin.after source).here.offset = byteLength source :=
    Mark.offset_after_origin source
  have hbehind : ∀ older ∈ s.places, older.offset ≤ (Mark.origin.after source).here.offset := by
    intro older holder
    rw [hplace]
    exact Nat.le_of_lt (h.places older holder).offset_lt
  have hlogged : ∃ mark, LogsAt mark s t ∧ mark.Within (source ++ [c]) ∧
      ∀ older ∈ s.places, older.offset ≤ mark.offset := by
    rcases hr.logsAt with hlogs | ⟨hcollects, hsound, hlogs⟩
    · exact ⟨_, hlogs, Mark.within_concat source c, hbehind⟩
    · exact ⟨_, hlogs, (h.start hcollects).concat c, h.quiet hcollects hsound⟩
  obtain ⟨mark, hlogs, hwithin, holder⟩ := hlogged
  refine ⟨?_, hlogs.inOrder h.ordered holder, ?_, ?_, ?_⟩
  case refine_1 =>
    intro d hd
    rcases hlogs.mem hd with hnew | hold
    · exact ⟨mark, hnew, hwithin⟩
    · obtain ⟨found, hfound, hin⟩ := h.reports d hold
      exact ⟨found, hfound, hin.concat c⟩
  case refine_2 =>
    intro named hnamed
    rcases hr.initial with hsame | ⟨hcollects, name, hset⟩
    · exact (h.initial named (hsame ▸ hnamed)).concat c
    · rw [hset] at hnamed
      cases hnamed
      exact (h.start hcollects).concat c
  case refine_3 =>
    intro ht
    rcases hr.start horderly ht with ⟨hstart, -⟩ | ⟨hcollects, hstart, -⟩
    · rw [hstart]
      exact Mark.within_concat source c
    · rw [hstart]
      exact (h.start hcollects).concat c
  case refine_4 =>
    intro ht hsound
    rcases hr.start horderly ht with ⟨hstart, hlog⟩ | ⟨hcollects, hstart, hquiet⟩
    · rw [hstart, Scan.places, hlog]
      exact hbehind
    · obtain ⟨hbefore, hlog⟩ := hquiet hsound
      rw [hstart, Scan.places, hlog]
      exact h.quiet hcollects hbefore

end Scan

theorem located_readSource (source : List Char) : (readSource source).Located source := by
  -- By induction on the source, from its end.
  induction source using List.reverseRecOn with
  | nil => exact Scan.located_begin
  | append_singleton front c ih => exact ih.read (orderly_readSource front) (reads_concat front c)

private theorem logsAt_scanSource (source : List Char) :
    Scan.LogsAt (Mark.origin.after source) (readSource source) (scanSource source) := by
  rw [scanSource_eq]
  exact Scan.logsAt_close _ _

private theorem inOrder_scanSource (source : List Char) : (scanSource source).InOrder := by
  have hread := located_readSource source
  refine (logsAt_scanSource source).inOrder hread.ordered ?_
  intro older holder
  rw [Mark.offset_after_origin]
  exact Nat.le_of_lt (hread.places older holder).offset_lt

private theorem place_of_report {source : List Char} {d : Diagnostic Mark}
    (hd : d ∈ (scanSource source).diagnostics) :
    ∃ mark, d.place = some mark ∧ (mark.Within source ∨ mark = Mark.origin.after source) := by
  rcases (logsAt_scanSource source).mem (List.mem_reverse.mp hd) with hend | hold
  · exact ⟨_, hend, .inr rfl⟩
  · obtain ⟨mark, hplace, hwithin⟩ := (located_readSource source).reports d hold
    exact ⟨mark, hplace, .inl hwithin⟩

theorem Table.isSome_of_invalidInitial {table : Table} {initial : Option Name} {name : Name}
    (h : .invalidInitial name ∈ table.problems initial) : initial.isSome = true := by
  cases initial with
  | some known => rfl
  | none => simp [problems, initialProblems, reachabilityProblems] at h

private theorem place_of_problem {source : List Char} {d : Diagnostic Mark}
    (hd : d ∈ (scanSource source).problemReports) :
    (∀ name, d.cause = .problem (.invalidInitial name) → d.place.isSome = true) ∧
      ∀ mark, d.place = some mark → mark.Within source := by
  obtain ⟨p, hp, rfl⟩ := List.mem_map.mp hd
  constructor
  · intro name hcause
    obtain rfl : p = .invalidInitial name := Cause.problem.inj hcause
    have hset := Table.isSome_of_invalidInitial hp
    rw [Option.isSome_map] at hset
    change ((scanSource source).draft.initial.map (·.2)).isSome = true
    rwa [Option.isSome_map]
  · intro mark hplace
    cases p with
    | invalidInitial name =>
      obtain ⟨named, hnamed, rfl⟩ := Option.map_eq_some_iff.mp hplace
      rw [draft_scanSource] at hnamed
      exact (located_readSource source).initial named hnamed
    | _ => cases hplace

private theorem between_of_place {source : List Char} {d : Diagnostic Mark} {mark : Mark}
    (hd : d ∈ (compile source).diagnostics) (hplace : d.place = some mark) :
    ∃ before after, source = before ++ after ∧ mark = Mark.between before after := by
  have hknown : mark.Within source ∨ mark = Mark.origin.after source := by
    rcases List.mem_append.mp hd with hd | hd
    · obtain ⟨found, hfound, hknown⟩ := place_of_report hd
      rwa [Option.some.inj (hplace.symm.trans hfound)]
    · exact .inl ((place_of_problem hd).2 mark hplace)
  rcases hknown with ⟨before, c, after, hsource, hmark⟩ | hend
  · exact ⟨before, c :: after, hsource, hmark⟩
  · exact ⟨source, [], (List.append_nil source).symm, hend⟩

/--
Everything reported while a source is read or closed has a place, and so has an invalid initial
state; what is reported while it is read or closed is reported in the order of the places. Each place
lies between two parts of the source. Its offset is the number of bytes of the first part. Its line is
one more than the line breaks there, and its column counts the characters after the last of them,
that at the place included if there is one. The excerpt is there. Counting from the first line and
column, carriage returns before line breaks taken with them, leads to the same line, and to the same
column, or at the end of the source to the next one; so a printer that counts like this points there.
-/
theorem compile_locations [Excerpt.Printer] (source : List Char) :
    let reports := (scanSource source).diagnostics
    let compiled := compile source
    (∀ d ∈ reports, d.place.isSome = true) ∧
    (reports.filterMap (·.place)).Pairwise (fun earlier later => earlier.offset ≤ later.offset) ∧
    (∀ d ∈ compiled.diagnostics, ∀ name, d.cause = .problem (.invalidInitial name) →
      d.place.isSome = true) ∧
    ∀ d ∈ compiled.diagnostics, ∀ mark, d.place = some mark →
      ∃ before after, source = before ++ after ∧ mark.offset = byteLength before ∧
        mark.line = 1 + before.count '\n' ∧
        mark.column = (Excerpt.lastLine before).length + (if after = [] then 0 else 1) ∧
        ∃ excerpt, compiled.excerpt? d = some excerpt ∧
          Excerpt.positionFrom 1 1 before =
            (mark.line, if after = [] then mark.column + 1 else mark.column) ∧
          (Excerpt.Printer.Exact → Excerpt.PointsTo excerpt
            (mark.line, if after = [] then mark.column + 1 else mark.column)) := by
  intro reports compiled
  refine ⟨?_, ?_, ?_, ?_⟩
  case refine_1 =>
    intro d hd
    obtain ⟨mark, hplace, -⟩ := place_of_report hd
    rw [hplace]
    rfl
  case refine_2 =>
    change ((scanSource source).log.reverse.filterMap (·.place)).Pairwise _
    rw [List.filterMap_reverse, List.pairwise_reverse]
    exact inOrder_scanSource source
  case refine_3 =>
    intro d hd name hcause
    rcases List.mem_append.mp hd with hd | hd
    · exact absurd hcause (local_of_mem_scanSource hd _)
    · exact (place_of_problem hd).1 name hcause
  case refine_4 =>
    intro d hd mark hplace
    obtain ⟨before, after, rfl, rfl⟩ := between_of_place hd hplace
    have hexcerpt : compiled.excerpt? d =
        some (Excerpt.Printer.print before after d.message) := by
      rw [Compiled.excerpt?, hplace, Mark.between_eq]
      change (Excerpt.splitAtByte (byteLength before) (before ++ after)).map _ = _
      rw [Excerpt.splitAtByte_byteLength]
      rfl
    have hposition := Mark.positionFrom_between before after
    have hpoints : Excerpt.Printer.Exact → Excerpt.PointsTo
        (Excerpt.Printer.print before after d.message) ((Mark.between before after).line,
          if after = [] then (Mark.between before after).column + 1
          else (Mark.between before after).column) := by
      intro hprinter
      rw [← hposition]
      exact hprinter before after d.message
    obtain ⟨hoffset, hline, hcolumn⟩ := Mark.mk.inj (Mark.between_eq before after)
    exact ⟨before, after, rfl, hoffset, hline, hcolumn, _, hexcerpt, hposition, hpoints⟩

/-- A letter that takes two bytes, a line break of two characters, and the end within a block: the
last line is empty, where a mark counts no column and an excerpt one. -/
theorem compile_locations_unfinished :
    let _ : Excerpt.Printer := ⟨Excerpt.arrowed⟩
    let compiled := compile ['é', '\r', '\n', ':', 'n', '\x7b', '\n']
    Excerpt.Printer.Exact ∧
    ∃ d ∈ compiled.diagnostics, d.place = some ⟨8, 3, 0⟩ ∧
      ∃ excerpt, compiled.excerpt? d = some excerpt ∧ Excerpt.PointsTo excerpt (3, 1) := by
  intro _ compiled
  have hmember : ∃ d ∈ compiled.diagnostics, d.place = some ⟨8, 3, 0⟩ := by decide
  obtain ⟨d, hd, hplace⟩ := hmember
  obtain ⟨before, after, hsource, hoffset, -, -, excerpt, hexcerpt, -, hpoints⟩ :=
    (compile_locations ['é', '\r', '\n', ':', 'n', '\x7b', '\n']).2.2.2 d hd ⟨8, 3, 0⟩ hplace
  have hafter : after = [] := by
    have hbefore : byteLength before = 8 := hoffset.symm
    have hwhole : byteLength ['é', '\r', '\n', ':', 'n', '\x7b', '\n'] = 8 := by decide
    have hlength := congrArg byteLength hsource
    rw [byteLength_append, hbefore, hwhole] at hlength
    cases after with
    | nil => rfl
    | cons c rest =>
      have hc := c.utf8Size_pos
      rw [byteLength] at hlength
      omega
  rw [hafter] at hpoints
  exact ⟨Excerpt.exact_arrowed, d, hd, hplace, excerpt, hexcerpt, hpoints Excerpt.exact_arrowed⟩

end TapeMachine
