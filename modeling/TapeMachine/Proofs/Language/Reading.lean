import TapeMachine.Language.Compile
/-!
# What one character does

Between two characters a scan is orderly: below the innermost scope stand only blocks, and nothing
is collected unless the innermost scope collects. In an orderly scan no scope that is closed can be
the wrong one, so a character has one of the effects listed in `Reads`.
-/
namespace TapeMachine

def Scope.collects : Scope → Bool
  | directive _ | blockName => true
  | block | comment => false

def Scope.ends (scope : Scope) (c : Char) : Bool :=
  c == ';' || c == '\x7d' || (scope == blockName && c == '\x7b')

theorem Scope.collects_of_hasFields {scope : Scope} (h : scope.hasFields = true) :
    scope.collects = true := by
  cases scope with
  | directive d => rfl
  | blockName => cases h
  | block => cases h
  | comment => cases h

def Scopes.Nested (scopes : Scopes) : Prop := ∀ frame ∈ scopes.tail, frame.scope = .block

variable {μ : Type}

def Item.Idle (item : Item μ) : Prop := item = Item.fresh item.start

/-- What holds of a scan between two characters. -/
structure Scan.Orderly (s : Scan μ) : Prop where
  nested : s.scopes.Nested
  idle : s.scopes.top.collects = false → s.item.Idle

namespace Scopes

theorem Nested.blocks {scopes : Scopes} (h : scopes.Nested) (htop : scopes.top = .block) :
    ∀ frame ∈ scopes, frame.scope = .block := by
  intro frame hframe
  cases scopes with
  | nil => cases hframe
  | cons first outer =>
    rcases List.mem_cons.mp hframe with rfl | hframe
    · exact htop
    · exact h frame hframe

theorem top_of_blocks {scopes : Scopes} (h : ∀ frame ∈ scopes, frame.scope = .block) :
    scopes.top = .block := by
  cases scopes with
  | nil => rfl
  | cons frame outer => exact h frame List.mem_cons_self

theorem Nested.outer {scopes : Scopes} (h : scopes.Nested) {frame : Frame} {outer : Scopes}
    (hs : scopes = frame :: outer) : ∀ f ∈ outer, f.scope = .block := by
  subst hs
  exact h

theorem nested_of_blocks {scopes : Scopes} (h : ∀ frame ∈ scopes, frame.scope = .block) :
    scopes.Nested :=
  fun frame hframe => h frame (List.mem_of_mem_tail hframe)

theorem path_cons_of_ne {frame : Frame} (outer : Scopes) (h : frame.scope ≠ .block) :
    path (frame :: outer) = path outer :=
  if_neg h

theorem path_ne_nil {frame : Frame} (outer : Scopes) (h : frame.scope = .block) :
    path (frame :: outer) ≠ [] := by
  simp [path, h]

end Scopes

namespace Scan

/-- The scan back in the scopes `outer`, with nothing collected. -/
def back (outer : Scopes) (place : μ) (s : Scan μ) : Scan μ :=
  { s with scopes := outer, item := Item.fresh place }

/-- What a character can do to an orderly scan. -/
inductive Reads (place : μ) (c : Char) (s : Scan μ) : Scan μ → Prop
  | passes
      (h : isLayout c = true ∨ s.scopes.top = .comment ∨
        (s.scopes.top.collects = true ∧ s.scopes.top.ends c = false)) :
      Reads place c s s
  | opens (scope : Scope) (htop : s.scopes.top = .block) (hc : Scope.opened? c = some scope) :
      Reads place c s (s.enter scope place)
  | strays (f : Fault) (htop : s.scopes.top = .block) :
      Reads place c s (s.report (.fault f) place)
  | closes (frame : Frame) (outer : Scopes) (hs : s.scopes = frame :: outer)
      (hframe : frame.scope.collects = false) :
      Reads place c s { s with scopes := outer }
  | collects (hcollects : s.scopes.top.collects = true) (hends : s.scopes.top.ends c = false)
      (hsound : s.item.spoilt = false) (haccepts : s.scopes.top.accepts c = true) :
      Reads place c s { s with item := s.item.push c }
  | separates (hfields : s.scopes.top.hasFields = true) (hends : s.scopes.top.ends c = false)
      (hsound : s.item.spoilt = false) (hc : c = ':' ∨ c = '>') :
      Reads place c s { s with item := s.item.separate }
  | rejects (f : Fault) (hcollects : s.scopes.top.collects = true)
      (hends : s.scopes.top.ends c = false) (hsound : s.item.spoilt = false) :
      Reads place c s (s.reject f place)
  | discards (frame : Frame) (outer : Scopes) (hs : s.scopes = frame :: outer)
      (hframe : frame.scope.collects = true) (hc : c = ';') (hspoilt : s.item.spoilt = true) :
      Reads place c s (s.back outer place)
  | commits (d : Directive) (frame : Frame) (outer : Scopes) (hs : s.scopes = frame :: outer)
      (hframe : frame.scope = .directive d) (hc : c = ';') (hsound : s.item.spoilt = false) :
      Reads place c s ((s.back outer place).settle s.item.start
        (s.draft.apply outer.path d s.item.start s.item.allFields))
  | abandons (frame : Frame) (outer : Scopes) (hs : s.scopes = frame :: outer)
      (hframe : frame.scope = .blockName) (hc : c = ';') (hsound : s.item.spoilt = false) :
      Reads place c s
        ((s.back outer place).report (.fault (.nameWithoutBlock s.item.current.reverse)) place)
  | names (frame : Frame) (outer : Scopes) (hs : s.scopes = frame :: outer)
      (hframe : frame.scope = .blockName) (hc : c = '\x7b') (hsound : s.item.spoilt = false)
      (hname : s.item.current ≠ []) :
      Reads place c s
        ((s.back (⟨.block, some s.item.current.reverse⟩ :: outer) place).declareBlock place)
  | numbers (frame : Frame) (outer : Scopes) (hs : s.scopes = frame :: outer)
      (hframe : frame.scope = .blockName) (hc : c = '\x7b') (hspoilt : s.item.spoilt = true) :
      Reads place c s (s.back (⟨.block, none⟩ :: outer) place)
  | blanks (frame : Frame) (outer : Scopes) (hs : s.scopes = frame :: outer)
      (hframe : frame.scope = .blockName) (hc : c = '\x7b') (hsound : s.item.spoilt = false)
      (hname : s.item.current = []) :
      Reads place c s
        (((s.back outer place).report (.fault .emptyBlockName) place).back
          (⟨.block, none⟩ :: outer) place)
  | drops (frame : Frame) (outer : Scopes) (hs : s.scopes = frame :: outer)
      (hframe : frame.scope.collects = true) (hc : c = '\x7d') (hspoilt : s.item.spoilt = true) :
      Reads place c s (s.back outer.tail place)
  | interrupts (frame : Frame) (outer : Scopes) (hs : s.scopes = frame :: outer)
      (hframe : frame.scope.collects = true) (hc : c = '\x7d') (hsound : s.item.spoilt = false) :
      Reads place c s
        ((s.report (.fault (.strayClose (.mismatch .block frame.scope))) place).back
          outer.tail place)

theorem leave_eq {s : Scan μ} {frame : Frame} {outer : Scopes} (hs : s.scopes = frame :: outer)
    (place : μ) : s.leave frame.scope place = { s with scopes := outer } := by
  simp only [leave, hs, Scopes.exit, if_true]

theorem leave_atRoot {s : Scan μ} (hs : s.scopes = []) (scope : Scope) (place : μ) :
    s.leave scope place = s.report (.fault (.strayClose (.atRoot scope))) place := by
  simp only [leave, hs, Scopes.exit]

theorem top_cons {s : Scan μ} {frame : Frame} {outer : Scopes}
    (hs : s.scopes = frame :: outer) : s.scopes.top = frame.scope := by
  rw [hs]
  rfl

theorem exists_frame {s : Scan μ} {scope : Scope} (htop : s.scopes.top = scope)
    (hscope : scope ≠ .block) : ∃ frame outer, s.scopes = frame :: outer ∧ frame.scope = scope := by
  cases hs : s.scopes with
  | nil =>
    rw [hs] at htop
    exact absurd htop.symm hscope
  | cons frame outer => exact ⟨frame, outer, rfl, by rw [← top_cons hs, htop]⟩

theorem leave_top {s : Scan μ} {frame : Frame} {outer : Scopes} {scope : Scope}
    (hs : s.scopes = frame :: outer) (hframe : frame.scope = scope) (place : μ) :
    s.leave scope place = { s with scopes := outer } := by
  rw [← hframe, leave_eq hs]

theorem read_layout {s : Scan μ} (htop : s.scopes.top ≠ .comment) (place : μ) {c : Char}
    (hc : isLayout c = true) : s.read place c = s := by
  rw [read]
  cases h : s.scopes.top with
  | comment => exact absurd h htop
  | block => exact if_pos hc
  | blockName => exact if_pos hc
  | directive d => exact if_pos hc

theorem read_comment {s : Scan μ} (htop : s.scopes.top = .comment) (place : μ) (c : Char) :
    s.read place c = if c = '\n' then s.leave .comment place else s := by
  rw [read, htop]

theorem read_block {s : Scan μ} (htop : s.scopes.top = .block) (place : μ) {c : Char}
    (hc : isLayout c = false) : s.read place c = s.readInBlock place c := by
  rw [read, htop]
  exact if_neg (by rw [hc]; exact Bool.false_ne_true)

theorem read_directive {s : Scan μ} {d : Directive} (htop : s.scopes.top = .directive d) (place : μ)
    {c : Char} (hc : isLayout c = false) : s.read place c = s.readInDirective d place c := by
  rw [read, htop]
  exact if_neg (by rw [hc]; exact Bool.false_ne_true)

theorem read_blockName {s : Scan μ} (htop : s.scopes.top = .blockName) (place : μ) {c : Char}
    (hc : isLayout c = false) : s.read place c = s.readInName place c := by
  rw [read, htop]
  exact if_neg (by rw [hc]; exact Bool.false_ne_true)

theorem commit_eq {s : Scan μ} {d : Directive} {frame : Frame} {outer : Scopes}
    (hs : s.scopes = frame :: outer) (hframe : frame.scope = .directive d) (place : μ) :
    s.commit d place =
      if s.item.spoilt then s.back outer place
      else (s.back outer place).settle s.item.start
        (s.draft.apply outer.path d s.item.start s.item.allFields) := by
  have hleave : (s.dropItem place).leave (.directive d) place = s.back outer place := by
    rw [← hframe]
    exact leave_eq (s := s.dropItem place) hs place
  rw [commit, hleave]
  rfl

theorem abandonName_eq {s : Scan μ} {frame : Frame} {outer : Scopes}
    (hs : s.scopes = frame :: outer) (hframe : frame.scope = .blockName) (place : μ) :
    s.abandonName place =
      if s.item.spoilt then s.back outer place
      else (s.back outer place).report
        (.fault (.nameWithoutBlock s.item.current.reverse)) place := by
  have hleave : (s.dropItem place).leave .blockName place = s.back outer place := by
    rw [← hframe]
    exact leave_eq (s := s.dropItem place) hs place
  rw [abandonName, hleave]

theorem finishName_eq {s : Scan μ} {frame : Frame} {outer : Scopes}
    (hs : s.scopes = frame :: outer) (hframe : frame.scope = .blockName) (place : μ) :
    s.finishName place =
      if s.item.spoilt then s.back (⟨.block, none⟩ :: outer) place
      else if s.item.current = [] then
        ((s.back outer place).report (.fault .emptyBlockName) place).back
          (⟨.block, none⟩ :: outer) place
      else (s.back (⟨.block, some s.item.current.reverse⟩ :: outer) place).declareBlock place := by
  have hleave : (s.dropItem place).leave .blockName place = s.back outer place := by
    rw [← hframe]
    exact leave_eq (s := s.dropItem place) hs place
  rw [finishName, hleave]
  rfl

theorem leaveBlock_of_item {s : Scan μ} {frame : Frame} {outer : Scopes}
    (hs : s.scopes = frame :: outer) (hcollects : frame.scope.collects = true) (spoilt : Bool)
    (place : μ) :
    s.leaveBlock spoilt place =
      if spoilt then s
      else s.report (.fault (.strayClose (.mismatch .block frame.scope))) place := by
  have hframe : frame.scope ≠ .block := by
    intro hframe
    rw [hframe] at hcollects
    cases hcollects
  have hexit : s.scopes.exit .block = .error (.mismatch .block frame.scope) := by
    rw [hs, Scopes.exit, if_neg hframe]
  rw [leaveBlock, hexit]

theorem interrupt_eq {s : Scan μ} {frame : Frame} {outer : Scopes}
    (hs : s.scopes = frame :: outer) (hcollects : frame.scope.collects = true)
    (houter : ∀ f ∈ outer, f.scope = .block) (place : μ) :
    s.interrupt frame.scope place =
      if s.item.spoilt then s.back outer.tail place
      else (s.report (.fault (.strayClose (.mismatch .block frame.scope))) place).back
        outer.tail place := by
  have hclose : ∀ t : Scan μ, t.scopes = frame :: outer →
      (if (t.leave frame.scope place).scopes.path = [] then t.leave frame.scope place
        else (t.leave frame.scope place).leave .block place) = { t with scopes := outer.tail } := by
    intro t ht
    rw [leave_eq ht]
    cases outer with
    | nil => rfl
    | cons first rest =>
      have hfirst := houter first List.mem_cons_self
      rw [if_neg (Scopes.path_ne_nil rest hfirst), ← hfirst]
      exact leave_eq (s := { t with scopes := first :: rest }) rfl place
  rw [interrupt, leaveBlock_of_item (s := s.dropItem place) hs hcollects]
  split
  · exact hclose (s.dropItem place) hs
  · exact hclose ((s.dropItem place).report _ place) hs

private theorem reads_readInBlock {s : Scan μ} (htop : s.scopes.top = .block) (place : μ)
    (c : Char) : Reads place c s (s.readInBlock place c) := by
  rw [readInBlock]
  split
  · cases hs : s.scopes with
    | nil =>
      rw [leave_atRoot hs]
      exact .strays _ htop
    | cons frame outer =>
      have hframe : frame.scope = .block := by rw [← top_cons hs, htop]
      rw [← hframe, leave_eq hs]
      exact .closes frame outer hs (by rw [hframe]; rfl)
  · split
    · exact .strays _ htop
    · split
      next scope hc => exact .opens scope htop hc
      next => exact .strays _ htop

private theorem reads_collect {s : Scan μ} {scope : Scope} (htop : s.scopes.top = scope)
    (hcollects : scope.collects = true) (place : μ) {c read : Char}
    (hends : scope.ends c = false) (hread : read = c ∨ read = ':' ∧ c = '>') :
    Reads place c s (s.collect scope place read) := by
  subst htop
  rw [collect]
  by_cases hspoilt : s.item.spoilt = true
  · rw [if_pos hspoilt]
    exact .passes (.inr (.inr ⟨hcollects, hends⟩))
  · have hsound : s.item.spoilt = false := Bool.eq_false_iff.mpr hspoilt
    rw [if_neg hspoilt]
    split
    next hcolon =>
      split
      next hfields =>
        refine .separates hfields hends hsound ?_
        rcases hread with rfl | ⟨-, hc⟩
        · exact .inl hcolon
        · exact .inr hc
      next => exact .rejects _ hcollects hends hsound
    next hcolon =>
      obtain rfl : read = c := by
        rcases hread with hread | ⟨hread, -⟩
        · exact hread
        · exact absurd hread hcolon
      split
      next haccepts => exact .collects hcollects hends hsound haccepts
      next => exact .rejects _ hcollects hends hsound

private theorem reads_readInName {s : Scan μ} {frame : Frame} {outer : Scopes}
    (hs : s.scopes = frame :: outer) (houter : ∀ f ∈ outer, f.scope = .block)
    (hframe : frame.scope = .blockName) (place : μ) (c : Char) :
    Reads place c s (s.readInName place c) := by
  have hcollects : frame.scope.collects = true := by rw [hframe]; rfl
  rw [readInName]
  split
  next hc =>
    rw [finishName_eq hs hframe]
    split
    next hspoilt => exact .numbers frame outer hs hframe hc hspoilt
    next hspoilt =>
      have hsound := Bool.eq_false_iff.mpr hspoilt
      split
      next hname => exact .blanks frame outer hs hframe hc hsound hname
      next hname => exact .names frame outer hs hframe hc hsound hname
  next hopen =>
    split
    next hc =>
      rw [abandonName_eq hs hframe]
      split
      next hspoilt => exact .discards frame outer hs hcollects hc hspoilt
      next hspoilt => exact .abandons frame outer hs hframe hc (Bool.eq_false_iff.mpr hspoilt)
    next hterm =>
      split
      next hc =>
        rw [← hframe, interrupt_eq hs hcollects houter]
        split
        next hspoilt => exact .drops frame outer hs hcollects hc hspoilt
        next hspoilt =>
          exact .interrupts frame outer hs hcollects hc (Bool.eq_false_iff.mpr hspoilt)
      next hclose =>
        have hends : Scope.ends .blockName c = false := by
          simp [Scope.ends, hopen, hterm, hclose]
        exact reads_collect (by rw [top_cons hs, hframe]) rfl place hends (.inl rfl)

private theorem reads_readInDirective {s : Scan μ} {d : Directive} {frame : Frame}
    {outer : Scopes} (hs : s.scopes = frame :: outer) (houter : ∀ f ∈ outer, f.scope = .block)
    (hframe : frame.scope = .directive d) (place : μ) (c : Char) :
    Reads place c s (s.readInDirective d place c) := by
  have hcollects : frame.scope.collects = true := by rw [hframe]; rfl
  have htop : s.scopes.top = .directive d := by rw [top_cons hs, hframe]
  rw [readInDirective]
  split
  next hc =>
    rw [← hframe, interrupt_eq hs hcollects houter]
    split
    next hspoilt => exact .drops frame outer hs hcollects hc hspoilt
    next hspoilt =>
      exact .interrupts frame outer hs hcollects hc (Bool.eq_false_iff.mpr hspoilt)
  next hclose =>
    split
    next hc =>
      rw [commit_eq hs hframe]
      split
      next hspoilt => exact .discards frame outer hs hcollects hc hspoilt
      next hspoilt => exact .commits d frame outer hs hframe hc (Bool.eq_false_iff.mpr hspoilt)
    next hterm =>
      have hends : Scope.ends (.directive d) c = false := by
        simp [Scope.ends, hterm, hclose]
      split
      · exact .passes (.inr (.inr (by rw [htop]; exact ⟨rfl, hends⟩)))
      · split
        next harrow => exact reads_collect htop rfl place hends (.inr ⟨rfl, harrow.2⟩)
        next => exact reads_collect htop rfl place hends (.inl rfl)

/-- What follows wherever a character is read: as layout, in a comment, at the end of one, in a block,
in a block name and in a directive. -/
theorem read_cases {s : Scan μ} (h : s.Orderly) (place : μ) (c : Char) {P : Scan μ → Prop}
    (layout : isLayout c = true → P s)
    (comment : s.scopes.top = .comment → P s)
    (line : ∀ frame outer, s.scopes = frame :: outer → frame.scope = .comment → c = '\n' →
      P { s with scopes := outer })
    (block : s.scopes.top = .block → P (s.readInBlock place c))
    (name : ∀ frame outer, s.scopes = frame :: outer → (∀ f ∈ outer, f.scope = .block) →
      frame.scope = .blockName → P (s.readInName place c))
    (directive : ∀ d frame outer, s.scopes = frame :: outer → (∀ f ∈ outer, f.scope = .block) →
      frame.scope = .directive d → P (s.readInDirective d place c)) : P (s.read place c) := by
  by_cases hcomment : s.scopes.top = .comment
  · rw [read_comment hcomment]
    split
    next hc =>
      obtain ⟨frame, outer, hs, hframe⟩ := exists_frame hcomment Scope.noConfusion
      rw [leave_top hs hframe]
      exact line frame outer hs hframe hc
    next => exact comment hcomment
  · by_cases hlayout : isLayout c = true
    · rw [read_layout hcomment place hlayout]
      exact layout hlayout
    · have hplain : isLayout c = false := Bool.eq_false_iff.mpr hlayout
      cases htop : s.scopes.top with
      | comment => exact absurd htop hcomment
      | block =>
        rw [read_block htop place hplain]
        exact block htop
      | blockName =>
        obtain ⟨frame, outer, hs, hframe⟩ := exists_frame htop Scope.noConfusion
        rw [read_blockName htop place hplain]
        exact name frame outer hs (h.nested.outer hs) hframe
      | directive d =>
        obtain ⟨frame, outer, hs, hframe⟩ := exists_frame htop Scope.noConfusion
        rw [read_directive htop place hplain]
        exact directive d frame outer hs (h.nested.outer hs) hframe

/-- In an orderly scan a character has one of the effects listed. -/
theorem reads_read {s : Scan μ} (h : s.Orderly) (place : μ) (c : Char) :
    Reads place c s (s.read place c) := by
  apply read_cases h
  case layout => exact fun hlayout => .passes (.inl hlayout)
  case comment => exact fun hcomment => .passes (.inr (.inl hcomment))
  case line =>
    intro frame outer hs hframe _
    exact .closes frame outer hs (by rw [hframe]; rfl)
  case block => exact fun htop => reads_readInBlock htop place c
  case name =>
    intro frame outer hs houter hframe
    exact reads_readInName hs houter hframe place c
  case directive =>
    intro d frame outer hs houter hframe
    exact reads_readInDirective hs houter hframe place c

theorem reportAll_eq (notices : List Notice) (place : μ) (s : Scan μ) :
    s.reportAll notices place =
      { s with log :=
          (notices.map fun n => ⟨.notice n, some place, s.scopes.top⟩).reverse ++ s.log } := by
  induction notices generalizing s with
  | nil => rfl
  | cons n notices ih =>
    rw [reportAll, List.foldl_cons, ← reportAll, ih]
    simp [report]

@[simp] theorem scopes_reportAll (notices : List Notice) (place : μ) (s : Scan μ) :
    (s.reportAll notices place).scopes = s.scopes := by
  rw [reportAll_eq]

@[simp] theorem item_reportAll (notices : List Notice) (place : μ) (s : Scan μ) :
    (s.reportAll notices place).item = s.item := by
  rw [reportAll_eq]

@[simp] theorem draft_reportAll (notices : List Notice) (place : μ) (s : Scan μ) :
    (s.reportAll notices place).draft = s.draft := by
  rw [reportAll_eq]

@[simp] theorem scopes_settle (start : μ) (applied : Applied μ) (s : Scan μ) :
    (s.settle start applied).scopes = s.scopes := by
  cases applied with
  | error r => rfl
  | ok result => exact scopes_reportAll _ _ _

@[simp] theorem item_settle (start : μ) (applied : Applied μ) (s : Scan μ) :
    (s.settle start applied).item = s.item := by
  cases applied with
  | error r => rfl
  | ok result => exact item_reportAll _ _ _

@[simp] theorem scopes_declareBlock (place : μ) (s : Scan μ) :
    (s.declareBlock place).scopes = s.scopes :=
  scopes_reportAll _ _ _

@[simp] theorem item_declareBlock (place : μ) (s : Scan μ) :
    (s.declareBlock place).item = s.item :=
  item_reportAll _ _ _

theorem draft_settle (start : μ) (applied : Applied μ) (s : Scan μ) :
    (s.settle start applied).draft =
      match applied with
      | .ok (draft, _) => draft
      | .error _ => s.draft := by
  cases applied with
  | error r => rfl
  | ok result => exact draft_reportAll _ _ _

theorem draft_declareBlock (place : μ) (s : Scan μ) :
    (s.declareBlock place).draft =
      { s.draft with table := s.draft.table.insert (s.scopes.qualify Name.anonymous) } :=
  draft_reportAll _ _ _

private theorem orderly_of_blocks {s : Scan μ} (hblocks : ∀ f ∈ s.scopes, f.scope = .block)
    (hidle : s.item.Idle) : s.Orderly :=
  ⟨Scopes.nested_of_blocks hblocks, fun _ => hidle⟩

private theorem blocks_cons {outer : Scopes} (name : Option Name)
    (houter : ∀ f ∈ outer, f.scope = .block) :
    ∀ f ∈ (⟨.block, name⟩ :: outer : Scopes), f.scope = .block := by
  intro f hf
  rcases List.mem_cons.mp hf with rfl | hf
  · rfl
  · exact houter f hf

theorem Reads.orderly {place : μ} {c : Char} {s t : Scan μ} (h : s.Orderly)
    (hr : Reads place c s t) : t.Orderly := by
  have hbelow : ∀ {frame outer}, s.scopes = frame :: outer → ∀ f ∈ outer, f.scope = .block :=
    h.nested.outer
  cases hr with
  | passes => exact h
  | opens scope htop hc =>
    exact ⟨h.nested.blocks htop, fun _ => rfl⟩
  | strays f htop => exact ⟨h.nested, h.idle⟩
  | closes frame outer hs hframe =>
    exact orderly_of_blocks (hbelow hs) (h.idle (by rw [top_cons hs, hframe]))
  | collects hcollects =>
    exact ⟨h.nested, fun hidle => Bool.noConfusion (hcollects.symm.trans hidle)⟩
  | separates hfields =>
    have hcollects := Scope.collects_of_hasFields hfields
    exact ⟨h.nested, fun hidle => Bool.noConfusion (hcollects.symm.trans hidle)⟩
  | rejects f hcollects =>
    exact ⟨h.nested, fun hidle => Bool.noConfusion (hcollects.symm.trans hidle)⟩
  | discards frame outer hs => exact orderly_of_blocks (hbelow hs) rfl
  | commits d frame outer hs =>
    refine orderly_of_blocks ?_ ?_
    · rw [scopes_settle]
      exact hbelow hs
    · rw [item_settle]
      rfl
  | abandons frame outer hs => exact orderly_of_blocks (hbelow hs) rfl
  | names frame outer hs =>
    refine orderly_of_blocks ?_ ?_
    · rw [scopes_declareBlock]
      exact blocks_cons _ (hbelow hs)
    · rw [item_declareBlock]
      rfl
  | numbers frame outer hs => exact orderly_of_blocks (blocks_cons _ (hbelow hs)) rfl
  | blanks frame outer hs => exact orderly_of_blocks (blocks_cons _ (hbelow hs)) rfl
  | drops frame outer hs =>
    exact orderly_of_blocks (fun f hf => hbelow hs f (List.mem_of_mem_tail hf)) rfl
  | interrupts frame outer hs =>
    exact orderly_of_blocks (fun f hf => hbelow hs f (List.mem_of_mem_tail hf)) rfl

theorem orderly_begin (place : μ) : (begin place).Orderly :=
  ⟨fun _ hframe => absurd hframe List.not_mem_nil, fun _ => rfl⟩

theorem readAll_induction {P : Scan μ → Prop}
    (hstep : ∀ {s t : Scan μ} {place : μ} {c : Char}, s.Orderly → Reads place c s t → P s → P t)
    {s : Scan μ} (h : s.Orderly) (hs : P s) (source : List (μ × Char)) :
    P (s.readAll source) := by
  induction source generalizing s with
  | nil => exact hs
  | cons p source ih =>
    have hr := reads_read h p.1 p.2
    exact ih (hr.orderly h) (hstep h hr hs)

theorem orderly_readAll {s : Scan μ} (h : s.Orderly) (source : List (μ × Char)) :
    (s.readAll source).Orderly :=
  readAll_induction (fun h hr _ => hr.orderly h) h h source

/-- Closing reports a fault for each scope that is left unfinished. -/
theorem close_eq (place : μ) (s : Scan μ) :
    s.close place = { s with scopes := [], log :=
      ((s.scopes.filterMap (unfinished? s.item.spoilt)).map fun f =>
        ⟨.fault f, some place, .block⟩).reverse ++ s.log } := by
  have hfold : ∀ (faults : List Fault) (t : Scan μ), t.scopes = [] →
      faults.foldl (fun t f => t.report (.fault f) place) t =
        { t with log := (faults.map fun f => ⟨.fault f, some place, .block⟩).reverse ++ t.log } := by
    intro faults
    induction faults with
    | nil => exact fun t _ => rfl
    | cons f faults ih =>
      intro t ht
      rw [List.foldl_cons, ih (t.report (.fault f) place) ht]
      simp [report, ht, Scopes.top]
  exact hfold _ { s with scopes := [] } rfl

theorem draft_close (place : μ) (s : Scan μ) : (s.close place).draft = s.draft := by
  rw [close_eq]

end Scan

/-- A source read from its first place; the scopes that are open at its end stay open. -/
def readSource (source : List Char) : Scan Mark :=
  (Scan.begin Mark.origin).readAll (Mark.origin.locate source)

theorem scanSource_eq (source : List Char) :
    scanSource source = (readSource source).close (Mark.origin.after source) := rfl

theorem readSource_append (front back : List Char) :
    readSource (front ++ back) =
      (readSource front).readAll ((Mark.origin.after front).locate back) := by
  rw [readSource, Mark.locate_append, Scan.readAll_append, ← readSource]

theorem orderly_readSource (source : List Char) : (readSource source).Orderly :=
  Scan.orderly_readAll (Scan.orderly_begin Mark.origin) _

end TapeMachine
