import TapeMachine.Proofs.Language.Reading
/-!
# Scans with other places

Reading carries places along and adds to the log, but looks at neither. So the places may be
exchanged for others, and older reports put below the log, before a text is read or after it. Two
scans that differ in nothing else go on alike (`readAll_agree`).
-/
namespace TapeMachine

variable {μ ν : Type}

def Item.recast (f : μ → ν) (item : Item μ) : Item ν :=
  ⟨item.fields, item.current, item.spoilt, f item.start⟩

def Draft.recast (f : μ → ν) (draft : Draft μ) : Draft ν :=
  ⟨draft.table, draft.alphabet, draft.tape, draft.initial.map (Prod.map id f), draft.halts⟩

/-- What came of a directive, with places of another kind. -/
def Applied.recast (f : μ → ν) : Applied μ → Applied ν
  | .error r => .error r
  | .ok (draft, notices) => .ok (draft.recast f, notices)

def Diagnostic.recast (f : μ → ν) (d : Diagnostic μ) : Diagnostic ν :=
  ⟨d.cause, d.place.map f, d.scope⟩

def Diagnostic.gist (d : Diagnostic μ) : Severity × String × Scope :=
  (d.severity, d.message, d.scope)

def Scan.recast (f : μ → ν) (older : List (Diagnostic ν)) (s : Scan μ) : Scan ν :=
  ⟨s.scopes, s.item.recast f, s.draft.recast f, s.log.map (·.recast f) ++ older⟩

namespace Draft

variable (f : μ → ν) (path : List Name) (draft : Draft μ)

private theorem setTape_recast (content : List Char) :
    (draft.recast f).setTape content = Applied.recast f (draft.setTape content) := by
  have hallows : (draft.recast f).allows = draft.allows := rfl
  rw [setTape, setTape, hallows]
  split
  · rfl
  · cases content.find? (!draft.allows ·) with
    | some c => rfl
    | none => rfl

private theorem setInitial_recast (start : μ) (field : List Char) :
    (draft.recast f).setInitial path (f start) field =
      Applied.recast f (draft.setInitial path start field) := by
  have hresolve : (draft.recast f).resolve path .initial field =
      draft.resolve path .initial field := rfl
  rw [setInitial, setInitial, hresolve, recast]
  cases draft.resolve path .initial field with
  | error r => rfl
  | ok name =>
    cases draft.initial with
    | none => rfl
    | some previous => rfl

private theorem haltNames_recast (fields : List (List Char)) :
    haltNames path (draft.recast f) fields = haltNames path draft fields := by
  induction fields with
  | nil => rfl
  | cons field fields ih =>
    rw [haltNames, haltNames, ih]
    rfl

private theorem addStates_recast (fields : List (List Char)) :
    (draft.recast f).addStates path fields = Applied.recast f (draft.addStates path fields) := by
  rw [addStates, addStates]
  cases fields.find? fun field => field.isEmpty || field.head? == some Glyph.separator with
  | some field => rfl
  | none => rfl

theorem apply_recast (d : Directive) (start : μ) (fields : List (List Char)) :
    (draft.recast f).apply path d (f start) fields =
      Applied.recast f (draft.apply path d start fields) := by
  cases d with
  | tape => exact setTape_recast f draft fields.flatten
  | alphabet =>
    change (draft.recast f).setAlphabet fields = Applied.recast f (draft.setAlphabet fields)
    rw [setAlphabet, setAlphabet]
    cases symbols fields with
    | error r => rfl
    | ok found => rfl
  | transition =>
    have ht : (draft.recast f).transition path fields = draft.transition path fields := by
      unfold transition
      rfl
    change (draft.recast f).addTransition path fields =
      Applied.recast f (draft.addTransition path fields)
    rw [addTransition, addTransition, ht]
    cases draft.transition path fields with
    | error r => rfl
    | ok t => rfl
  | initial => exact setInitial_recast f path draft start fields.flatten
  | halts =>
    change (draft.recast f).addHalts path fields = Applied.recast f (draft.addHalts path fields)
    rw [addHalts, addHalts, haltNames_recast]
    cases haltNames path draft fields with
    | error r => rfl
    | ok names => rfl
  | states => exact addStates_recast f path draft fields

theorem initial_recast : (draft.recast f).initial.map Prod.fst = draft.initial.map Prod.fst := by
  rw [recast, Option.map_map]
  rfl

theorem program?_recast : (draft.recast f).program? = draft.program? := by
  rw [program?, program?, recast]
  cases draft.initial <;> rfl

end Draft

namespace Scan

variable (f : μ → ν) (older : List (Diagnostic ν)) (place : μ) (s : Scan μ)

@[simp] theorem scopes_recast : (s.recast f older).scopes = s.scopes := rfl

@[simp] theorem draft_recast : (s.recast f older).draft = s.draft.recast f := rfl

@[simp] theorem item_recast : (s.recast f older).item = s.item.recast f := rfl

private theorem dropItem_recast :
    (s.recast f older).dropItem (f place) = (s.dropItem place).recast f older := rfl

private theorem report_recast (cause : Cause) :
    (s.recast f older).report cause (f place) = (s.report cause place).recast f older := rfl

private theorem reportAll_recast (notices : List Notice) :
    (s.recast f older).reportAll notices (f place) =
      (s.reportAll notices place).recast f older := by
  induction notices generalizing s with
  | nil => rfl
  | cons n notices ih => exact ih (s.report (.notice n) place)

private theorem leave_recast (scope : Scope) :
    (s.recast f older).leave scope (f place) = (s.leave scope place).recast f older := by
  rw [leave, leave, scopes_recast]
  cases s.scopes.exit scope with
  | ok exited => rfl
  | error e => rfl

private theorem declareBlock_recast :
    (s.recast f older).declareBlock (f place) = (s.declareBlock place).recast f older := by
  let declared := Draft.declare (s.scopes.qualify Name.anonymous) s.draft.table
  exact reportAll_recast f older place
    { s with draft := { s.draft with table := declared.1 } } declared.2

private theorem openBlock_recast (name : Option Name) :
    (s.recast f older).openBlock name (f place) = (s.openBlock name place).recast f older := by
  cases name with
  | none => rfl
  | some name =>
    exact declareBlock_recast f older place { s with scopes := s.scopes.enter .block (some name) }

private theorem finishName_recast :
    (s.recast f older).finishName (f place) = (s.finishName place).recast f older := by
  simp only [finishName, item_recast, Item.recast, dropItem_recast, leave_recast, report_recast,
    openBlock_recast]
  split
  · rfl
  · split
    · rfl
    · rfl

private theorem abandonName_recast :
    (s.recast f older).abandonName (f place) = (s.abandonName place).recast f older := by
  simp only [abandonName, item_recast, Item.recast, dropItem_recast, leave_recast, report_recast]
  split
  · rfl
  · rfl

private theorem leaveBlock_recast (spoilt : Bool) :
    (s.recast f older).leaveBlock spoilt (f place) =
      (s.leaveBlock spoilt place).recast f older := by
  rw [leaveBlock, leaveBlock, scopes_recast]
  cases s.scopes.exit .block with
  | ok exited => rfl
  | error e => cases spoilt <;> rfl

private theorem interrupt_recast (scope : Scope) :
    (s.recast f older).interrupt scope (f place) = (s.interrupt scope place).recast f older := by
  simp only [interrupt, item_recast, Item.recast, dropItem_recast, leaveBlock_recast, leave_recast,
    scopes_recast]
  split
  · rfl
  · rfl

private theorem settle_recast (applied : Applied μ) :
    (s.recast f older).settle (f place) (Applied.recast f applied) =
      (s.settle place applied).recast f older := by
  cases applied with
  | error r => rfl
  | ok result =>
    obtain ⟨draft, notices⟩ := result
    exact reportAll_recast f older place { s with draft } notices

private theorem commit_recast (d : Directive) :
    (s.recast f older).commit d (f place) = (s.commit d place).recast f older := by
  have hfields : (s.item.recast f).allFields = s.item.allFields := rfl
  simp only [commit, item_recast, dropItem_recast, leave_recast, draft_recast, scopes_recast,
    hfields]
  simp only [Item.recast, Draft.apply_recast, settle_recast]
  split
  · rfl
  · rfl

private theorem collect_recast (scope : Scope) (c : Char) :
    (s.recast f older).collect scope (f place) c = (s.collect scope place c).recast f older := by
  rw [collect, collect, item_recast, Item.recast]
  split
  · rfl
  · split
    · split
      · rfl
      · rfl
    · split
      · rfl
      · rfl

private theorem readInBlock_recast (c : Char) :
    (s.recast f older).readInBlock (f place) c = (s.readInBlock place c).recast f older := by
  rw [readInBlock, readInBlock]
  split
  · exact leave_recast f older place s .block
  · split
    · rfl
    · split
      · rfl
      · rfl

private theorem readInName_recast (c : Char) :
    (s.recast f older).readInName (f place) c = (s.readInName place c).recast f older := by
  rw [readInName, readInName]
  split
  · exact finishName_recast f older place s
  · split
    · exact abandonName_recast f older place s
    · split
      · exact interrupt_recast f older place s .blockName
      · exact collect_recast f older place s .blockName c

private theorem readInDirective_recast (d : Directive) (c : Char) :
    (s.recast f older).readInDirective d (f place) c =
      (s.readInDirective d place c).recast f older := by
  rw [readInDirective, readInDirective]
  split
  · exact interrupt_recast f older place s (.directive d)
  · split
    · exact commit_recast f older place s d
    · split
      · rfl
      · split
        · exact collect_recast f older place s (.directive d) ':'
        · exact collect_recast f older place s (.directive d) c

/-- It does not matter whether places are exchanged before or after a character. -/
theorem read_recast (c : Char) :
    (s.recast f older).read (f place) c = (s.read place c).recast f older := by
  rw [read, read, scopes_recast]
  cases s.scopes.top with
  | comment =>
    simp only [leave_recast]
    split
    · rfl
    · rfl
  | block =>
    simp only [readInBlock_recast]
    split
    · rfl
    · rfl
  | blockName =>
    simp only [readInName_recast]
    split
    · rfl
    · rfl
  | directive d =>
    simp only [readInDirective_recast]
    split
    · rfl
    · rfl

theorem readAll_recast (source : List (μ × Char)) :
    (s.recast f older).readAll (source.map (Prod.map f id)) =
      (s.readAll source).recast f older := by
  induction source generalizing s with
  | nil => rfl
  | cons p source ih =>
    rw [List.map_cons]
    change ((s.recast f older).read (f p.1) p.2).readAll _ = _
    rw [read_recast, ih]
    rfl

/-- What decides how a scan goes on: all of it but its places and its log. -/
def core (s : Scan μ) : Scan Unit := { s with log := [] }.recast (fun _ => ()) []

/-- The reports of a scan as they are seen without their places. -/
def gists (s : Scan μ) : List (Severity × String × Scope) := s.diagnostics.map Diagnostic.gist

theorem scopes_eq_of_core {s t : Scan μ} (h : s.core = t.core) : s.scopes = t.scopes := by
  change s.core.scopes = t.core.scopes
  rw [h]

private theorem item_eq_of_core {s t : Scan μ} (h : s.core = t.core) :
    s.item.recast (fun _ => ()) = t.item.recast fun _ => () := by
  change s.core.item = t.core.item
  rw [h]

private theorem recast_draft_eq_of_core {s t : Scan μ} (h : s.core = t.core) :
    s.draft.recast (fun _ => ()) = t.draft.recast fun _ => () := by
  change s.core.draft = t.core.draft
  rw [h]

theorem draft_eq_of_core {s t : Scan μ} (h : s.core = t.core) :
    s.draft.table = t.draft.table ∧ s.draft.alphabet = t.draft.alphabet ∧
      s.draft.tape = t.draft.tape ∧
      s.draft.initial.map Prod.fst = t.draft.initial.map Prod.fst ∧
      s.draft.halts = t.draft.halts := by
  obtain ⟨htable, halphabet, htape, hinitial, hhalts⟩ :=
    Draft.mk.inj (recast_draft_eq_of_core h)
  have hnames : (s.draft.recast _).initial.map Prod.fst = (t.draft.recast _).initial.map Prod.fst :=
    congrArg (Option.map Prod.fst) hinitial
  rw [Draft.initial_recast, Draft.initial_recast] at hnames
  exact ⟨htable, halphabet, htape, hnames, hhalts⟩

theorem core_eq_of_idle {s : Scan μ} (h : s.item.Idle) (place : μ) (log : List (Diagnostic μ)) :
    ({ s with item := Item.fresh place, log } : Scan μ).core = s.core := by
  have hitem : s.item.recast (fun _ => ()) = Item.fresh () := by
    rw [h]
    rfl
  simp only [core, recast, hitem]
  rfl

private theorem recast_eq_of_core {s t : Scan μ} (h : s.core = t.core) :
    s.recast (fun _ => ()) [] =
      { t with log := [] }.recast (fun _ => ()) (s.log.map (Diagnostic.recast fun _ => ())) := by
  have hscopes := scopes_eq_of_core h
  have hitem := item_eq_of_core h
  have hdraft := recast_draft_eq_of_core h
  simp only [recast, hscopes, hitem, hdraft, List.append_nil, List.map_nil, List.nil_append]

private theorem gists_eq (s : Scan μ) :
    s.gists = ((s.recast (fun _ => ()) []).log.map Diagnostic.gist).reverse := by
  simp only [gists, diagnostics, recast, List.append_nil, List.map_map, List.map_reverse]
  rfl

theorem map_forget_locate (gap : Mark) (source : List Char) :
    (gap.locate source).map (Prod.map (fun _ => ()) id) = source.map (Prod.mk ()) := by
  induction source generalizing gap with
  | nil => rfl
  | cons c source ih => exact congrArg (((), c) :: ·) (ih (gap.past c))

/-- Two scans that agree but for places and logs still do after a text, with the same new reports. -/
theorem readAll_agree {s t : Scan Mark} (h : s.core = t.core) (gap gap' : Mark)
    (source : List Char) :
    (s.readAll (gap.locate source)).core = (t.readAll (gap'.locate source)).core ∧
      ∃ later, (s.readAll (gap.locate source)).gists = s.gists ++ later ∧
        (t.readAll (gap'.locate source)).gists = t.gists ++ later := by
  let forget : Mark → Unit := fun _ => ()
  let bare := { t with log := [] }.readAll (gap.locate source)
  have hread : ∀ (u : Scan Mark) (gap' : Mark), u.core = t.core →
      (u.readAll (gap'.locate source)).recast forget [] =
        bare.recast forget (u.log.map (Diagnostic.recast forget)) := by
    intro u gap' hu
    rw [← readAll_recast, recast_eq_of_core hu, map_forget_locate, ← map_forget_locate gap,
      readAll_recast]
  have hcore : ∀ (u : Scan Mark) (gap' : Mark), u.core = t.core →
      (u.readAll (gap'.locate source)).core = bare.core := by
    intro u gap' hu
    exact congrArg (fun v : Scan Unit => { v with log := [] }) (hread u gap' hu)
  have hgists : ∀ (u : Scan Mark) (gap' : Mark), u.core = t.core →
      (u.readAll (gap'.locate source)).gists = u.gists ++ bare.gists := by
    intro u gap' hu
    rw [gists_eq, hread u gap' hu, gists_eq u, gists_eq bare]
    simp only [recast, List.append_nil, List.map_append, List.reverse_append]
  exact ⟨(hcore s gap h).trans (hcore t gap' rfl).symm, bare.gists, hgists s gap h,
    hgists t gap' rfl⟩

end Scan

end TapeMachine
