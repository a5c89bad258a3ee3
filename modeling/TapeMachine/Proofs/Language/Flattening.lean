import TapeMachine.Proofs.Language.Recognition
import TapeMachine.Proofs.Language.Rooted
import TapeMachine.Proofs.Language.WellFormed
/-!
# Descriptions without blocks

A block can be written without its braces: its opening becomes a declaration of its name, and its
directives are written outside of it. Nothing is lost by that in a source without errors: its program
and its reports stay the same.
-/
namespace TapeMachine

namespace Directive

theorem Body.fields {d : Directive} {fields : List (List Char)} {text : List Char}
    (h : d.Body fields text) : d.Fields fields := by
  induction h with
  | empty => exact ⟨by simp, by simp, fun _ => ⟨[], rfl⟩⟩
  | letter hc _ ih =>
    refine ⟨by simp, ?_, ?_⟩
    · have hletters := ih.letters
      simp only [List.forall_mem_cons] at hletters ⊢
      exact ⟨⟨hc, hletters.1⟩, hletters.2⟩
    · intro hd
      obtain ⟨field, hfield⟩ := ih.single hd
      cases hfield
      exact ⟨_, rfl⟩
  | @separator c _ _ hc _ ih =>
    refine ⟨by simp, by simpa using ih.letters, ?_⟩
    intro hd
    have hnone : d.separates c = false := by
      cases d <;> simp_all [hasFields, separates]
    exact Bool.noConfusion (hc.symm.trans hnone)
  | ignored _ _ ih => exact ih

theorem Body.field_append {d : Directive} {field : List Char} {rest : List (List Char)}
    {text : List Char} (hletters : ∀ c ∈ field, d.accepts c = true) (h : d.Body ([] :: rest) text) :
    d.Body (field :: rest) (field ++ text) := by
  induction field with
  | nil => exact h
  | cons c field ih =>
    rw [List.forall_mem_cons] at hletters
    exact .letter hletters.1 (ih hletters.2)

theorem Fields.body {d : Directive} {fields : List (List Char)} (h : d.Fields fields) :
    d.Body fields (List.intercalate [':'] fields) := by
  induction fields with
  | nil => exact absurd rfl h.nonempty
  | cons field rest ih =>
    have hletters := h.letters
    rw [List.forall_mem_cons] at hletters
    cases rest with
    | nil =>
      have hfield := Body.field_append hletters.1 (.empty (d := d))
      simpa using hfield
    | cons next rest =>
      have hd : d.hasFields = true := by
        rw [← Bool.not_eq_false]
        intro hnone
        obtain ⟨_, hsingle⟩ := h.single hnone
        cases hsingle
      have hrest := ih ⟨by simp, hletters.2, fun hnone => Bool.noConfusion (hd.symm.trans hnone)⟩
      rw [List.intercalate_cons_cons, List.append_assoc]
      exact Body.field_append hletters.1 (.separator (by simp [separates, hd]) hrest)

theorem accepts_isState {d : Directive} (hd : d ≠ tape ∧ d ≠ alphabet) {c : Char}
    (hc : Glyph.isState c = true) : d.accepts c = true := by
  cases d with
  | tape => exact absurd rfl hd.1
  | alphabet => exact absurd rfl hd.2
  | transition =>
    simp only [Glyph.isState, Bool.or_eq_true] at hc
    rcases hc with hc | hc <;> simp [accepts, Glyph.isTransition, Glyph.isCell, hc]
  | initial => exact hc
  | halts => exact hc
  | states => exact hc

private theorem letters_rootedName {d : Directive} (hd : d ≠ tape ∧ d ≠ alphabet)
    {path : List Name} (hpath : ∀ part ∈ path, part.Part) {field : List Char}
    (h : ∀ c ∈ field, d.accepts c = true) : ∀ c ∈ rootedName path field, d.accepts c = true := by
  intro c hc
  rw [rootedName] at hc
  split at hc
  · exact h c hc
  · rcases Name.mem_under hc with ⟨part, hpart, hc⟩ | rfl | hc
    · exact accepts_isState hd (List.all_eq_true.mp (Name.isStateName_of_part (hpath part hpart)) c hc)
    · exact accepts_isState hd (by decide)
    · exact h c hc

private theorem letters_rootedSource {d : Directive} (hd : d ≠ tape ∧ d ≠ alphabet)
    {path : List Name} (hpath : ∀ part ∈ path, part.Part) {field : List Char}
    (h : ∀ c ∈ field, d.accepts c = true) : ∀ c ∈ rootedSource path field, d.accepts c = true := by
  rw [rootedSource]
  split
  next hblank =>
    have hletters := (Name.local_join hblank.1 hpath).letters
    exact fun c hc => accepts_isState hd (List.all_eq_true.mp hletters c hc)
  next => exact letters_rootedName hd hpath h

private theorem Fields.map_rootedName {d : Directive} (hd : d ≠ tape ∧ d ≠ alphabet)
    {fields : List (List Char)} (h : d.Fields fields) {path : List Name}
    (hpath : ∀ part ∈ path, part.Part) : d.Fields (fields.map (rootedName path)) where
  nonempty := by simpa using h.nonempty
  letters := by
    intro field hfield
    obtain ⟨inner, hinner, rfl⟩ := List.mem_map.mp hfield
    exact letters_rootedName hd hpath (h.letters inner hinner)
  single := by
    intro hnone
    obtain ⟨field, rfl⟩ := h.single hnone
    exact ⟨_, rfl⟩

theorem Fields.rooted {d : Directive} {fields : List (List Char)} (h : d.Fields fields)
    {path : List Name} (hpath : ∀ part ∈ path, part.Part) : d.Fields (d.rooted path fields) := by
  cases d with
  | tape => exact h
  | alphabet => exact h
  | transition =>
    unfold Directive.rooted
    split
    · have hletters := h.letters
      simp only [List.forall_mem_cons, List.not_mem_nil, false_implies, implies_true,
        and_true] at hletters
      obtain ⟨hstate, hread, htarget, hwrite, hdirection⟩ := hletters
      refine ⟨by simp, ?_, fun hnone => nomatch hnone⟩
      simp only [List.forall_mem_cons, List.not_mem_nil, false_implies, implies_true, and_true]
      exact ⟨letters_rootedSource (by decide) hpath hstate, hread,
        letters_rootedName (by decide) hpath htarget, hwrite, hdirection⟩
    next heq => cases heq
    next heq => cases heq
    next heq => cases heq
    next => exact h
  | initial => exact h.map_rootedName (by decide) hpath
  | halts => exact h.map_rootedName (by decide) hpath
  | states => exact h.map_rootedName (by decide) hpath

end Directive

namespace Description

def append : Description → Description → Description
  | empty, more => more
  | directive d fields rest, more => directive d fields (rest.append more)
  | block name inner rest, more => block name inner (rest.append more)

/-- A description inside the blocks of `path`, written without blocks and outside of all. -/
def flatten (path : List Name) : Description → Description
  | empty => empty
  | directive d fields rest => directive d (d.rooted path fields) (rest.flatten path)
  | block name inner rest =>
    directive .states [Name.join (path ++ [name])]
      ((inner.flatten (path ++ [name])).append (rest.flatten path))

theorem actions_append (path : List Name) (items more : Description) :
    (items.append more).actions path = items.actions path ++ more.actions path := by
  induction items with
  | empty => rfl
  | directive d fields rest ih => simp [append, actions, ih]
  | block name inner rest _ ih => simp [append, actions, ih]

theorem Derives.append {items others : Description} {text more : List Char}
    (h : items.Derives text) (hmore : others.Derives more) :
    (items.append others).Derives (text ++ more) := by
  induction h with
  | empty => exact hmore
  | directive hbody _ ih =>
    rw [List.cons_append, List.append_assoc, List.cons_append]
    exact .directive hbody ih
  | block hname hinner _ _ ih =>
    have hblock := Derives.block hname hinner ih
    simpa [Description.append] using hblock

private theorem part_concat {path : List Name} (hpath : ∀ part ∈ path, part.Part) {name : Name}
    (hname : name.Part) : ∀ part ∈ path ++ [name], part.Part := by
  simpa [or_imp, forall_and, hname] using hpath

theorem Derives.flatten {items : Description} {text : List Char} (h : items.Derives text)
    {path : List Name} (hpath : ∀ part ∈ path, part.Part) :
    ∃ flat, (items.flatten path).Derives flat := by
  induction h generalizing path with
  | empty => exact ⟨[], .empty⟩
  | directive hbody _ ih =>
    obtain ⟨flat, hflat⟩ := ih hpath
    exact ⟨_, .directive (hbody.fields.rooted hpath).body hflat⟩
  | @block name inner rest _ _ hname _ _ ihinner ihrest =>
    have hinside := part_concat hpath hname
    obtain ⟨first, hfirst⟩ := ihinner hinside
    obtain ⟨others, hothers⟩ := ihrest hpath
    have hletters := (Name.local_join (by simp) hinside).letters
    have hstates : Directive.Fields .states [Name.join (path ++ [name])] := by
      refine ⟨by simp, ?_, fun hnone => nomatch hnone⟩
      intro field hfield
      rw [List.mem_singleton.mp hfield]
      exact List.all_eq_true.mp hletters
    exact ⟨_, .directive hstates.body (hfirst.append hothers)⟩

end Description

namespace Draft

variable {path : List Name}

theorem enact_rooted (hpath : ∀ part ∈ path, part.Part) {d : Directive}
    {fields : List (List Char)} (hfields : d.Fields fields) {draft : Draft Unit}
    (h : ∀ cause ∈ (draft.enact (.apply path d fields)).2, cause.severity ≠ .error) :
    draft.enact (.apply [] d (d.rooted path fields)) = draft.enact (.apply path d fields) := by
  simp only [enact] at h ⊢
  cases happly : draft.apply path d () fields with
  | error r =>
    rw [happly] at h
    exact absurd rfl (h (.refusal r) List.mem_cons_self)
  | ok result => rw [apply_rooted hpath hfields happly]

theorem enactAll_flatten {items : Description} {text : List Char} (h : items.Derives text)
    (hpath : ∀ part ∈ path, part.Part) {draft : Draft Unit}
    (hclean : ∀ cause ∈ (enactAll (items.actions path) draft).2, cause.severity ≠ .error) :
    enactAll ((items.flatten path).actions []) draft = enactAll (items.actions path) draft := by
  -- By induction on the derivation: without refusals a description amounts to the flattened one.
  induction h generalizing path draft with
  | empty => rfl
  | directive hbody _ ih =>
    rw [Description.actions, enactAll_cons] at hclean ⊢
    rw [Description.flatten, Description.actions, enactAll_cons,
      enact_rooted hpath hbody.fields fun cause hcause =>
        hclean cause (List.mem_append_left _ hcause),
      ih hpath fun cause hcause => hclean cause (List.mem_append_right _ hcause)]
  | @block name inner rest _ _ hname _ _ ihinner ihrest =>
    -- The reports of the parts are among those of the whole, so no part holds a refusal.
    have hinside := Description.part_concat hpath hname
    rw [Description.actions, enactAll_cons, enactAll_append] at hclean ⊢
    rw [Description.flatten, Description.actions, enactAll_cons, Description.actions_append,
      enactAll_append, enact_declare draft (by simp) hinside,
      ihinner hinside fun cause hcause =>
        hclean cause (List.mem_append_right _ (List.mem_append_left _ hcause)),
      ihrest hpath fun cause hcause =>
        hclean cause (List.mem_append_right _ (List.mem_append_right _ hcause))]

end Draft

/-- A source whose tree is that of another one with its blocks written without braces. -/
def Flattens (source flat : List Char) : Prop :=
  ∃ items : Description, items.Derives (bareSource source) ∧
    (items.flatten []).Derives (bareSource flat)

variable {μ ν : Type}

theorem Diagnostic.errorCount_eq (ds : List (Diagnostic μ)) :
    errorCount ds = (ds.map (·.cause)).countP (·.severity == .error) := by
  rw [List.countP_map]
  rfl

theorem Scan.causes_verdict (s : Scan μ) :
    s.verdict.map (·.cause) = s.diagnostics.map (·.cause) ++
      (s.draft.table.problems (s.draft.initial.map (·.1))).map .problem := by
  simp [verdict, problemReports]

theorem compile_congr {source other : List Char}
    (hdraft : (scanSource source).draft.recast (fun _ => ()) =
      (scanSource other).draft.recast fun _ => ())
    (hcauses : (scanSource source).diagnostics.map (·.cause) =
      (scanSource other).diagnostics.map (·.cause)) :
    (compile source).program = (compile other).program ∧
      (compile source).diagnostics.map (·.cause) = (compile other).diagnostics.map (·.cause) := by
  have hinitial : ∀ text, (scanSource text).draft.initial.map (·.1) =
      ((scanSource text).draft.recast fun _ => ()).initial.map (·.1) := by
    intro text
    simp [Draft.recast, Option.map_map, Function.comp_def]
  have htable : (scanSource source).draft.table = (scanSource other).draft.table := by
    have hrecast := congrArg Draft.table hdraft
    exact hrecast
  have hverdict : (scanSource source).verdict.map (·.cause) =
      (scanSource other).verdict.map (·.cause) := by
    rw [Scan.causes_verdict, Scan.causes_verdict, hcauses, htable, hinitial source,
      hinitial other, hdraft]
  rw [program_compile, program_compile, diagnostics_compile, diagnostics_compile]
  refine ⟨?_, hverdict⟩
  rw [Scan.program?, Scan.program?, Diagnostic.errorCount_eq, Diagnostic.errorCount_eq, hverdict,
    ← Draft.program?_recast (fun _ => ()) (scanSource source).draft, hdraft,
    Draft.program?_recast]

/--
A source without errors has the same program and the same reports when its blocks are written
without their braces, with their names in front of the names inside them.
-/
theorem compile_flattened (source : List Char)
    (h : ∀ d ∈ (compile source).diagnostics, d.severity ≠ .error) :
    ∃ p, (compile source).program = some p ∧ (∃ flat, Flattens source flat) ∧
      ∀ flat, Flattens source flat → (compile flat).program = some p ∧
        (compile flat).diagnostics.map (fun d => (d.severity, d.message)) =
          (compile source).diagnostics.map fun d => (d.severity, d.message) := by
  have hprogram : (compile source).program.isSome = true :=
    Scan.program?_isSome.mpr (Diagnostic.errorCount_eq_zero.mpr h)
  obtain ⟨p, hp⟩ := Option.isSome_iff_exists.mp hprogram
  have hscan : ∀ d ∈ (scanSource source).diagnostics, d.severity ≠ .error :=
    fun d hd => h d (List.mem_append_left _ hd)
  have hroot : ∀ part ∈ ([] : List Name), part.Part := fun _ hpart => absurd hpart List.not_mem_nil
  refine ⟨p, hp, ?_, ?_⟩
  · obtain ⟨items, hitems⟩ := derives_of_refusals fun d hd herror => absurd herror (hscan d hd)
    obtain ⟨flat, hflat⟩ := hitems.flatten hroot
    refine ⟨flat, items, hitems, ?_⟩
    -- A text that is derived holds no layout, so it is a source of its own.
    have hbare := bare_of_derives hflat []
    simp only [List.append_nil, Scope.bare] at hbare
    rwa [bareSource, hbare]
  · rintro flat ⟨items, hitems, hflat⟩
    obtain ⟨-, hdraft, hcauses⟩ := scanSource_of_derives hitems
    obtain ⟨-, hdraft', hcauses'⟩ := scanSource_of_derives hflat
    have hclean : ∀ cause ∈ (Draft.enactAll (items.actions []) Draft.empty).2,
        cause.severity ≠ .error := by
      rw [← hcauses]
      intro cause hcause
      obtain ⟨d, hd, rfl⟩ := List.mem_map.mp hcause
      exact hscan d hd
    have hsame := Draft.enactAll_flatten hitems hroot hclean
    rw [hsame, ← hdraft] at hdraft'
    rw [hsame, ← hcauses] at hcauses'
    obtain ⟨hequal, hreports⟩ := compile_congr hdraft' hcauses'
    refine ⟨hequal.trans hp, ?_⟩
    have hseen := congrArg (List.map fun cause : Cause => (cause.severity, cause.message)) hreports
    simpa [Function.comp_def, Diagnostic.severity, Diagnostic.message] using hseen

/-- The transition of a block itself, and a reference to a state inside the block. -/
theorem compile_flattened_block :
    let source := [':', 'm', '\x7b', '$', ':', '1', '-', '>', 'b', ':', '_', ':', 'R', ';', '!', 'b',
      ';', '\x7d']
    let flat := ['*', 'm', ';', '\n', '$', 'm', ':', '1', '>', 'm', '.', 'b', ':', '_', ':', 'R', ';',
      '!', 'm', '.', 'b', ';']
    ∃ p, (compile source).program = some p ∧ (compile flat).program = some p ∧
      p.table.names = [['m'], ['m', '.', 'b']] := by
  intro source flat
  have hclean : ∀ d ∈ (compile source).diagnostics, d.severity ≠ .error := by decide +kernel
  have hletter : Glyph.isNamespace 'm' = true := by decide
  have hname : Name.Part ['m'] := ⟨by decide, by simpa using hletter⟩
  have hrule : Directive.Body .transition [[], ['1'], ['b'], ['_'], ['R']]
      [':', '1', '-', '>', 'b', ':', '_', ':', 'R'] :=
    .separator rfl (.letter (by decide) (.ignored rfl (.separator rfl (.letter (by decide)
      (.separator rfl (.letter (by decide) (.separator rfl (.letter (by decide) .empty))))))))
  have hinitial : Directive.Body .initial [['b']] ['b'] := .letter (by decide) .empty
  have hsource := Description.Derives.block hname
    (.directive hrule (.directive hinitial .empty)) .empty
  have hstates : Directive.Body .states [['m']] ['m'] := .letter (by decide) .empty
  have hrooted : Directive.Body .transition [['m'], ['1'], ['m', '.', 'b'], ['_'], ['R']]
      ['m', ':', '1', '>', 'm', '.', 'b', ':', '_', ':', 'R'] :=
    .letter (by decide) (.separator rfl (.letter (by decide) (.separator rfl (.letter (by decide)
      (.letter (by decide) (.letter (by decide) (.separator rfl (.letter (by decide)
        (.separator rfl (.letter (by decide) .empty))))))))))
  have hrooted' : Directive.Body .initial [['m', '.', 'b']] ['m', '.', 'b'] :=
    .letter (by decide) (.letter (by decide) (.letter (by decide) .empty))
  have hflat := Description.Derives.directive hstates
    (.directive hrooted (.directive hrooted' .empty))
  have hflattens : Flattens source flat := by
    have hbare : bareSource source = source := by decide
    have hbare' : bareSource flat = ['*', 'm', ';', '$', 'm', ':', '1', '>', 'm', '.', 'b', ':', '_',
      ':', 'R', ';', '!', 'm', '.', 'b', ';'] := by decide
    rw [Flattens, hbare, hbare']
    exact ⟨_, hsource, hflat⟩
  have hnames : (scanSource source).draft.table.names = [['m'], ['m', '.', 'b']] := by decide
  obtain ⟨p, hp, -, hsame⟩ := compile_flattened source hclean
  have hprogram : (scanSource source).program? = some p := by rw [← program_compile, hp]
  have htable : p.table = (scanSource source).draft.table := (Scan.program?_eq_some hprogram).1
  obtain ⟨hequal, -⟩ := hsame flat hflattens
  exact ⟨p, hp, hequal, by rw [htable, hnames]⟩

end TapeMachine
