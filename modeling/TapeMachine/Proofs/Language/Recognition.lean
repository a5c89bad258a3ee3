import TapeMachine.Proofs.Language.Generation
import TapeMachine.Proofs.Language.Qualification
/-!
# Recognising a description

A scan that reports no fault has read a text that is derived. What its open scopes still demand of
the rest of the text is kept true by every character, read backwards from the end
(`completes_read`).
-/
namespace TapeMachine

/-- What `n` open blocks demand: each is filled and ended, and a description follows the last. -/
def Closes : Nat → List Char → Prop
  | 0, text => ∃ items : Description, items.Derives text
  | n + 1, text =>
    ∃ (items : Description) (inner more : List Char), items.Derives inner ∧
      text = inner ++ '\x7d' :: more ∧ Closes n more

namespace Closes

theorem close {n : Nat} {text : List Char} (h : Closes n text) : Closes (n + 1) ('\x7d' :: text) :=
  ⟨.empty, [], text, .empty, rfl, h⟩

theorem directive {n : Nat} {d : Directive} {fields : List (List Char)} {body text : List Char}
    (hbody : d.Body fields body) (h : Closes n text) :
    Closes n (d.opener :: (body ++ ';' :: text)) := by
  cases n with
  | zero =>
    obtain ⟨items, hitems⟩ := h
    exact ⟨_, .directive hbody hitems⟩
  | succ n =>
    obtain ⟨items, inner, more, hitems, rfl, hmore⟩ := h
    exact ⟨_, _, more, .directive hbody hitems, by simp, hmore⟩

theorem block {n : Nat} {name : Name} {text : List Char} (hname : name.Part)
    (h : Closes (n + 1) text) : Closes n (':' :: (name ++ '\x7b' :: text)) := by
  obtain ⟨inside, inner, more, hinside, rfl, hmore⟩ := h
  cases n with
  | zero =>
    obtain ⟨items, hitems⟩ := hmore
    exact ⟨_, .block hname hinside hitems⟩
  | succ n =>
    -- What stands between the new block and the end of the block around it becomes its rest.
    obtain ⟨items, next, others, hitems, rfl, hothers⟩ := hmore
    exact ⟨_, _, others, .block hname hinside hitems, by simp, hothers⟩

end Closes

namespace Scan

variable {μ : Type}

def Faultless (s : Scan μ) : Prop := ∀ d ∈ s.log, ∀ f, d.cause ≠ .fault f

theorem Faultless.of_logs {s t : Scan μ} (h : t.Faultless) (hlogs : s.Logs t) : s.Faultless :=
  fun d hd => h d (hlogs.mem hd)

theorem not_faultless {s : Scan μ} {f : Fault} {place : Option μ} {scope : Scope}
    {older : List (Diagnostic μ)} (h : s.log = ⟨.fault f, place, scope⟩ :: older) :
    ¬ s.Faultless := by
  intro hclean
  exact hclean ⟨.fault f, place, scope⟩ (by simp [h]) f rfl

def Completes (s : Scan Unit) (text : List Char) : Prop :=
  match s.scopes.top with
  | .block => Closes s.scopes.length text
  | .comment => Closes s.scopes.tail.length text
  | .directive d => ∃ fields body rest, text = body ++ ';' :: rest ∧ d.Body fields body ∧
      Closes s.scopes.tail.length rest
  | .blockName => ∃ letters rest, text = letters ++ '\x7b' :: rest ∧
      (∀ c ∈ letters, Glyph.isNamespace c = true) ∧ s.item.current.reverse ++ letters ≠ [] ∧
      Closes (s.scopes.tail.length + 1) rest

theorem completes_of_block {s : Scan Unit} (htop : s.scopes.top = .block) (text : List Char) :
    s.Completes text ↔ Closes s.scopes.length text := by
  rw [Completes, htop]

theorem completes_of_comment {s : Scan Unit} (htop : s.scopes.top = .comment) (text : List Char) :
    s.Completes text ↔ Closes s.scopes.tail.length text := by
  rw [Completes, htop]

theorem completes_of_directive {s : Scan Unit} {d : Directive}
    (htop : s.scopes.top = .directive d) (text : List Char) :
    s.Completes text ↔ ∃ fields body rest, text = body ++ ';' :: rest ∧ d.Body fields body ∧
      Closes s.scopes.tail.length rest := by
  rw [Completes, htop]

theorem completes_of_blockName {s : Scan Unit} (htop : s.scopes.top = .blockName)
    (text : List Char) :
    s.Completes text ↔ ∃ letters rest, text = letters ++ '\x7b' :: rest ∧
      (∀ c ∈ letters, Glyph.isNamespace c = true) ∧ s.item.current.reverse ++ letters ≠ [] ∧
      Closes (s.scopes.tail.length + 1) rest := by
  rw [Completes, htop]

private theorem completes_field {s : Scan Unit} {d : Directive}
    (htop : s.scopes.top = .directive d) (hsound : s.item.spoilt = false) {c : Char}
    (hlayout : isLayout c = false) (hends : (Scope.directive d).ends c = false)
    (hclean : (s.read () c).Faultless) {text : List Char} (h : (s.read () c).Completes text) :
    s.Completes (c :: text) := by
  obtain ⟨f, hread⟩ := read_field htop hsound () hlayout hends
  have hstep : ∀ item, s.read () c = { s with item } →
      (∀ fields body, d.Body fields body → ∃ fields', d.Body fields' (c :: body)) →
      s.Completes (c :: text) := by
    intro item heq hbody
    rw [heq, completes_of_directive (by exact htop)] at h
    obtain ⟨fields, body, rest, rfl, hfields, hrest⟩ := h
    obtain ⟨fields', hfields'⟩ := hbody fields body hfields
    exact (completes_of_directive htop _).mpr ⟨fields', c :: body, rest, rfl, hfields', hrest⟩
  by_cases hignored : d.ignores c = true
  · rw [if_pos hignored] at hread
    exact hstep s.item hread fun fields body hb => ⟨fields, .ignored hignored hb⟩
  · by_cases hseparates : d.separates c = true
    · rw [if_neg hignored, if_pos hseparates] at hread
      exact hstep _ hread fun fields body hb => ⟨[] :: fields, .separator hseparates hb⟩
    · by_cases haccepts : d.accepts c = true
      · rw [if_neg hignored, if_neg hseparates, if_pos haccepts] at hread
        refine hstep _ hread fun fields body hb => ?_
        cases fields with
        | nil => exact absurd rfl hb.ne_nil
        | cons field fields => exact ⟨(c :: field) :: fields, .letter haccepts hb⟩
      · rw [if_neg hignored, if_neg hseparates, if_neg haccepts] at hread
        rw [hread] at hclean
        exact absurd hclean (not_faultless rfl)

private theorem completes_terminator {s : Scan Unit} (horderly : s.Orderly) {d : Directive}
    (htop : s.scopes.top = .directive d) (hsound : s.item.spoilt = false) {c : Char}
    (hlayout : isLayout c = false) (hends : (Scope.directive d).ends c = true)
    (hclean : (s.read () c).Faultless) {text : List Char} (h : (s.read () c).Completes text) :
    s.Completes (c :: text) := by
  obtain ⟨frame, outer, hs, hframe⟩ := exists_frame htop Scope.noConfusion
  have hunspoilt : ¬ s.item.spoilt = true := by simp [hsound]
  have hcollects : frame.scope.collects = true := by rw [hframe]; rfl
  have houter := horderly.nested.outer hs
  rw [read_directive htop () hlayout, readInDirective] at h hclean
  by_cases hclose : c = '\x7d'
  · rw [if_pos hclose, ← hframe, interrupt_eq hs hcollects houter, if_neg hunspoilt] at hclean
    exact absurd hclean (not_faultless rfl)
  · have hterm : c = ';' := by simpa [Scope.ends, hclose] using hends
    have hblock : Scopes.top outer = .block := Scopes.top_of_blocks houter
    rw [if_neg hclose, if_pos hterm, commit_eq hs hframe, if_neg hunspoilt,
      completes_of_block (by simpa [back] using hblock), scopes_settle] at h
    refine (completes_of_directive htop _).mpr ⟨[[]], [], text, by rw [hterm]; rfl, .empty, ?_⟩
    rw [hs]
    exact h

private theorem completes_letter {s : Scan Unit} (htop : s.scopes.top = .blockName)
    (hsound : s.item.spoilt = false) {c : Char} (hlayout : isLayout c = false)
    (hends : Scope.blockName.ends c = false) (hclean : (s.read () c).Faultless)
    {text : List Char} (h : (s.read () c).Completes text) : s.Completes (c :: text) := by
  obtain ⟨f, hread⟩ := read_letter htop hsound () hlayout hends
  by_cases hletter : Glyph.isNamespace c = true
  · rw [hread, if_pos hletter, completes_of_blockName (by exact htop)] at h
    obtain ⟨letters, rest, rfl, hletters, -, hrest⟩ := h
    refine (completes_of_blockName htop _).mpr ⟨c :: letters, rest, rfl, ?_, by simp, hrest⟩
    simpa [hletter] using hletters
  · rw [hread, if_neg hletter] at hclean
    exact absurd hclean (not_faultless rfl)

private theorem completes_opening {s : Scan Unit} (horderly : s.Orderly)
    (htop : s.scopes.top = .blockName) (hsound : s.item.spoilt = false) {c : Char}
    (hlayout : isLayout c = false) (hends : Scope.blockName.ends c = true)
    (hclean : (s.read () c).Faultless) {text : List Char} (h : (s.read () c).Completes text) :
    s.Completes (c :: text) := by
  obtain ⟨frame, outer, hs, hframe⟩ := exists_frame htop Scope.noConfusion
  have hunspoilt : ¬ s.item.spoilt = true := by simp [hsound]
  have hcollects : frame.scope.collects = true := by rw [hframe]; rfl
  rw [read_blockName htop () hlayout, readInName] at h hclean
  by_cases hopen : c = '\x7b'
  · rw [if_pos hopen, finishName_eq hs hframe, if_neg hunspoilt] at h hclean
    by_cases hname : s.item.current = []
    · rw [if_pos hname] at hclean
      exact absurd hclean (not_faultless rfl)
    · rw [if_neg hname, completes_of_block (by rw [scopes_declareBlock]; rfl),
        scopes_declareBlock] at h
      refine (completes_of_blockName htop _).mpr
        ⟨[], text, by rw [hopen]; rfl, by simp, by simpa using hname, ?_⟩
      rw [hs]
      exact h
  · rw [if_neg hopen] at hclean
    by_cases hterm : c = ';'
    · rw [if_pos hterm, abandonName_eq hs hframe, if_neg hunspoilt] at hclean
      exact absurd hclean (not_faultless rfl)
    · have hclose : c = '\x7d' := by simpa [Scope.ends, hopen, hterm] using hends
      rw [if_neg hterm, if_pos hclose, ← hframe,
        interrupt_eq hs hcollects (horderly.nested.outer hs), if_neg hunspoilt] at hclean
      exact absurd hclean (not_faultless rfl)

private theorem opened?_eq_some {c : Char} {scope : Scope} (h : Scope.opened? c = some scope) :
    (∃ d : Directive, scope = .directive d ∧ c = d.opener) ∨ (scope = .blockName ∧ c = ':') ∨
      scope = .comment := by
  unfold Scope.opened? at h
  split at h
  case h_1 => exact .inl ⟨.tape, by simpa using h.symm, rfl⟩
  case h_2 => exact .inl ⟨.alphabet, by simpa using h.symm, rfl⟩
  case h_3 => exact .inl ⟨.transition, by simpa using h.symm, rfl⟩
  case h_4 => exact .inl ⟨.initial, by simpa using h.symm, rfl⟩
  case h_5 => exact .inl ⟨.halts, by simpa using h.symm, rfl⟩
  case h_6 => exact .inl ⟨.states, by simpa using h.symm, rfl⟩
  case h_7 => exact .inr (.inl ⟨by simpa using h.symm, rfl⟩)
  case h_8 => exact .inr (.inr (by simpa using h.symm))
  case h_9 => cases h

private theorem completes_opener {s : Scan Unit} (htop : s.scopes.top = .block) {c : Char}
    {scope : Scope} (hc : Scope.opened? c = some scope) {text : List Char}
    (h : (s.enter scope ()).Completes text) :
    s.Completes (if scope = .comment then text else c :: text) := by
  rw [completes_of_block htop]
  rcases opened?_eq_some hc with ⟨d, rfl, rfl⟩ | ⟨rfl, rfl⟩ | rfl
  · obtain ⟨fields, body, rest, rfl, hbody, hrest⟩ := (completes_of_directive rfl text).mp h
    exact hrest.directive hbody
  · obtain ⟨letters, rest, rfl, hletters, hnonempty, hrest⟩ :=
      (completes_of_blockName rfl text).mp h
    exact hrest.block ⟨by simpa [enter, Item.fresh] using hnonempty, hletters⟩
  · exact (completes_of_comment rfl text).mp h

private theorem completes_inBlock {s : Scan Unit} (horderly : s.Orderly)
    (htop : s.scopes.top = .block) {c : Char} (hlayout : isLayout c = false)
    (hclean : (s.read () c).Faultless) {text : List Char} (h : (s.read () c).Completes text) :
    s.Completes (if Scope.block.next c = .comment then text else c :: text) := by
  rw [read_block htop () hlayout, readInBlock] at h hclean
  by_cases hclose : c = '\x7d'
  · rw [if_pos hclose] at h hclean
    cases hs : s.scopes with
    | nil =>
      rw [leave_atRoot hs] at hclean
      exact absurd hclean (not_faultless rfl)
    | cons frame outer =>
      have hframe : frame.scope = .block := by rw [← top_cons hs, htop]
      have hblock := Scopes.top_of_blocks (horderly.nested.outer hs)
      rw [leave_top hs hframe, completes_of_block hblock] at h
      rw [hclose, completes_of_block htop, hs]
      exact h.close
  · rw [if_neg hclose] at h hclean
    by_cases hterm : c = ';'
    · rw [if_pos hterm] at hclean
      exact absurd hclean (not_faultless rfl)
    · rw [if_neg hterm] at h hclean
      rw [Scope.next]
      cases hopened : Scope.opened? c with
      | none =>
        rw [hopened] at hclean
        exact absurd hclean (not_faultless rfl)
      | some scope =>
        rw [hopened] at h
        exact completes_opener htop hopened h

/-- A character adds to what is demanded of the rest, unless it is layout or of a comment. -/
theorem completes_read {s : Scan Unit} (horderly : s.Orderly) (hsound : s.item.spoilt = false)
    {c : Char} (hclean : (s.read () c).Faultless) {text : List Char}
    (h : (s.read () c).Completes text) :
    s.Completes (if isLayout c = true ∨ s.scopes.top = .comment ∨ s.scopes.top.next c = .comment
      then text else c :: text) := by
  by_cases hcomment : s.scopes.top = .comment
  · rw [if_pos (.inr (.inl hcomment)), completes_of_comment hcomment]
    rw [read_comment hcomment] at h
    by_cases hc : c = '\n'
    · obtain ⟨frame, outer, hs, hframe⟩ := exists_frame hcomment Scope.noConfusion
      rw [if_pos hc, leave_top hs hframe,
        completes_of_block (Scopes.top_of_blocks (horderly.nested.outer hs))] at h
      rw [hs]
      exact h
    · rw [if_neg hc, completes_of_comment hcomment] at h
      exact h
  · by_cases hlayout : isLayout c = true
    · rw [if_pos (.inl hlayout)]
      rwa [read_layout hcomment () hlayout] at h
    · have hplain : isLayout c = false := Bool.eq_false_iff.mpr hlayout
      cases htop : s.scopes.top with
      | comment => exact absurd htop hcomment
      | block =>
        have hblock := completes_inBlock horderly htop hplain hclean h
        simpa [hplain] using hblock
      | directive d =>
        have hnext : (Scope.directive d).next c ≠ .comment := by
          rw [next_of_collects rfl]
          split <;> exact Scope.noConfusion
        have hdirective : s.Completes (c :: text) := by
          by_cases hends : (Scope.directive d).ends c = true
          · exact completes_terminator horderly htop hsound hplain hends hclean h
          · exact completes_field htop hsound hplain (Bool.eq_false_iff.mpr hends) hclean h
        simpa [hplain, hnext] using hdirective
      | blockName =>
        have hnext : Scope.blockName.next c ≠ .comment := by
          rw [next_of_collects rfl]
          split <;> exact Scope.noConfusion
        have hname : s.Completes (c :: text) := by
          by_cases hends : Scope.blockName.ends c = true
          · exact completes_opening horderly htop hsound hplain hends hclean h
          · exact completes_letter htop hsound hplain (Bool.eq_false_iff.mpr hends) hclean h
        simpa [hplain, hnext] using hname

theorem Reads.unspoilt {place : μ} {c : Char} {s t : Scan μ} (hr : Reads place c s t)
    (hsound : s.item.spoilt = false) (hclean : t.Faultless) : t.item.spoilt = false := by
  cases hr with
  | passes => exact hsound
  | opens => rfl
  | strays => exact hsound
  | closes => exact hsound
  | collects => exact hsound
  | separates => exact hsound
  | rejects => exact absurd hclean (not_faultless rfl)
  | discards => rfl
  | commits => rw [item_settle]; rfl
  | abandons => rfl
  | names => rw [item_declareBlock]; rfl
  | numbers => rfl
  | blanks => rfl
  | drops => rfl
  | interrupts => rfl

private theorem completes_end {s : Scan Unit} (horderly : s.Orderly)
    (hsound : s.item.spoilt = false) (hclean : (s.close ()).Faultless) : s.Completes [] := by
  have hfinished : ∀ frame ∈ s.scopes, unfinished? s.item.spoilt frame = none := by
    intro frame hframe
    cases hopen : unfinished? s.item.spoilt frame with
    | none => rfl
    | some f =>
      rw [close_eq] at hclean
      refine absurd rfl (hclean ⟨.fault f, some (), .block⟩ ?_ f)
      simp only [List.mem_append, List.mem_reverse, List.mem_map, List.mem_filterMap]
      exact .inl ⟨f, ⟨frame, hframe, hopen⟩, rfl⟩
  have hdone : Closes 0 [] := ⟨.empty, .empty⟩
  cases hs : s.scopes with
  | nil =>
    rw [completes_of_block (by rw [hs]; rfl), hs]
    exact hdone
  | cons frame outer =>
    have hframe := hfinished frame (by simp [hs])
    -- Anything below the innermost scope would be a block, and the end leaves no block open.
    have houter : outer = [] := by
      cases outer with
      | nil => rfl
      | cons next others =>
        have hnext := hfinished next (by simp [hs])
        simp [unfinished?, horderly.nested.outer hs next (by simp)] at hnext
    have hcomment : frame.scope = .comment := by
      cases hscope : frame.scope <;> simp_all [unfinished?]
    rw [completes_of_comment (by rw [top_cons hs, hcomment]), hs, houter]
    exact hdone

theorem completes_of_faultless {s : Scan Unit} (horderly : s.Orderly)
    (hsound : s.item.spoilt = false) (text : List Char)
    (hclean : (s.outcome text).2.Faultless) : s.Completes (s.scopes.top.bare text) := by
  -- By induction on the text, which meets all that is demanded of it.
  induction text generalizing s with
  | nil => exact completes_end horderly hsound hclean
  | cons c text ih =>
    have hr := reads_read horderly () c
    have hnext := hr.orderly horderly
    -- Reports are never taken back, so without a fault at the end there was none on the way.
    have hlogs := (logs_readAll hnext (text.map (Prod.mk ()))).trans (logs_close () _)
    have hread : (s.read () c).Faultless := Faultless.of_logs hclean hlogs
    have hrest := ih hnext (hr.unspoilt hsound hread) hclean
    rw [top_read horderly] at hrest
    exact completes_read horderly hsound hread hrest

end Scan

theorem Draft.not_fault_of_mem_enactAll {asked : List Action} {draft : Draft Unit} {cause : Cause}
    (h : cause ∈ (enactAll asked draft).2) (f : Fault) : cause ≠ .fault f := by
  induction asked generalizing draft with
  | nil => cases h
  | cons action asked ih =>
    rw [enactAll_cons] at h
    rcases List.mem_append.mp h with h | h
    · cases action with
      | declare path =>
        obtain ⟨n, -, rfl⟩ := List.mem_map.mp h
        exact Cause.noConfusion
      | apply path d fields =>
        rw [enact] at h
        split at h
        · obtain ⟨n, -, rfl⟩ := List.mem_map.mp h
          exact Cause.noConfusion
        · rw [List.mem_singleton.mp h]
          exact Cause.noConfusion
    · exact ih h

theorem scanSource_of_derives {source : List Char} {items : Description}
    (h : items.Derives (bareSource source)) :
    (Scan.begin Mark.origin).actions (Mark.origin.locate source) = items.actions [] ∧
      (scanSource source).draft.recast (fun _ => ()) =
        (Draft.enactAll (items.actions []) Draft.empty).1 ∧
      (scanSource source).diagnostics.map (·.cause) =
        (Draft.enactAll (items.actions []) Draft.empty).2 := by
  have houtcome := outcome_bareSource source
  rw [Scan.outcome_of_derives h] at houtcome
  obtain ⟨hasked, hscan⟩ := Prod.mk.inj houtcome
  have hdraft := congrArg Scan.draft hscan
  have hcauses := congrArg (fun s : Scan Unit => s.diagnostics.map (·.cause)) hscan
  refine ⟨hasked.symm, hdraft.symm, ?_⟩
  simpa [Scan.diagnostics, Scan.recast, Scan.carry, Scan.begin, Diagnostic.recast,
    Function.comp_def] using hcauses.symm

theorem derives_of_refusals {source : List Char}
    (h : ∀ d ∈ (scanSource source).diagnostics, d.severity = .error →
      ∃ r, d.cause = .refusal r) : ∃ items : Description, items.Derives (bareSource source) := by
  have hclean : ((Scan.begin ()).outcome source).2.Faultless := by
    rw [outcome_source]
    intro d hd f hfault
    simp only [Scan.recast, List.append_nil, List.mem_map] at hd
    obtain ⟨e, he, rfl⟩ := hd
    have hcause : e.cause = .fault f := hfault
    obtain ⟨r, hr⟩ := h e (List.mem_reverse.mpr he) (by rw [Diagnostic.severity, hcause]; rfl)
    rw [hcause] at hr
    cases hr
  exact Scan.completes_of_faultless (Scan.orderly_begin ()) rfl source hclean

/--
Reading a source reports no error other than refused directives exactly when its bare text is
derived. Its directives are then applied in the order of the text, with the fields of the derivation
and inside its blocks: the names of these stand in front of the names that are given, each with a dot
behind it.
-/
theorem scanSource_recognises (source : List Char) :
    ((∀ d ∈ (scanSource source).diagnostics, d.severity = .error → ∃ r, d.cause = .refusal r) ↔
      ∃ items : Description, items.Derives (bareSource source)) ∧
    ∀ items : Description, items.Derives (bareSource source) →
      (Scan.begin Mark.origin).actions (Mark.origin.locate source) = items.actions [] ∧
      (scanSource source).draft.recast (fun _ => ()) =
        (Draft.enactAll (items.actions []) Draft.empty).1 ∧
      (scanSource source).diagnostics.map (·.cause) =
        (Draft.enactAll (items.actions []) Draft.empty).2 ∧
      Effects (items.actions []) Draft.empty ((scanSource source).draft.recast fun _ => ())
        ((scanSource source).diagnostics.map (·.cause)) := by
  refine ⟨⟨derives_of_refusals, ?_⟩, ?_⟩
  case refine_2 =>
    intro items hitems
    obtain ⟨hactions, hdraft, hcauses⟩ := scanSource_of_derives hitems
    refine ⟨hactions, hdraft, hcauses, ?_⟩
    rw [hdraft, hcauses]
    exact Draft.effects_enactAll (items.actions []) Draft.empty
  rintro ⟨items, hitems⟩ d hd herror
  obtain ⟨-, -, hcauses⟩ := scanSource_of_derives hitems
  have hmem : d.cause ∈ (scanSource source).diagnostics.map (·.cause) := List.mem_map_of_mem hd
  have hlocal := local_of_mem_scanSource hd
  cases hcause : d.cause with
  | fault f =>
    rw [hcauses, hcause] at hmem
    exact absurd rfl (Draft.not_fault_of_mem_enactAll hmem f)
  | refusal r => exact ⟨r, rfl⟩
  | notice n =>
    rw [Diagnostic.severity, hcause] at herror
    cases herror
  | problem p => exact absurd hcause (hlocal p)

/-- A block in a block with a transition, after a comment. -/
theorem scanSource_recognises_nested :
    let source := ['*', 'q', ';', ' ', '#', 'x', '\n', ':', 'm', '\x7b', ':', 'n', '\x7b', '$', 'a',
      ':', '1', ' ', '-', '>', 'b', ':', '*', ':', 'R', ';', '\x7d', '\x7d']
    let asked : List Action := [.apply [] .states [['q']], .declare [['m']],
      .declare [['m'], ['n']],
      .apply [['m'], ['n']] .transition [['a'], ['1'], ['b'], ['*'], ['R']]]
    (∀ d ∈ (scanSource source).diagnostics, d.severity = .error → ∃ r, d.cause = .refusal r) ∧
      (Scan.begin Mark.origin).actions (Mark.origin.locate source) = asked ∧
      Effects asked Draft.empty ((scanSource source).draft.recast fun _ => ())
        ((scanSource source).diagnostics.map (·.cause)) ∧
      (scanSource source).draft.table.names =
        [['q'], ['m'], ['m', '.', 'n'], ['m', '.', 'n', '.', 'a'], ['m', '.', 'n', '.', 'b']] := by
  intro source asked
  let fields := [['a'], ['1'], ['b'], ['*'], ['R']]
  let items : Description := .directive .states [['q']]
    (.block ['m'] (.block ['n'] (.directive .transition fields .empty) .empty) .empty)
  have hstates : Directive.Body .states [['q']] ['q'] := .letter (by decide) .empty
  have hrule : Directive.Body .transition fields
      ['a', ':', '1', '-', '>', 'b', ':', '*', ':', 'R'] :=
    .letter (by decide) (.separator rfl (.letter (by decide) (.ignored rfl (.separator rfl
      (.letter (by decide) (.separator rfl (.letter (by decide) (.separator rfl
        (.letter (by decide) .empty)))))))))
  have hname : ∀ c, Glyph.isNamespace c = true → Name.Part [c] :=
    fun c hc => ⟨by simp, by simpa using hc⟩
  have hderives := Description.Derives.directive hstates (.block (hname 'm' (by decide))
    (.block (hname 'n' (by decide)) (.directive hrule .empty) .empty) .empty)
  have hbare : bareSource source = ['*', 'q', ';', ':', 'm', '\x7b', ':', 'n', '\x7b', '$', 'a', ':',
    '1', '-', '>', 'b', ':', '*', ':', 'R', ';', '\x7d', '\x7d'] := by decide
  have hitems : items.Derives (bareSource source) := by
    rw [hbare]
    exact hderives
  obtain ⟨hiff, hactions⟩ := scanSource_recognises source
  obtain ⟨hasked, -, -, heffects⟩ := hactions items hitems
  exact ⟨hiff.mpr ⟨items, hitems⟩, hasked, heffects, by decide⟩

end TapeMachine
