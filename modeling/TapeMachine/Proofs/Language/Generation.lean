import TapeMachine.Proofs.Language.Bare
/-!
# Reading a text that is derived

A text that is derived from a description asks for exactly the actions of the description, in their
order, and is read to its end as if these were carried out one after another.
-/
namespace TapeMachine

namespace Directive

private theorem accepts_mark (d : Directive) :
    ∀ c ∈ [' ', '\t', '\r', '\n', ';', '\x7d', '-', ':', '>'], d.accepts c = false := by
  have hnone : [' ', '\t', '\r', '\n', ';', '\x7d', '-', ':', '>'].all (!d.accepts ·) = true := by
    cases d <;> decide
  simpa using hnone

theorem plain_of_accepts {d : Directive} {c : Char} (h : d.accepts c = true) :
    Scan.isLayout c = false ∧ (Scope.directive d).ends c = false ∧ d.ignores c = false ∧
      d.separates c = false := by
  have hne : ∀ x ∈ [' ', '\t', '\r', '\n', ';', '\x7d', '-', ':', '>'], c ≠ x := by
    rintro x hx rfl
    exact Bool.noConfusion (h.symm.trans (accepts_mark d c hx))
  simp only [List.forall_mem_cons, List.not_mem_nil, false_implies, implies_true, and_true] at hne
  simp [Scan.isLayout, Scope.ends, ignores, separates, hne]

theorem plain_of_separates {d : Directive} {c : Char} (h : d.separates c = true) :
    Scan.isLayout c = false ∧ (Scope.directive d).ends c = false ∧ d.ignores c = false := by
  have hc : c = ':' ∨ c = '>' := by
    simp only [separates, Bool.or_eq_true, Bool.and_eq_true, beq_iff_eq] at h
    exact h.imp And.right And.right
  rcases hc with rfl | rfl <;> simp [Scan.isLayout, Scope.ends, ignores]

theorem plain_of_ignores {d : Directive} {c : Char} (h : d.ignores c = true) :
    Scan.isLayout c = false ∧ (Scope.directive d).ends c = false := by
  have hc : c = '-' := by
    simp only [ignores, Bool.and_eq_true, beq_iff_eq] at h
    exact h.2
  subst hc
  simp [Scan.isLayout, Scope.ends]

theorem Body.ne_nil {d : Directive} {fields : List (List Char)} {text : List Char}
    (h : d.Body fields text) : fields ≠ [] := by
  induction h with
  | empty => exact List.cons_ne_nil _ _
  | letter => exact List.cons_ne_nil _ _
  | separator => exact List.cons_ne_nil _ _
  | ignored _ _ ih => exact ih

end Directive

namespace Item

variable {μ : Type}

/-- The fields of an item when those of a text follow; the first one goes on with what was read. -/
def fieldsWith (item : Item μ) : List (List Char) → List (List Char)
  | [] => item.fields.reverse
  | first :: rest => item.fields.reverse ++ (item.current.reverse ++ first) :: rest

theorem fieldsWith_blank (item : Item μ) : item.fieldsWith [[]] = item.allFields := by
  simp [fieldsWith, allFields, separate]

theorem fieldsWith_push (item : Item μ) (c : Char) (field : List Char)
    (fields : List (List Char)) :
    (item.push c).fieldsWith (field :: fields) = item.fieldsWith ((c :: field) :: fields) := by
  simp [fieldsWith, push]

theorem fieldsWith_separate (item : Item μ) (fields : List (List Char)) :
    item.separate.fieldsWith fields = item.fieldsWith ([] :: fields) := by
  cases fields with
  | nil => simp [fieldsWith, separate]
  | cons first rest => simp [fieldsWith, separate]

theorem fieldsWith_fresh (start : μ) {fields : List (List Char)} (h : fields ≠ []) :
    (fresh start).fieldsWith fields = fields := by
  cases fields with
  | nil => exact absurd rfl h
  | cons first rest => rfl

end Item

namespace Scan

/-- While a text is read, these actions are asked for, and the scan comes to `t`. -/
structure Yields (s : Scan Unit) (text : List Char) (asked : List Action) (t : Scan Unit) :
    Prop where
  asked : s.actions (text.map (Prod.mk ())) = asked
  read : s.readAll (text.map (Prod.mk ())) = t

theorem Yields.nil (s : Scan Unit) : s.Yields [] [] s := ⟨rfl, rfl⟩

theorem Yields.cons {s u : Scan Unit} {c : Char} {text : List Char} {asked : List Action}
    (h : (s.read () c).Yields text asked u) :
    s.Yields (c :: text) ((s.action? c).toList ++ asked) u := by
  obtain ⟨hasked, hread⟩ := h
  exact ⟨by rw [List.map_cons, actions, hasked], hread⟩

theorem Yields.append {s t u : Scan Unit} {front back : List Char} {first others : List Action}
    (hfront : s.Yields front first t) (hback : t.Yields back others u) :
    s.Yields (front ++ back) (first ++ others) u := by
  obtain ⟨hfirst, hread⟩ := hfront
  obtain ⟨hothers, hread'⟩ := hback
  constructor
  · rw [List.map_append, actions_append, hfirst, hread, hothers]
  · rw [List.map_append, readAll_append, hread, hread']

/-- Carries actions out in a block: what they report is about the block. -/
def carry (asked : List Action) (s : Scan Unit) : Scan Unit :=
  let (draft, causes) := Draft.enactAll asked s.draft
  { s with draft, log := (causes.map fun cause => ⟨cause, some (), .block⟩).reverse ++ s.log }

theorem carry_append (front back : List Action) (s : Scan Unit) :
    s.carry (front ++ back) = (s.carry front).carry back := by
  simp [carry, Draft.enactAll_append]

@[simp] theorem scopes_carry (asked : List Action) (s : Scan Unit) :
    (s.carry asked).scopes = s.scopes := rfl

variable {μ : Type}

theorem read_field {s : Scan μ} {d : Directive} (htop : s.scopes.top = .directive d)
    (hsound : s.item.spoilt = false) (place : μ) {c : Char} (hlayout : isLayout c = false)
    (hends : (Scope.directive d).ends c = false) :
    ∃ f, s.read place c =
      if d.ignores c then s
      else if d.separates c then { s with item := s.item.separate }
      else if d.accepts c then { s with item := s.item.push c }
      else s.reject f place := by
  simp only [Scope.ends, Bool.or_eq_false_iff, beq_eq_false_iff_ne] at hends
  obtain ⟨⟨hterm, hclose⟩, -⟩ := hends
  rw [read_directive htop place hlayout, readInDirective, if_neg hclose, if_neg hterm]
  by_cases hshaft : d = .transition ∧ c = '-'
  · exact ⟨.strayTerminator, by simp [Directive.ignores, hshaft]⟩
  -- The head of an arrow is collected as a colon is.
  · by_cases harrow : d = .transition ∧ c = '>'
    · refine ⟨.strayTerminator, ?_⟩
      simp [Directive.ignores, Directive.separates, harrow, collect, hsound, Scope.hasFields,
        Directive.hasFields]
    · by_cases hcolon : c = ':'
      · refine ⟨.invalidSeparator (.directive d), ?_⟩
        have haccepts : d.accepts ':' = false := Directive.accepts_mark d ':' (by simp)
        subst hcolon
        cases hfields : d.hasFields with
        | true =>
          simp [Directive.ignores, Directive.separates, collect, hsound, Scope.hasFields, hfields]
        | false =>
          simp [Directive.ignores, Directive.separates, collect, hsound, Scope.hasFields, hfields,
            haccepts]
      · refine ⟨.invalidCharacter c (.directive d), ?_⟩
        cases haccepts : d.accepts c <;>
          simp [Directive.ignores, Directive.separates, hshaft, harrow, hcolon, collect, hsound,
            Scope.accepts, haccepts]

theorem read_letter {s : Scan μ} (htop : s.scopes.top = .blockName)
    (hsound : s.item.spoilt = false) (place : μ) {c : Char} (hlayout : isLayout c = false)
    (hends : Scope.blockName.ends c = false) :
    ∃ f, s.read place c =
      if Glyph.isNamespace c then { s with item := s.item.push c } else s.reject f place := by
  simp only [Scope.ends, Bool.or_eq_false_iff, beq_eq_false_iff_ne, BEq.rfl, Bool.true_and] at hends
  obtain ⟨⟨hterm, hclose⟩, hopen⟩ := hends
  rw [read_blockName htop place hlayout, readInName, if_neg hopen, if_neg hterm, if_neg hclose]
  by_cases hcolon : c = ':'
  · refine ⟨.invalidSeparator .blockName, ?_⟩
    have hletter : Glyph.isNamespace ':' = false := by decide
    subst hcolon
    simp [collect, hsound, Scope.hasFields, hletter]
  · refine ⟨.invalidCharacter c .blockName, ?_⟩
    cases hletter : Glyph.isNamespace c <;> simp [collect, hsound, hcolon, Scope.accepts, hletter]

theorem plain_of_isNamespace {c : Char} (h : Glyph.isNamespace c = true) :
    isLayout c = false ∧ Scope.blockName.ends c = false := by
  have hmark : ∀ x ∈ [' ', '\t', '\r', '\n', ';', '\x7d', '\x7b'], Glyph.isNamespace x = false := by
    have hnone : [' ', '\t', '\r', '\n', ';', '\x7d', '\x7b'].all (!Glyph.isNamespace ·) = true := by
      decide
    simpa using hnone
  have hne : ∀ x ∈ [' ', '\t', '\r', '\n', ';', '\x7d', '\x7b'], c ≠ x := by
    rintro x hx rfl
    exact Bool.noConfusion (h.symm.trans (hmark c hx))
  simp only [List.forall_mem_cons, List.not_mem_nil, false_implies, implies_true, and_true] at hne
  simp [isLayout, Scope.ends, hne]

theorem action?_of_ends {s : Scan μ} {c : Char} (h : s.scopes.top.ends c = false) :
    s.action? c = none := by
  simp only [Scope.ends, Bool.or_eq_false_iff, Bool.and_eq_false_iff, beq_eq_false_iff_ne] at h
  rw [action?]
  split
  · rfl
  · cases htop : s.scopes.top with
    | directive d => exact if_neg h.1.1
    | blockName =>
      have hopen : c ≠ '\x7b' := h.2.resolve_left (by simp [htop])
      exact if_neg fun hc => hopen hc.1
    | block => rfl
    | comment => rfl

private theorem Yields.step {s t u : Scan Unit} {c : Char} {text : List Char}
    {asked : List Action} (hread : s.read () c = t) (hnone : s.action? c = none)
    (h : t.Yields text asked u) : s.Yields (c :: text) asked u := by
  have hcons : s.Yields (c :: text) ((s.action? c).toList ++ asked) u :=
    Yields.cons (by rw [hread]; exact h)
  rwa [hnone] at hcons

private theorem yields_body {d : Directive} {fields : List (List Char)} {text : List Char}
    (h : d.Body fields text) {s : Scan Unit} (htop : s.scopes.top = .directive d)
    (hsound : s.item.spoilt = false) :
    ∃ item, s.Yields text [] { s with item } ∧ item.spoilt = false ∧
      item.allFields = s.item.fieldsWith fields := by
  -- By induction on the derivation of a body: its fields follow those that were read before.
  induction h generalizing s with
  | empty => exact ⟨s.item, Yields.nil s, hsound, (Item.fieldsWith_blank s.item).symm⟩
  | @letter c field fields text hc _ ih =>
    obtain ⟨hlayout, hends, hshaft, hcolon⟩ := Directive.plain_of_accepts hc
    obtain ⟨f, hread⟩ := read_field htop hsound () hlayout hends
    have hpush : s.read () c = { s with item := s.item.push c } := by
      simpa [hshaft, hcolon, hc] using hread
    obtain ⟨item, hyields, hitem, hfields⟩ := ih (s := { s with item := s.item.push c }) htop hsound
    have hnone := action?_of_ends (s := s) (by rw [htop]; exact hends)
    refine ⟨item, hyields.step hpush hnone, hitem, ?_⟩
    rw [hfields, Item.fieldsWith_push]
  | @separator c fields text hc _ ih =>
    obtain ⟨hlayout, hends, hshaft⟩ := Directive.plain_of_separates hc
    obtain ⟨f, hread⟩ := read_field htop hsound () hlayout hends
    have hseparate : s.read () c = { s with item := s.item.separate } := by
      simpa [hshaft, hc] using hread
    obtain ⟨item, hyields, hitem, hfields⟩ := ih (s := { s with item := s.item.separate }) htop hsound
    have hnone := action?_of_ends (s := s) (by rw [htop]; exact hends)
    refine ⟨item, hyields.step hseparate hnone, hitem, ?_⟩
    rw [hfields, Item.fieldsWith_separate]
  | @ignored c fields text hc _ ih =>
    obtain ⟨hlayout, hends⟩ := Directive.plain_of_ignores hc
    obtain ⟨f, hread⟩ := read_field htop hsound () hlayout hends
    have hsame : s.read () c = s := by simpa [hc] using hread
    obtain ⟨item, hyields, hitem, hfields⟩ := ih htop hsound
    have hnone := action?_of_ends (s := s) (by rw [htop]; exact hends)
    exact ⟨item, hyields.step hsame hnone, hitem, hfields⟩

private theorem yields_name {name : List Char} (h : ∀ c ∈ name, Glyph.isNamespace c = true)
    {s : Scan Unit} (htop : s.scopes.top = .blockName) (hsound : s.item.spoilt = false) :
    s.Yields name []
      { s with item := { s.item with current := name.reverse ++ s.item.current } } := by
  induction name generalizing s with
  | nil => exact Yields.nil s
  | cons c name ih =>
    have hc := h c List.mem_cons_self
    obtain ⟨hlayout, hends⟩ := plain_of_isNamespace hc
    obtain ⟨f, hread⟩ := read_letter htop hsound () hlayout hends
    rw [if_pos hc] at hread
    have hnone := action?_of_ends (s := s) (by rw [htop]; exact hends)
    have hrest := ih (fun x hx => h x (List.mem_cons_of_mem c hx))
      (s := { s with item := s.item.push c }) htop hsound
    have hyields := hrest.step hread hnone
    simpa [Item.push] using hyields

private theorem reportAll_eq_of_block {s : Scan Unit} (htop : s.scopes.top = .block)
    (notices : List Notice) (place : Unit) :
    s.reportAll notices place = { s with
      log := ((notices.map .notice).map fun cause => ⟨cause, some (), .block⟩).reverse ++ s.log } := by
  rw [reportAll_eq, htop, List.map_map]
  rfl

private theorem settle_eq_carry {s : Scan Unit} (htop : s.scopes.top = .block) (path : List Name)
    (d : Directive) (fields : List (List Char)) (start : Unit) :
    s.settle start (s.draft.apply path d start fields) = s.carry [.apply path d fields] := by
  simp only [carry, Draft.enactAll, Draft.enact]
  cases s.draft.apply path d start fields with
  | error r => simp [settle, report, htop]
  | ok result =>
    have hreport := reportAll_eq_of_block (s := { s with draft := result.1 }) htop result.2 start
    simpa [settle] using hreport

private theorem declareBlock_eq_carry {s : Scan Unit} (htop : s.scopes.top = .block)
    (place : Unit) : s.declareBlock place = s.carry [.declare s.scopes.path] := by
  have hname : s.scopes.qualify Name.anonymous = Name.join s.scopes.path := by
    simp [Scopes.qualify, Name.qualify]
  let declared := Draft.declare (Name.join s.scopes.path) s.draft.table
  have hreport := reportAll_eq_of_block
    (s := { s with draft := { s.draft with table := declared.1 } }) htop declared.2 place
  rw [declareBlock, hname]
  simpa [carry, Draft.enactAll, Draft.enact] using hreport

private theorem yields_directive {d : Directive} {fields : List (List Char)} {body : List Char}
    (h : d.Body fields body) {s : Scan Unit} (htop : s.scopes.top = .block)
    (hidle : s.item = Item.fresh ()) :
    s.Yields (d.opener :: (body ++ [';'])) [.apply s.scopes.path d fields]
      (s.carry [.apply s.scopes.path d fields]) := by
  obtain ⟨item, hbody, hsound, hfields⟩ := yields_body h (s := s.enter (.directive d) ()) rfl rfl
  have hfresh : item.allFields = fields := by
    rw [hfields]
    exact Item.fieldsWith_fresh () h.ne_nil
  let t : Scan Unit := { s.enter (.directive d) () with item }
  have hscopes : t.scopes = ⟨.directive d, none⟩ :: s.scopes := rfl
  have hasked : t.action? ';' = some (.apply s.scopes.path d fields) := by
    have hpath : t.scopes.path = s.scopes.path := Scopes.path_cons_of_ne s.scopes Scope.noConfusion
    rw [action?, if_neg (by simp [t, hsound]), hpath, ← hfresh]
    rfl
  have hend : t.read () ';' = s.carry [.apply s.scopes.path d fields] := by
    change t.commit d () = _
    rw [commit_eq hscopes rfl, if_neg (by simp [t, hsound]), ← settle_eq_carry htop, ← hfresh]
    have hback : t.back s.scopes () = s := by simp [back, t, enter, ← hidle]
    rw [hback]
    rfl
  have hlast : t.Yields [';'] ((t.action? ';').toList ++ []) (t.read () ';') :=
    Yields.cons (Yields.nil _)
  rw [hasked, hend] at hlast
  have hopen := read_opener htop () d.opened?_opener
  exact (hbody.append hlast).step hopen (action?_of_top (by rw [htop]; rfl) _)

private theorem yields_opening {name : Name} (h : name.Part) {s : Scan Unit}
    (htop : s.scopes.top = .block) (hidle : s.item = Item.fresh ()) :
    s.Yields (':' :: (name ++ ['\x7b'])) [.declare (s.scopes.path ++ [name])]
      ({ s with scopes := ⟨.block, some name⟩ :: s.scopes }.carry
        [.declare (s.scopes.path ++ [name])]) := by
  have hletters := yields_name h.letters (s := s.enter .blockName ()) rfl rfl
  let t : Scan Unit :=
    { s.enter .blockName () with item := { Item.fresh () with current := name.reverse } }
  have ht : (s.enter .blockName ()).Yields name [] t := by
    simpa [t, enter, Item.fresh] using hletters
  have hnonempty : t.item.current ≠ [] := by simpa [t] using h.nonempty
  have hscopes : t.scopes = ⟨.blockName, none⟩ :: s.scopes := rfl
  have hname : t.item.current.reverse = name := List.reverse_reverse name
  have hasked : t.action? '\x7b' = some (.declare (s.scopes.path ++ [name])) := by
    have hpath : t.scopes.path = s.scopes.path := Scopes.path_cons_of_ne s.scopes Scope.noConfusion
    rw [action?, if_neg (by simp [t, Item.fresh]), hpath]
    simp [t, enter, Scopes.enter, Scopes.top, h.nonempty]
  have hend : t.read () '\x7b' =
      { s with scopes := ⟨.block, some name⟩ :: s.scopes }.carry
        [.declare (s.scopes.path ++ [name])] := by
    change t.finishName () = _
    rw [finishName_eq hscopes rfl, if_neg (by simp [t, Item.fresh]), if_neg hnonempty, hname,
      declareBlock_eq_carry rfl]
    simp [back, t, enter, ← hidle, Scopes.path]
  have hlast : t.Yields ['\x7b'] ((t.action? '\x7b').toList ++ []) (t.read () '\x7b') :=
    Yields.cons (Yields.nil _)
  rw [hasked, hend] at hlast
  have hopen : s.read () ':' = s.enter .blockName () := read_opener htop () rfl
  exact (ht.append hlast).step hopen (action?_of_top (by rw [htop]; rfl) _)

theorem yields_of_derives {items : Description} {text : List Char} (h : items.Derives text)
    {s : Scan Unit} (htop : s.scopes.top = .block) (hidle : s.item = Item.fresh ()) :
    s.Yields text (items.actions s.scopes.path) (s.carry (items.actions s.scopes.path)) := by
  -- By induction on the derivation: a text that is derived asks for the actions of its tree.
  induction h generalizing s with
  | empty => exact Yields.nil s
  | @directive d fields body rest text hbody _ ih =>
    have hfirst := yields_directive hbody htop hidle
    have hrest := ih (s := s.carry [.apply s.scopes.path d fields]) htop hidle
    have hwhole := hfirst.append hrest
    rw [scopes_carry, ← carry_append, List.cons_append, List.append_assoc] at hwhole
    exact hwhole
  | @block name inner rest text more hname _ _ ihinner ihrest =>
    let inside : Scan Unit := { s with scopes := ⟨.block, some name⟩ :: s.scopes }
    have hpath : inside.scopes.path = s.scopes.path ++ [name] := rfl
    let asked := .declare (s.scopes.path ++ [name]) :: inner.actions (s.scopes.path ++ [name])
    -- The inner text is read below the frame of the block, and carried out below it too.
    have hopening := yields_opening hname htop hidle
    have hinner := hopening.append
      (ihinner (s := inside.carry [.declare (s.scopes.path ++ [name])]) rfl hidle)
    rw [scopes_carry, hpath, ← carry_append] at hinner
    have hclose : (inside.carry asked).read () '\x7d' = s.carry asked := by
      have hscopes : (inside.carry asked).scopes = ⟨.block, some name⟩ :: s.scopes := rfl
      exact leave_eq hscopes ()
    have hrest := (ihrest (s := s.carry asked) htop hidle).step hclose (action?_of_top rfl _)
    have hwhole := hinner.append hrest
    rw [scopes_carry, ← carry_append] at hwhole
    simpa [Description.actions, asked] using hwhole

theorem outcome_of_derives {items : Description} {text : List Char} (h : items.Derives text) :
    (begin ()).outcome text = (items.actions [], (begin ()).carry (items.actions [])) := by
  obtain ⟨hasked, hread⟩ := yields_of_derives h (s := begin ()) rfl rfl
  rw [outcome, hasked, hread, close_eq]
  rfl

end Scan

theorem Scope.bare_cons {scope : Scope} {c : Char} (hlayout : Scan.isLayout c = false)
    (hscope : scope ≠ .comment) (hnext : scope.next c ≠ .comment) (text : List Char) :
    scope.bare (c :: text) = c :: (scope.next c).bare text := by
  rw [bare, if_neg (by simp [hlayout, hscope, hnext])]

theorem Scope.bare_directive {d : Directive} {body : List Char}
    (h : ∀ c ∈ body, (directive d).ends c = false) (more : List Char) :
    (directive d).bare (body ++ ';' :: more) =
      body.filter (!Scan.isLayout ·) ++ ';' :: block.bare more := by
  induction body with
  | nil =>
    have hnext : (directive d).next ';' = block := rfl
    rw [List.nil_append, bare_cons rfl Scope.noConfusion (by rw [hnext]; exact Scope.noConfusion),
      hnext]
    rfl
  | cons c body ih =>
    rw [List.forall_mem_cons] at h
    have hnext : (directive d).next c = directive d := by
      rw [Scan.next_of_collects rfl, h.1]
      rfl
    by_cases hlayout : Scan.isLayout c = true
    · rw [List.cons_append, bare, if_pos (.inl hlayout), hnext, ih h.2]
      simp [hlayout]
    · rw [List.cons_append, bare_cons (Bool.eq_false_iff.mpr hlayout) Scope.noConfusion
        (by rw [hnext]; exact Scope.noConfusion), hnext, ih h.2]
      simp [hlayout]

theorem Directive.Body.plain {d : Directive} {fields : List (List Char)} {body : List Char}
    (h : d.Body fields body) :
    ∀ c ∈ body, Scan.isLayout c = false ∧ (Scope.directive d).ends c = false := by
  induction h with
  | empty => exact fun _ hc => nomatch hc
  | letter hc _ ih =>
    obtain ⟨hlayout, hends, -⟩ := plain_of_accepts hc
    exact List.forall_mem_cons.mpr ⟨⟨hlayout, hends⟩, ih⟩
  | separator hc _ ih =>
    obtain ⟨hlayout, hends, -⟩ := plain_of_separates hc
    exact List.forall_mem_cons.mpr ⟨⟨hlayout, hends⟩, ih⟩
  | ignored hc _ ih => exact List.forall_mem_cons.mpr ⟨plain_of_ignores hc, ih⟩

theorem Directive.Body.filter_layout {d : Directive} {fields : List (List Char)}
    {body : List Char} (h : d.Body fields body) : body.filter (!Scan.isLayout ·) = body := by
  rw [List.filter_eq_self]
  intro c hc
  rw [(h.plain c hc).1]
  rfl

theorem Directive.Body.bare {d : Directive} {fields : List (List Char)} {text : List Char}
    (h : d.Body fields (text.filter (!Scan.isLayout ·))) (more : List Char) :
    (Scope.directive d).bare (text ++ ';' :: more) =
      text.filter (!Scan.isLayout ·) ++ ';' :: Scope.block.bare more := by
  apply Scope.bare_directive
  intro c hc
  by_cases hlayout : Scan.isLayout c = true
  · exact Scan.ends_of_layout hlayout _
  · exact (h.plain c (List.mem_filter.mpr ⟨hc, by simp [hlayout]⟩)).2

private theorem bare_body {d : Directive} {fields : List (List Char)} {body : List Char}
    (h : d.Body fields body) (more : List Char) :
    (Scope.directive d).bare (body ++ ';' :: more) = body ++ ';' :: Scope.block.bare more := by
  rw [Directive.Body.bare (by rw [h.filter_layout]; exact h), h.filter_layout]

private theorem bare_name {name : List Char} (h : ∀ c ∈ name, Glyph.isNamespace c = true)
    (more : List Char) :
    Scope.blockName.bare (name ++ '\x7b' :: more) = name ++ '\x7b' :: Scope.block.bare more := by
  induction name with
  | nil => exact Scope.bare_cons rfl Scope.noConfusion Scope.noConfusion more
  | cons c name ih =>
    rw [List.forall_mem_cons] at h
    obtain ⟨hlayout, hends⟩ := Scan.plain_of_isNamespace h.1
    have hnext : Scope.blockName.next c = .blockName := by
      rw [Scan.next_of_collects rfl, hends]
      rfl
    rw [List.cons_append, Scope.bare_cons hlayout Scope.noConfusion
      (by rw [hnext]; exact Scope.noConfusion), hnext, ih h.2, List.cons_append]

theorem bare_of_derives {items : Description} {text : List Char} (h : items.Derives text)
    (more : List Char) : Scope.block.bare (text ++ more) = text ++ Scope.block.bare more := by
  induction h generalizing more with
  | empty => rfl
  | @directive d fields body rest text hbody _ ih =>
    have hlayout : Scan.isLayout d.opener = false := by cases d <;> rfl
    have hnext : Scope.block.next d.opener = .directive d := by
      rw [Scope.next, d.opened?_opener]
      rfl
    rw [List.cons_append, Scope.bare_cons hlayout Scope.noConfusion
      (by rw [hnext]; exact Scope.noConfusion), hnext, List.append_assoc, List.cons_append,
      bare_body hbody, ih]
    simp
  | @block name inner rest text others hname _ _ ihinner ihrest =>
    have hcolon : ∀ back, Scope.block.bare (':' :: back) = ':' :: Scope.blockName.bare back :=
      Scope.bare_cons rfl Scope.noConfusion Scope.noConfusion
    have hclose : ∀ back, Scope.block.bare ('\x7d' :: back) = '\x7d' :: Scope.block.bare back :=
      Scope.bare_cons rfl Scope.noConfusion Scope.noConfusion
    have hopened := bare_name hname.letters (text ++ '\x7d' :: (others ++ more))
    rw [ihinner, hclose, ihrest] at hopened
    simp only [List.cons_append, List.append_assoc, hcolon, hopened]

end TapeMachine
