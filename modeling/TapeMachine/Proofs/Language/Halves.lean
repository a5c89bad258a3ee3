import TapeMachine.Proofs.Language.Actions
import TapeMachine.Proofs.Language.Recovery
/-!
# The halves of a draft

A draft has two halves: the machine, which is its table with its initial and its halting states, and
the tape with its alphabet. Each directive looks at one half and changes no other, so the actions of
a source may be carried out on the halves apart (`enactAll_beside`). What they are does not depend on
the draft at all, as reading looks at scopes and items only (`Abreast.readAll`). So a directive that
is about one half has no effect on the other one, wherever it stands (`readSource_directive`).
-/
namespace TapeMachine

variable {μ ν : Type}

def Directive.aboutTape : Directive → Bool
  | tape | alphabet => true
  | transition | initial | halts | states => false

def Action.aboutTape : Action → Bool
  | declare _ => false
  | apply _ d _ => d.aboutTape

/-- What came of a directive, as part of a larger draft. -/
def Applied.within (f : Draft μ → Draft μ) (applied : Applied μ) : Applied μ :=
  applied.map (Prod.map f id)

namespace Draft

def beside (machine tape : Draft μ) : Draft μ :=
  { machine with alphabet := tape.alphabet, tape := tape.tape }

/-- The machine of a draft is that of another one. -/
structure SameMachine (draft other : Draft μ) : Prop where
  table : draft.table = other.table
  initial : draft.initial = other.initial
  halts : draft.halts = other.halts

/-- The tape of a draft with its alphabet is that of another one. -/
structure SameTape (draft other : Draft μ) : Prop where
  alphabet : draft.alphabet = other.alphabet
  tape : draft.tape = other.tape

theorem sameMachine_beside (machine tape : Draft μ) : (machine.beside tape).SameMachine machine :=
  ⟨rfl, rfl, rfl⟩

theorem sameTape_beside (machine tape : Draft μ) : (machine.beside tape).SameTape tape := ⟨rfl, rfl⟩

theorem SameMachine.eq_beside {draft other : Draft μ} (h : draft.SameMachine other) :
    draft = other.beside draft := by
  rw [beside, ← h.table, ← h.initial, ← h.halts]

theorem SameTape.eq_beside {draft other : Draft μ} (h : draft.SameTape other) :
    draft = draft.beside other := by
  rw [beside, ← h.alphabet, ← h.tape]

theorem SameMachine.recast {draft other : Draft μ} (h : draft.SameMachine other) (f : μ → ν) :
    (draft.recast f).SameMachine (other.recast f) :=
  ⟨h.table, congrArg (Option.map (Prod.map id f)) h.initial, h.halts⟩

theorem SameTape.recast {draft other : Draft μ} (h : draft.SameTape other) (f : μ → ν) :
    (draft.recast f).SameTape (other.recast f) :=
  ⟨h.alphabet, h.tape⟩

section

variable (path : List Name) (start : μ) (fields : List (List Char)) (machine tape : Draft μ)

private theorem resolve_beside (role : Role) (field : List Char) :
    (machine.beside tape).resolve path role field = machine.resolve path role field := rfl

private theorem transition_beside :
    (machine.beside tape).transition path fields = machine.transition path fields := by
  unfold transition
  rfl

private theorem haltNames_beside :
    haltNames path (machine.beside tape) fields = haltNames path machine fields := by
  induction fields with
  | nil => rfl
  | cons field fields ih =>
    rw [haltNames, haltNames, ih]
    rfl

/-- A directive about the tape is applied to the tape alone, whatever the machine is. -/
theorem apply_beside_of_aboutTape {d : Directive} (h : d.aboutTape = true) :
    (machine.beside tape).apply path d start fields =
      (tape.apply path d start fields).within machine.beside := by
  cases d with
  | tape =>
    have hallows : (machine.beside tape).allows = tape.allows := rfl
    change (machine.beside tape).setTape fields.flatten =
      (tape.setTape fields.flatten).within machine.beside
    rw [setTape, setTape, hallows]
    split
    · rfl
    · cases fields.flatten.find? (!tape.allows ·) with
      | some c => rfl
      | none => rfl
  | alphabet =>
    change (machine.beside tape).setAlphabet fields = (tape.setAlphabet fields).within machine.beside
    rw [setAlphabet, setAlphabet]
    cases symbols fields with
    | error r => rfl
    | ok found => rfl
  | transition => cases h
  | initial => cases h
  | halts => cases h
  | states => cases h

theorem apply_beside_of_not_aboutTape {d : Directive} (h : d.aboutTape = false) :
    (machine.beside tape).apply path d start fields =
      (machine.apply path d start fields).within (·.beside tape) := by
  cases d with
  | tape => cases h
  | alphabet => cases h
  | transition =>
    change (machine.beside tape).addTransition path fields =
      (machine.addTransition path fields).within (·.beside tape)
    rw [addTransition, addTransition, transition_beside]
    cases machine.transition path fields with
    | error r => rfl
    | ok t => rfl
  | initial =>
    change (machine.beside tape).setInitial path start fields.flatten =
      (machine.setInitial path start fields.flatten).within (·.beside tape)
    rw [setInitial, setInitial, resolve_beside]
    cases machine.resolve path .initial fields.flatten with
    | error r => rfl
    | ok name => rfl
  | halts =>
    change (machine.beside tape).addHalts path fields =
      (machine.addHalts path fields).within (·.beside tape)
    rw [addHalts, addHalts, haltNames_beside]
    cases haltNames path machine fields with
    | error r => rfl
    | ok names => rfl
  | states =>
    change (machine.beside tape).addStates path fields =
      (machine.addStates path fields).within (·.beside tape)
    rw [addStates, addStates]
    cases fields.find? fun field => field.isEmpty || field.head? == some Glyph.separator with
    | some field => rfl
    | none => rfl

end

theorem same_of_apply {path : List Name} {d : Directive} {start : μ} {fields : List (List Char)}
    {draft next : Draft μ} {notices : List Notice}
    (h : draft.apply path d start fields = .ok (next, notices)) :
    (d.aboutTape = true → next.SameMachine draft) ∧ (d.aboutTape = false → next.SameTape draft) := by
  constructor
  · intro hd
    have happly := apply_beside_of_aboutTape path start fields draft draft hd
    change draft.apply path d start fields = _ at happly
    rw [h] at happly
    obtain ⟨hnext, -⟩ := Prod.mk.inj (Except.ok.inj happly)
    rw [hnext]
    exact sameMachine_beside draft next
  · intro hd
    have happly := apply_beside_of_not_aboutTape path start fields draft draft hd
    change draft.apply path d start fields = _ at happly
    rw [h] at happly
    obtain ⟨hnext, -⟩ := Prod.mk.inj (Except.ok.inj happly)
    rw [hnext]
    exact sameTape_beside next draft

variable (machine tape : Draft Unit)

theorem enact_beside (action : Action) :
    ((machine.beside tape).enact action).1 =
      if action.aboutTape then machine.beside (tape.enact action).1
      else (machine.enact action).1.beside tape := by
  cases action with
  | declare path => rfl
  | apply path d fields =>
    cases h : d.aboutTape with
    | true =>
      simp only [Action.aboutTape, h, if_true, enact, apply_beside_of_aboutTape path () fields
        machine tape h]
      cases tape.apply path d () fields with
      | error r => rfl
      | ok result => rfl
    | false =>
      simp only [Action.aboutTape, h, if_false, Bool.false_eq_true, enact,
        apply_beside_of_not_aboutTape path () fields machine tape h]
      cases machine.apply path d () fields with
      | error r => rfl
      | ok result => rfl

theorem enactAll_beside (actions : List Action) :
    (enactAll actions (machine.beside tape)).1 =
      (enactAll (actions.filter (!·.aboutTape)) machine).1.beside
        (enactAll (actions.filter Action.aboutTape) tape).1 := by
  induction actions generalizing machine tape with
  | nil => rfl
  | cons action actions ih =>
    have hfirst := enact_beside machine tape action
    cases h : action.aboutTape with
    | true =>
      rw [h, if_pos rfl] at hfirst
      simp only [enactAll_cons, hfirst, ih, List.filter_cons, h, Bool.not_true, Bool.false_eq_true,
        if_true, if_false]
    | false =>
      rw [h, if_neg Bool.false_ne_true] at hfirst
      simp only [enactAll_cons, hfirst, ih, List.filter_cons, h, Bool.not_false,
        Bool.false_eq_true, if_true, if_false]

theorem enactAll_apart (draft : Draft Unit) (actions : List Action) :
    (enactAll actions draft).1 =
      (enactAll (actions.filter (!·.aboutTape)) draft).1.beside
        (enactAll (actions.filter Action.aboutTape) draft).1 :=
  enactAll_beside draft draft actions

theorem SameMachine.enactAll {draft other : Draft Unit} (h : draft.SameMachine other)
    (actions : List Action) : (enactAll actions draft).1.SameMachine (enactAll actions other).1 := by
  have hdraft := enactAll_beside other draft actions
  rw [← h.eq_beside] at hdraft
  rw [hdraft, enactAll_apart other actions]
  exact ⟨rfl, rfl, rfl⟩

theorem SameTape.enactAll {draft other : Draft Unit} (h : draft.SameTape other)
    (actions : List Action) : (enactAll actions draft).1.SameTape (enactAll actions other).1 := by
  have hdraft := enactAll_beside draft other actions
  rw [← h.eq_beside] at hdraft
  rw [hdraft, enactAll_apart other actions]
  exact ⟨rfl, rfl⟩

end Draft

namespace Scan

/-- Two scans read the same item in the same scopes, whatever they have found before it. -/
structure Abreast (s t : Scan μ) : Prop where
  scopes : s.scopes = t.scopes
  fields : s.item.fields = t.item.fields
  current : s.item.current = t.item.current
  spoilt : s.item.spoilt = t.item.spoilt

namespace Abreast

variable {s t : Scan μ} (place place' : μ)

theorem enter (h : s.Abreast t) (scope : Scope) :
    (s.enter scope place).Abreast (t.enter scope place') :=
  ⟨congrArg (Scopes.enter scope none) h.scopes, rfl, rfl, rfl⟩

theorem leave (h : s.Abreast t) (scope : Scope) :
    (s.leave scope place).Abreast (t.leave scope place') := by
  rw [Scan.leave, Scan.leave, h.scopes]
  cases t.scopes.exit scope with
  | ok exited => exact { h with scopes := rfl }
  | error e => exact { h with }

theorem dropItem (h : s.Abreast t) : (s.dropItem place).Abreast (t.dropItem place') :=
  ⟨h.scopes, rfl, rfl, rfl⟩

theorem report (h : s.Abreast t) (cause cause' : Cause) :
    (s.report cause place).Abreast (t.report cause' place') :=
  { h with }

theorem reject (h : s.Abreast t) (fault : Fault) :
    (s.reject fault place).Abreast (t.reject fault place') :=
  { h with spoilt := rfl }

theorem of_scopes_item {u v : Scan μ} (h : s.Abreast t) (hu : u.scopes = s.scopes)
    (hv : v.scopes = t.scopes) (hu' : u.item = s.item) (hv' : v.item = t.item) : u.Abreast v where
  scopes := by rw [hu, hv, h.scopes]
  fields := by rw [hu', hv', h.fields]
  current := by rw [hu', hv', h.current]
  spoilt := by rw [hu', hv', h.spoilt]

theorem declareBlock (h : s.Abreast t) :
    (s.declareBlock place).Abreast (t.declareBlock place') :=
  h.of_scopes_item (scopes_declareBlock place s) (scopes_declareBlock place' t)
    (item_declareBlock place s) (item_declareBlock place' t)

theorem settle (h : s.Abreast t) (applied applied' : Applied μ) :
    (s.settle place applied).Abreast (t.settle place' applied') :=
  h.of_scopes_item (scopes_settle place applied s) (scopes_settle place' applied' t)
    (item_settle place applied s) (item_settle place' applied' t)

theorem openBlock (h : s.Abreast t) (name : Option Name) :
    (s.openBlock name place).Abreast (t.openBlock name place') := by
  have hentered : Abreast { s with scopes := s.scopes.enter .block name }
      { t with scopes := t.scopes.enter .block name } :=
    { h with scopes := congrArg (Scopes.enter .block name) h.scopes }
  cases name with
  | none => exact hentered
  | some name => exact hentered.declareBlock place place'

theorem finishName (h : s.Abreast t) : (s.finishName place).Abreast (t.finishName place') := by
  have hleft := (h.dropItem place place').leave place place' .blockName
  rw [Scan.finishName, Scan.finishName, h.spoilt, h.current]
  split
  · exact hleft.openBlock place place' none
  · split
    · exact (hleft.report place place' _ _).openBlock place place' none
    · exact hleft.openBlock place place' _

theorem abandonName (h : s.Abreast t) : (s.abandonName place).Abreast (t.abandonName place') := by
  have hleft := (h.dropItem place place').leave place place' .blockName
  rw [Scan.abandonName, Scan.abandonName, h.spoilt]
  split
  · exact hleft
  · exact hleft.report place place' _ _

theorem leaveBlock (h : s.Abreast t) (spoilt : Bool) :
    (s.leaveBlock spoilt place).Abreast (t.leaveBlock spoilt place') := by
  rw [Scan.leaveBlock, Scan.leaveBlock, h.scopes]
  cases t.scopes.exit .block with
  | ok exited => exact { h with scopes := rfl }
  | error e =>
    cases spoilt with
    | true => exact h
    | false => exact h.report place place' _ _

theorem interrupt (h : s.Abreast t) (scope : Scope) :
    (s.interrupt scope place).Abreast (t.interrupt scope place') := by
  have hleft := ((h.dropItem place place').leaveBlock place place' t.item.spoilt).leave
    place place' scope
  rw [Scan.interrupt, Scan.interrupt, h.spoilt]
  simp only [hleft.scopes]
  split
  · exact hleft
  · exact hleft.leave place place' .block

theorem commit (h : s.Abreast t) (d : Directive) :
    (s.commit d place).Abreast (t.commit d place') := by
  have hleft := (h.dropItem place place').leave place place' (.directive d)
  rw [Scan.commit, Scan.commit, h.spoilt]
  split
  · exact hleft
  · exact hleft.settle _ _ _ _

theorem collect (h : s.Abreast t) (scope : Scope) (c : Char) :
    (s.collect scope place c).Abreast (t.collect scope place' c) := by
  rw [Scan.collect, Scan.collect, h.spoilt]
  split
  · exact h
  · split
    · split
      · exact { h with
          fields := by rw [Item.separate, Item.separate, h.fields, h.current]
          current := rfl }
      · exact h.reject place place' _
    · split
      · exact { h with current := congrArg (c :: ·) h.current }
      · exact h.reject place place' _

theorem readInBlock (h : s.Abreast t) (c : Char) :
    (s.readInBlock place c).Abreast (t.readInBlock place' c) := by
  rw [Scan.readInBlock, Scan.readInBlock]
  split
  · exact h.leave place place' .block
  · split
    · exact h.report place place' _ _
    · split
      · exact h.enter place place' _
      · exact h.report place place' _ _

theorem readInName (h : s.Abreast t) (c : Char) :
    (s.readInName place c).Abreast (t.readInName place' c) := by
  rw [Scan.readInName, Scan.readInName]
  split
  · exact h.finishName place place'
  · split
    · exact h.abandonName place place'
    · split
      · exact h.interrupt place place' .blockName
      · exact h.collect place place' .blockName c

theorem readInDirective (h : s.Abreast t) (d : Directive) (c : Char) :
    (s.readInDirective d place c).Abreast (t.readInDirective d place' c) := by
  rw [Scan.readInDirective, Scan.readInDirective]
  split
  · exact h.interrupt place place' (.directive d)
  · split
    · exact h.commit place place' d
    · split
      · exact h
      · split
        · exact h.collect place place' (.directive d) ':'
        · exact h.collect place place' (.directive d) c

theorem read (h : s.Abreast t) (c : Char) : (s.read place c).Abreast (t.read place' c) := by
  rw [Scan.read, Scan.read, h.scopes]
  cases t.scopes.top with
  | comment =>
    dsimp only
    split
    · exact h.leave place place' .comment
    · exact h
  | block =>
    dsimp only
    split
    · exact h
    · exact h.readInBlock place place' c
  | blockName =>
    dsimp only
    split
    · exact h
    · exact h.readInName place place' c
  | directive d =>
    dsimp only
    split
    · exact h
    · exact h.readInDirective place place' d c

theorem action?_eq (h : s.Abreast t) (c : Char) : s.action? c = t.action? c := by
  have hfields : s.item.allFields = t.item.allFields := by
    rw [Item.allFields, Item.allFields, Item.separate, Item.separate, h.fields, h.current]
  rw [action?, action?, h.scopes, h.spoilt, h.current, hfields]

theorem readAll {s t : Scan Mark} (h : s.Abreast t) (gap gap' : Mark) (text : List Char) :
    s.actions (gap.locate text) = t.actions (gap'.locate text) ∧
      (s.readAll (gap.locate text)).Abreast (t.readAll (gap'.locate text)) := by
  -- By induction on the text: scans side by side ask for the same and end side by side.
  induction text generalizing s t gap gap' with
  | nil => exact ⟨rfl, h⟩
  | cons c text ih =>
    obtain ⟨hactions, hend⟩ := ih (h.read gap.here gap'.here c) (gap.past c) (gap'.past c)
    exact ⟨by rw [Mark.locate, Mark.locate, actions, actions, h.action?_eq c, hactions], hend⟩

end Abreast

theorem abreast_of_idle {s : Scan μ} (h : s.item.Idle) (place : μ) (draft : Draft μ)
    (log : List (Diagnostic μ)) : Abreast { s with item := Item.fresh place, draft, log } s where
  scopes := rfl
  fields := by rw [h]; rfl
  current := by rw [h]; rfl
  spoilt := by rw [h]; rfl

theorem readAll_directive {s : Scan μ} (h : s.Orderly) (htop : s.scopes.top = .block)
    (start stop : μ) {opener : Char} {d : Directive}
    (hopener : Scope.opened? opener = some (.directive d)) (body : List (μ × Char))
    (hbody : ∀ p ∈ body, (Scope.directive d).ends p.2 = false) :
    let t := s.readAll ((start, opener) :: (body ++ [(stop, ';')]))
    t.Abreast s ∧ (d.aboutTape = true → t.draft.SameMachine s.draft) ∧
      (d.aboutTape = false → t.draft.SameTape s.draft) := by
  intro t
  have hidle : s.item.Idle := h.idle (by rw [htop]; rfl)
  rcases readAll_item h htop start stop hopener rfl body hbody with
    ⟨e, -, hread⟩ | ⟨d', place, fields, draft, notices, hd, happly, hread⟩
  · have ht : t = _ := hread
    rw [ht]
    exact ⟨abreast_of_idle hidle stop s.draft _, fun _ => ⟨rfl, rfl, rfl⟩, fun _ => ⟨rfl, rfl⟩⟩
  · obtain rfl : d = d' := Scope.directive.inj hd
    have ht : t = _ := hread
    rw [ht, reportAll_eq]
    exact ⟨abreast_of_idle hidle stop draft _, Draft.same_of_apply happly⟩

theorem Abreast.draft_readAll {s t : Scan Mark} (h : s.Abreast t) (hs : s.Orderly) (ht : t.Orderly)
    (gap gap' : Mark) (text : List Char) :
    let forget : Mark → Unit := fun _ => ()
    let draft := (s.readAll (gap.locate text)).draft.recast forget
    let other := (t.readAll (gap'.locate text)).draft.recast forget
    (s.draft.SameMachine t.draft → draft.SameMachine other) ∧
      (s.draft.SameTape t.draft → draft.SameTape other) := by
  intro forget draft other
  have hdraft : draft = _ := recast_draft_readAll hs (gap.locate text)
  have hother : other = _ := recast_draft_readAll ht (gap'.locate text)
  rw [hdraft, hother, (h.readAll gap gap' text).1]
  exact ⟨fun hmachine => (hmachine.recast forget).enactAll _,
    fun htape => (htape.recast forget).enactAll _⟩

end Scan

/-- A directive in a source leaves the half that it is not about as it is without the directive. -/
theorem readSource_directive (front body back : List Char) {opener : Char} {d : Directive}
    (hopener : Scope.opened? opener = some (.directive d))
    (htop : (readSource front).scopes.top = .block) (hbody : ∀ c ∈ body, c ≠ ';' ∧ c ≠ '\x7d') :
    let whole := readSource (front ++ (opener :: (body ++ [';'])) ++ back)
    let without := readSource (front ++ back)
    whole.scopes = without.scopes ∧
      (d.aboutTape = true → whole.draft.table = without.draft.table ∧
        whole.draft.initial.map Prod.fst = without.draft.initial.map Prod.fst ∧
        whole.draft.halts = without.draft.halts) ∧
      (d.aboutTape = false → whole.draft.alphabet = without.draft.alphabet ∧
        whole.draft.tape = without.draft.tape) := by
  intro whole without
  let gap := Mark.origin.after front
  let item := opener :: (body ++ [';'])
  have hends : ∀ p ∈ (gap.past opener).locate body, (Scope.directive d).ends p.2 = false := by
    intro p hp
    obtain ⟨hterm, hclose⟩ := hbody p.2 (Mark.snd_mem_of_mem_locate hp)
    simp [Scope.ends, hterm, hclose]
  obtain ⟨habreast, hmachine, htape⟩ : (readSource (front ++ item)).Abreast (readSource front) ∧
      (d.aboutTape = true → (readSource (front ++ item)).draft.SameMachine (readSource front).draft) ∧
      (d.aboutTape = false → (readSource (front ++ item)).draft.SameTape (readSource front).draft) := by
    rw [readSource_append_item]
    exact Scan.readAll_directive (orderly_readSource front) htop _ _ hopener _ hends
  have hwhole : whole = _ := readSource_append (front ++ item) back
  have hwithout : without = _ := readSource_append front back
  obtain ⟨hsameMachine, hsameTape⟩ := habreast.draft_readAll (orderly_readSource _)
    (orderly_readSource _) (Mark.origin.after (front ++ item)) gap back
  rw [hwhole, hwithout]
  refine ⟨(habreast.readAll _ _ back).2.scopes, fun hd => ?_, fun hd => ?_⟩
  · have hsame := hsameMachine (hmachine hd)
    have hinitial := congrArg (Option.map Prod.fst) hsame.initial
    rw [Draft.initial_recast, Draft.initial_recast] at hinitial
    exact ⟨hsame.table, hinitial, hsame.halts⟩
  · have hsame := hsameTape (htape hd)
    exact ⟨hsame.alphabet, hsame.tape⟩

/--
The tape and the machine do not interfere. Into a source, where it is read in a block, any text is put
that runs from the opener of a directive to its first semicolon and holds no end of a block. If it
opens as an alphabet or a tape, the table, the initial state, the halting states and the open scopes
at the end are what they are without it; if it opens as any other directive, the alphabet and the
tape are.
-/
theorem readSource_aside (front body back : List Char) (opener : Char)
    (htop : (readSource front).scopes.top = .block) (hbody : ∀ c ∈ body, c ≠ ';' ∧ c ≠ '\x7d') :
    let whole := readSource (front ++ (opener :: (body ++ [';'])) ++ back)
    let without := readSource (front ++ back)
    (opener ∈ ['@', '&'] → whole.draft.table = without.draft.table ∧
      whole.draft.initial.map Prod.fst = without.draft.initial.map Prod.fst ∧
      whole.draft.halts = without.draft.halts ∧ whole.scopes = without.scopes) ∧
    (opener ∈ ['$', '*', '~', '!'] → whole.draft.alphabet = without.draft.alphabet ∧
      whole.draft.tape = without.draft.tape) := by
  intro whole without
  constructor
  · intro hopener
    obtain ⟨d, hopened, hd⟩ : ∃ d, Scope.opened? opener = some (.directive d) ∧
        d.aboutTape = true := by
      simp only [List.mem_cons, List.not_mem_nil, or_false] at hopener
      rcases hopener with rfl | rfl
      all_goals exact ⟨_, rfl, rfl⟩
    obtain ⟨hscopes, hmachine, -⟩ := readSource_directive front body back hopened htop hbody
    obtain ⟨htable, hinitial, hhalts⟩ := hmachine hd
    exact ⟨htable, hinitial, hhalts, hscopes⟩
  · intro hopener
    obtain ⟨d, hopened, hd⟩ : ∃ d, Scope.opened? opener = some (.directive d) ∧
        d.aboutTape = false := by
      simp only [List.mem_cons, List.not_mem_nil, or_false] at hopener
      rcases hopener with rfl | rfl | rfl | rfl
      all_goals exact ⟨_, rfl, rfl⟩
    obtain ⟨-, -, htape⟩ := readSource_directive front body back hopened htop hbody
    exact htape hd

/--
A second alphabet, after which the tape that follows is refused, changes nothing of the machine; a
transition with a fault changes nothing of the tape.
-/
theorem readSource_aside_refused :
    let front := ['@', '0', ';', '*', 'q', ';', '!', 'q', ';']
    let back := ['&', '0', ';', '$', 'q', ':', '0', '>', 'q', ':', '1', ':', 'R', ';']
    (readSource (front ++ ['@', '1', ';'] ++ back)).draft.table =
        (readSource (front ++ back)).draft.table ∧
      (readSource (front ++ ['@', '1', ';'] ++ back)).scopes =
        (readSource (front ++ back)).scopes ∧
      (readSource (front ++ ['$', '#', ';'] ++ back)).draft.tape =
        (readSource (front ++ back)).draft.tape := by
  intro front back
  have htop : (readSource front).scopes.top = .block := by decide
  have hbody : ∀ x ∈ ['1', '#'], ∀ c ∈ [x], c ≠ ';' ∧ c ≠ '\x7d' := by
    intro x hx c hc
    rw [List.mem_singleton.mp hc]
    simp only [List.mem_cons, List.not_mem_nil, or_false] at hx
    rcases hx with rfl | rfl
    all_goals decide
  obtain ⟨hmachine, -⟩ := readSource_aside front ['1'] back '@' htop (hbody '1' (by simp))
  obtain ⟨htable, -, -, hscopes⟩ := hmachine (by simp)
  obtain ⟨-, htape⟩ := readSource_aside front ['#'] back '$' htop (hbody '#' (by simp))
  exact ⟨htable, hscopes, (htape (by simp)).2⟩

end TapeMachine
