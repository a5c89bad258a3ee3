import TapeMachine.Proofs.Language.Rooted
/-!
# Names inside blocks

A name inside blocks has the names of the blocks in front of it, each with a dot behind it. Written
out in this way, the names tell what an action does to a draft (`effects_enactAll`).
-/
namespace TapeMachine

namespace Name

/-- A name with those of the blocks around it in front, each with a dot behind it. -/
def dotted (path : List Name) (name : Name) : Name := path.flatMap (· ++ ['.']) ++ name

/-- The name of the innermost block with those of the blocks around it; there may be no block. -/
def ofBlocks (path : List Name) : Name := dotted path.dropLast (path.getLastD [])

/-- What a field refers to: a whole name stands behind a dot, any other one is inside the blocks. -/
inductive Denotes (path : List Name) : List Char → Name → Prop
  | whole (name : Name) : Denotes path ('.' :: name) name
  | inside (name : Name) (hnamed : name ≠ []) (hrelative : name.head? ≠ some '.') :
      Denotes path name (dotted path name)

/-- The state that a transition leaves: that of the innermost block, or one inside it. -/
inductive Leaves (path : List Name) : List Char → Name → Prop
  | block (field : List Char) (hblank : field = [] ∨ field = ['*']) :
      Leaves path field (ofBlocks path)
  | inside (name : Name) (hnamed : name ≠ []) (hrelative : name.head? ≠ some '.') :
      Leaves path name (dotted path name)

theorem join_concat (path : List Name) (last : Name) : join (path ++ [last]) = dotted path last := by
  induction path with
  | nil => exact join_singleton last
  | cons part path ih =>
    have hrest : path ++ [last] ≠ [] := List.append_ne_nil_of_right_ne_nil path (by simp)
    rw [List.cons_append, join_cons part hrest, ih]
    simp [dotted, Glyph.separator]

theorem join_eq_ofBlocks (path : List Name) : join path = ofBlocks path := by
  rcases List.eq_nil_or_concat path with rfl | ⟨front, last, rfl⟩
  · rfl
  · rw [List.concat_eq_append, join_concat]
    simp [ofBlocks]

theorem qualify_eq_dotted (path : List Name) {name : Name} (h : name ≠ anonymous) :
    qualify path name = dotted path name := by
  rw [qualify, if_neg h, join_concat]

end Name

/-- What an action that is not refused does to a draft. -/
inductive Action.Effect (draft : Draft Unit) : Action → Draft Unit → Prop
  | block (path : List Name) :
      Effect draft (.declare path) { draft with table := draft.table.insert (Name.ofBlocks path) }
  | tape (path : List Name) (fields : List (List Char)) :
      Effect draft (.apply path .tape fields) { draft with tape := some fields.flatten }
  | alphabet (path : List Name) (symbols : List Char) :
      Effect draft (.apply path .alphabet (symbols.map ([·])))
        { draft with alphabet := Roster.enterAll [] (symbols ++ ['_']) }
  | transition (path : List Name) (state read target write direction : List Char) (t : Transition)
      (hstate : Name.Leaves path state t.state) (hread : Draft.symbol? read = some t.read)
      (htarget : Name.Denotes path target t.target) (hwrite : Draft.symbol? write = some t.write)
      (hdirection : Draft.direction? direction = some t.direction) :
      Effect draft (.apply path .transition [state, read, target, write, direction])
        { draft with table := draft.table.append t }
  | initial (path : List Name) (fields : List (List Char)) (name : Name)
      (hname : Name.Denotes path fields.flatten name) :
      Effect draft (.apply path .initial fields) { draft with initial := some (name, ()) }
  | halts (path : List Name) (fields : List (List Char)) (names : List Name)
      (hlength : fields.length = names.length)
      (hnames : ∀ p ∈ fields.zip names, Name.Denotes path p.1 p.2) :
      Effect draft (.apply path .halts fields)
        { draft with halts := Roster.enterAll draft.halts (names.filter (· ≠ Name.halt)) }
  | states (path : List Name) (fields : List (List Char)) :
      Effect draft (.apply path .states fields)
        { draft with table := draft.table.insertAll (fields.map (Name.dotted path)) }

/-- Actions take effect one after another, with notices, or are refused and do nothing. -/
inductive Effects : List Action → Draft Unit → Draft Unit → List Cause → Prop
  | nil (draft : Draft Unit) : Effects [] draft draft []
  | takes {action : Action} {rest : List Action} {draft next last : Draft Unit}
      {causes : List Cause} (notices : List Notice) (heffect : action.Effect draft next)
      (hrest : Effects rest next last causes) :
      Effects (action :: rest) draft last (notices.map .notice ++ causes)
  | refused {path : List Name} {d : Directive} {fields : List (List Char)} {rest : List Action}
      {draft last : Draft Unit} {causes : List Cause} (r : Refusal)
      (hrest : Effects rest draft last causes) :
      Effects (.apply path d fields :: rest) draft last (.refusal r :: causes)

namespace Draft

variable {path : List Name} {draft : Draft Unit}

theorem denotes_of_resolve {role : Role} {field : List Char} {name : Name}
    (h : draft.resolve path role field = .ok name) : Name.Denotes path field name := by
  rcases resolve_eq_ok h with ⟨rfl, -⟩ | ⟨hlocal, rfl⟩
  · exact .whole name
  · rw [Name.qualify_eq_dotted path hlocal.named]
    exact .inside field hlocal.named hlocal.relative

theorem leaves_of_source {field : List Char} {name : Name} (h : source path field = .ok name) :
    Name.Leaves path field name := by
  rcases source_eq_ok h with ⟨hblank, rfl⟩ | ⟨hlocal, rfl⟩
  · rw [Name.qualify, if_pos rfl, Name.join_eq_ofBlocks]
    exact .block field hblank
  · rw [Name.qualify_eq_dotted path hlocal.named]
    exact .inside field hlocal.named hlocal.relative

theorem denotes_of_haltNames {fields : List (List Char)} {names : List Name}
    (h : draft.haltNames path fields = .ok names) :
    fields.length = names.length ∧ ∀ p ∈ fields.zip names, Name.Denotes path p.1 p.2 := by
  induction fields generalizing names with
  | nil =>
    cases h
    exact ⟨rfl, by simp⟩
  | cons field rest ih =>
    obtain ⟨first, hfirst, h⟩ := ok_of_bind h
    split at h
    next =>
      obtain ⟨others, hothers, rfl⟩ := ok_of_map h
      obtain ⟨hlength, hall⟩ := ih hothers
      refine ⟨congrArg (· + 1) hlength, ?_⟩
      rw [List.zip_cons_cons, List.forall_mem_cons]
      exact ⟨denotes_of_resolve hfirst, hall⟩
    next => cases h

/-- A directive that is applied takes effect. -/
theorem Applies.effect {d : Directive} {fields : List (List Char)} {next : Draft Unit}
    (h : Applies path () fields draft d next) : (Action.apply path d fields).Effect draft next := by
  cases h with
  | tape => exact .tape path fields
  | alphabet found hfields =>
    rw [hfields]
    exact .alphabet path found
  | transition t ht =>
    obtain ⟨state, read, target, write, direction, rfl, hstate, hread, htarget, hwrite, hway⟩ :=
      transition_eq_ok ht
    exact .transition path state read target write direction t (leaves_of_source hstate) hread
      (denotes_of_resolve htarget) hwrite hway
  | initial name hname => exact .initial path fields name (denotes_of_resolve hname)
  | halts names hnames =>
    obtain ⟨hlength, hall⟩ := denotes_of_haltNames hnames
    exact .halts path fields names hlength hall
  | states hfields =>
    have hnames : fields.map (Name.qualify path) = fields.map (Name.dotted path) :=
      List.map_congr_left fun field hfield => Name.qualify_eq_dotted path (hfields field hfield).1
    rw [hnames]
    exact .states path fields

theorem effects_enactAll (actions : List Action) (draft : Draft Unit) :
    Effects actions draft (enactAll actions draft).1 (enactAll actions draft).2 := by
  -- By induction on the actions: each takes effect or is refused.
  induction actions generalizing draft with
  | nil => exact .nil draft
  | cons action rest ih =>
    rw [enactAll_cons]
    cases action with
    | declare path =>
      refine .takes _ ?_ (ih _)
      rw [enact, Name.join_eq_ofBlocks]
      exact .block path
    | apply path d fields =>
      cases happly : draft.apply path d () fields with
      | error r =>
        have henact : draft.enact (.apply path d fields) = (draft, [.refusal r]) := by
          rw [enact, happly]
        rw [henact]
        exact .refused r (ih draft)
      | ok result =>
        obtain ⟨next, notices⟩ := result
        have henact : draft.enact (.apply path d fields) = (next, notices.map .notice) := by
          rw [enact, happly]
        rw [henact]
        exact .takes notices (applies_of_apply happly).effect (ih next)

end Draft

end TapeMachine
