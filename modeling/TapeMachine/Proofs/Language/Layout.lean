import TapeMachine.Proofs.Language.Bare
/-!
# Sources in normal form

Layout and comments may be left out of a source, and the arrows of its transitions written as
colons. The normal text that remains is read in the same way as the source, whatever is wrong with
it (`compile_normalSource`).
-/
namespace TapeMachine

/-- A text that is read in a scope, with the arrows of its transitions written as colons. -/
def Scope.unarrow (scope : Scope) : List Char → List Char
  | [] => []
  | c :: rest =>
    if scope = directive .transition ∧ c = '-' then unarrow scope rest
    else if scope = directive .transition ∧ c = '>' then ':' :: unarrow scope rest
    else c :: unarrow (scope.next c) rest

/-- A source without its layout and its comments, with colons in the place of arrows. -/
def normalSource (source : List Char) : List Char := Scope.block.unarrow (bareSource source)

namespace Scan

variable {μ ν : Type}

theorem read_shaft {s : Scan μ} (htop : s.scopes.top = .directive .transition) (place : μ) :
    s.read place '-' = s := by
  rw [read_directive htop place rfl]
  rfl

theorem read_arrowhead {s : Scan μ} (htop : s.scopes.top = .directive .transition) (place : μ) :
    s.read place '>' = s.read place ':' := by
  rw [read_directive htop place rfl, read_directive htop place rfl]
  rfl

theorem readAll_unarrow {s : Scan Unit} (h : s.Orderly) (text : List Char) :
    s.readAll ((s.scopes.top.unarrow text).map (Prod.mk ())) =
      s.readAll (text.map (Prod.mk ())) := by
  -- By induction on the text: its arrows are read as colons.
  induction text generalizing s with
  | nil => rfl
  | cons c text ih =>
    have hrest := ih ((reads_read h () c).orderly h)
    rw [top_read h] at hrest
    rw [Scope.unarrow]
    by_cases hshaft : s.scopes.top = .directive .transition ∧ c = '-'
    · obtain ⟨htop, rfl⟩ := hshaft
      rw [if_pos ⟨htop, rfl⟩, List.map_cons, readAll_cons, read_shaft htop]
      exact ih h
    · rw [if_neg hshaft]
      by_cases hhead : s.scopes.top = .directive .transition ∧ c = '>'
      · obtain ⟨htop, rfl⟩ := hhead
        have hnext : s.scopes.top.next '>' = s.scopes.top := by rw [htop]; rfl
        rw [if_pos ⟨htop, rfl⟩, List.map_cons, List.map_cons, readAll_cons, readAll_cons,
          ← read_arrowhead htop]
        rwa [hnext] at hrest
      · rw [if_neg hhead, List.map_cons, List.map_cons, readAll_cons, readAll_cons, hrest]

theorem outcome_unarrow {s : Scan Unit} (h : s.Orderly) (text : List Char) :
    (s.outcome (s.scopes.top.unarrow text)).2 = (s.outcome text).2 :=
  congrArg (close ()) (readAll_unarrow h text)

theorem placeOf_recast (f : μ → ν) (s : Scan μ) (p : Problem) :
    (s.recast f []).placeOf p = (s.placeOf p).map f := by
  cases p with
  | invalidInitial name => simp [placeOf, Draft.recast, Function.comp_def]
  | missingInitial => rfl
  | undefinedTarget state read target => rfl
  | unreachable states => rfl

theorem verdict_recast (f : μ → ν) (s : Scan μ) :
    (s.recast f []).verdict = s.verdict.map (Diagnostic.recast f) := by
  have hinitial : (s.draft.recast f).initial.map (·.1) = s.draft.initial.map (·.1) := by
    simp [Draft.recast, Function.comp_def]
  have hproblems : (s.recast f []).problemReports =
      s.problemReports.map (Diagnostic.recast f) := by
    rw [problemReports, problemReports, draft_recast, hinitial, List.map_map]
    apply List.map_congr_left
    intro p _
    rw [placeOf_recast]
    rfl
  rw [verdict, verdict, hproblems, List.map_append]
  simp [diagnostics, recast]

theorem program?_recast (f : μ → ν) (s : Scan μ) : (s.recast f []).program? = s.program? := by
  have herrors : Diagnostic.errorCount (s.recast f []).verdict =
      Diagnostic.errorCount s.verdict := by
    rw [verdict_recast, Diagnostic.errorCount, List.countP_map]
    rfl
  rw [program?, program?, herrors, draft_recast, Draft.program?_recast]

end Scan

/-- The scan of a source without its places is that of the normal text. -/
theorem recast_normalSource (source : List Char) :
    (scanSource (normalSource source)).recast (fun _ => ()) [] =
      (scanSource source).recast (fun _ => ()) [] := by
  have hnormal := congrArg Prod.snd (outcome_source (normalSource source))
  have hbare := congrArg Prod.snd (outcome_bareSource source)
  have hsame := Scan.outcome_unarrow (Scan.orderly_begin ()) (bareSource source)
  exact hnormal.symm.trans (hsame.trans hbare)

/-- A source has the program of its normal text, or neither has one, and the same reports but for
their places, also where it is malformed. -/
theorem compile_normalSource (source : List Char) :
    (compile (normalSource source)).program = (compile source).program ∧
      (compile (normalSource source)).diagnostics.map Diagnostic.gist =
        (compile source).diagnostics.map Diagnostic.gist := by
  have hrecast := recast_normalSource source
  constructor
  · rw [program_compile, program_compile, ← Scan.program?_recast (fun _ => ()), hrecast,
      Scan.program?_recast]
  · have hgist : ∀ s : Scan Mark, (s.recast (fun _ => ()) []).verdict.map Diagnostic.gist =
        s.verdict.map Diagnostic.gist := by
      intro s
      rw [Scan.verdict_recast, List.map_map]
      rfl
    rw [diagnostics_compile, diagnostics_compile, ← hgist, hrecast, hgist]

/-- The comment at the end has no line break, and the arrow outside of a transition stays. -/
example : normalSource ['$', 'q', ':', '1', ' ', '-', '>', ' ', 'q', ';', '#', 'x', '\n', '-', '>', '\t',
    '&', '#', ';', '#', 'y'] =
    ['$', 'q', ':', '1', ':', 'q', ';', '-', '>', '&', '#', ';'] := by decide

end TapeMachine
