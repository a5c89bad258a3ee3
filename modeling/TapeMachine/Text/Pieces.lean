/-!
# Pieces of a text
-/
namespace TapeMachine.Text

section
variable {α : Type} [DecidableEq α]

/-- The pieces between separators; there is one more of them than there are separators. -/
def pieces (separator : α) : List α → List (List α)
  | [] => [[]]
  | c :: rest =>
    if c = separator then [] :: pieces separator rest
    else
      match pieces separator rest with
      | [] => [[c]]
      | piece :: others => (c :: piece) :: others

theorem pieces_ne_nil (separator : α) (text : List α) : pieces separator text ≠ [] := by
  cases text with
  | nil => exact List.cons_ne_nil _ _
  | cons c rest =>
    unfold pieces
    split
    · exact List.cons_ne_nil _ _
    · split <;> exact List.cons_ne_nil _ _

theorem pieces_append (separator : α) (front back : List α) :
    pieces separator (front ++ separator :: back) =
      pieces separator front ++ pieces separator back := by
  induction front with
  | nil => simp [pieces]
  | cons c rest ih =>
    by_cases hc : c = separator
    · simp [pieces, hc, ih]
    · simp only [List.cons_append, pieces, hc, if_false, ih]
      cases hp : pieces separator rest with
      | nil => exact (pieces_ne_nil separator rest hp).elim
      | cons piece others => rfl

theorem pieces_of_not_mem {separator : α} {text : List α} (h : separator ∉ text) :
    pieces separator text = [text] := by
  induction text with
  | nil => rfl
  | cons c rest ih =>
    rw [List.mem_cons, not_or] at h
    rw [pieces, if_neg fun hc => h.1 hc.symm, ih h.2]

end

end TapeMachine.Text
