import TapeMachine.Text.Blank
/-!
# White space around a text

What is left of a line is known by what was cut off and by where that stops (`trims_iff`).
-/
namespace TapeMachine.Text

theorem dropEndWhile_append {p : Char → Bool} {cut : List Char} (h : ∀ c ∈ cut, p c = true)
    (text : List Char) : dropEndWhile p (text ++ cut) = dropEndWhile p text := by
  have hcut : ∀ c ∈ cut.reverse, p c = true := fun c hc => h c (List.mem_reverse.mp hc)
  rw [dropEndWhile, List.reverse_append, List.dropWhile_append_of_pos hcut, dropEndWhile]

theorem trim_append {cut : List Char} (h : ∀ c ∈ cut, isBlank c = true) (text : List Char) :
    trim (text ++ cut) = trim text := by
  rw [trim, trim, List.dropWhile_append]
  split
  next hempty =>
    have hall : cut.dropWhile isBlank = [] := by
      rw [← List.append_nil cut, List.dropWhile_append_of_pos h]
      rfl
    rw [hall, List.isEmpty_iff.mp hempty]
  next => exact dropEndWhile_append h _

/-- The text is the line without the white space at its ends. -/
structure Trims (line text : List Char) : Prop where
  around : ∃ front back, line = front ++ text ++ back ∧
    (∀ c ∈ front, isBlank c = true) ∧ ∀ c ∈ back, isBlank c = true
  first : ∀ c ∈ text.head?, isBlank c = false
  last : ∀ c ∈ text.getLast?, isBlank c = false

theorem dropWhile_of_head {p : Char → Bool} {text : List Char}
    (h : ∀ c ∈ text.head?, p c = false) : text.dropWhile p = text := by
  cases text with
  | nil => rfl
  | cons c rest => rw [List.dropWhile_cons_of_neg (by rw [h c rfl]; exact Bool.false_ne_true)]

theorem head?_dropWhile_false (p : Char → Bool) (text : List Char) :
    ∀ c ∈ (text.dropWhile p).head?, p c = false := by
  intro c hc
  have hstop := List.head?_dropWhile_not p text
  rw [Option.mem_def.mp hc] at hstop
  simpa using hstop

theorem dropEndWhile_of_last {p : Char → Bool} {text : List Char}
    (h : ∀ c ∈ text.getLast?, p c = false) : dropEndWhile p text = text := by
  rw [dropEndWhile, dropWhile_of_head (by rwa [List.head?_reverse]), List.reverse_reverse]

theorem getLast?_dropEndWhile_false (p : Char → Bool) (text : List Char) :
    ∀ c ∈ (dropEndWhile p text).getLast?, p c = false := by
  rw [dropEndWhile, List.getLast?_reverse]
  exact head?_dropWhile_false p text.reverse

theorem trims_trim (line : List Char) : Trims line (trim line) := by
  have hfirst := head?_dropWhile_false isBlank line
  obtain ⟨back, hline, hback⟩ := eq_append_dropEndWhile isBlank (line.dropWhile isBlank)
  rw [← trim] at hline
  constructor
  case around =>
    refine ⟨line.takeWhile isBlank, back, ?_, ?_, hback⟩
    · rw [List.append_assoc, ← hline, List.takeWhile_append_dropWhile]
    · exact fun c hc => List.all_eq_true.mp List.all_takeWhile c hc
  case first =>
    intro c hc
    obtain ⟨rest, hrest⟩ := List.head?_eq_some_iff.mp hc
    exact hfirst c (by rw [hline, hrest]; rfl)
  case last => exact getLast?_dropEndWhile_false isBlank _

theorem trims_iff {line text : List Char} : Trims line text ↔ text = trim line := by
  constructor
  · rintro ⟨⟨front, back, rfl, hfront, hback⟩, hfirst, hlast⟩
    rw [trim_append hback, trim, List.dropWhile_append_of_pos hfront, dropWhile_of_head hfirst,
      dropEndWhile_of_last hlast]
  · rintro rfl
    exact trims_trim line

end TapeMachine.Text
