import TapeMachine.Engine.Command
import TapeMachine.Proofs.Text.Trim
/-!
# The language of commands

A line asks for a command if the text in it has the form of one, and is no command otherwise
(`ofLine_eq_iff`). The forms do not overlap, although a symbol to write may be a digit and a state
may be named by any text.
-/
namespace TapeMachine.Command

/-- The forms of the commands. A number may have leading zeros and fits into 64 bits. -/
inductive Asks : List Char → Command → Prop
  | next : Asks [] (step 1)
  | skip {digits : List Char} {n : Nat} (hne : digits ≠ [])
      (hdigits : ∀ c ∈ digits, c.isDigit = true) (hvalue : Nat.ofDigitChars 10 digits 0 = n)
      (hfits : n < UInt64.size) : Asks digits (step n)
  | quit : Asks ['q'] quit
  | right : Asks ['r'] (move .right)
  | left : Asks ['l'] (move .left)
  | enter {name : Name} (hne : name ≠ []) : Asks ('$' :: name) (setState name)
  | write (c : Char) : Asks ['+', c] (write c)

theorem Asks.ne_invalid {text other : List Char} {command : Command} (h : Asks text command) :
    command ≠ invalid other := by
  cases h <;> exact Command.noConfusion

theorem ofText_of_digits {text : List Char} (hne : text ≠ [])
    (hdigits : ∀ c ∈ text, c.isDigit = true) : ofText text = ofNumber text := by
  obtain ⟨c, rest, rfl⟩ := List.exists_cons_of_ne_nil hne
  have hc : c.isDigit = true := hdigits c List.mem_cons_self
  have hother : ∀ d : Char, d.isDigit = false → c ≠ d := by
    rintro d hd rfl
    exact Bool.false_ne_true (hd.symm.trans hc)
  have hq := hother 'q' rfl
  have hr := hother 'r' rfl
  have hl := hother 'l' rfl
  have hdollar := hother '$' rfl
  have hplus := hother '+' rfl
  simp [ofText, hq, hr, hl, hdollar, hplus]

theorem readWord_iff {text : List Char} {n : Nat} : Text.readWord text = some n ↔
    text ≠ [] ∧ (∀ c ∈ text, c.isDigit = true) ∧ Nat.ofDigitChars 10 text 0 = n ∧
      n < UInt64.size := by
  rw [← Nat.le_sub_one_iff_lt (by decide)]
  exact Text.readWord_eq_some_iff

theorem ofText_of_asks {text : List Char} {command : Command} (h : Asks text command) :
    ofText text = command := by
  cases h with
  | next => rfl
  | skip hne hdigits hvalue hfits =>
    have hword := readWord_iff.mpr ⟨hne, hdigits, hvalue, hfits⟩
    rw [ofText_of_digits hne hdigits, ofNumber, hword]
  | quit => rfl
  | right => rfl
  | left => rfl
  | enter hne =>
    obtain ⟨c, rest, rfl⟩ := List.exists_cons_of_ne_nil hne
    rfl
  | write c => rfl

theorem asks_or_invalid (text : List Char) :
    Asks text (ofText text) ∨ ofText text = invalid text := by
  unfold ofText
  split
  · exact .inl .next
  · exact .inl .quit
  · exact .inl .right
  · exact .inl .left
  · exact .inr rfl
  next name hne => exact .inl (.enter fun hname => hne (by rw [hname]))
  next c => exact .inl (.write c)
  next =>
    rw [ofNumber]
    cases hword : Text.readWord text with
    | none => exact .inr rfl
    | some n =>
      obtain ⟨hne, hdigits, hvalue, hfits⟩ := readWord_iff.mp hword
      exact .inl (.skip hne hdigits hvalue hfits)

theorem ofText_eq_iff {text : List Char} {command : Command} : ofText text = command ↔
    Asks text command ∨ command = invalid text ∧ ∀ other, ¬Asks text other := by
  constructor
  · rintro rfl
    rcases asks_or_invalid text with hasks | hinvalid
    · exact .inl hasks
    · refine .inr ⟨hinvalid, ?_⟩
      intro other hother
      exact hother.ne_invalid ((ofText_of_asks hother).symm.trans hinvalid)
  · rintro (hasks | ⟨rfl, hnone⟩)
    · exact ofText_of_asks hasks
    · rcases asks_or_invalid text with hasks | hinvalid
      · exact absurd hasks (hnone _)
      · exact hinvalid

/--
A line is read as the command that the text in it asks for. In every other case, as where a number
does not fit into 64 bits, it is no command, and the text in it is kept.
-/
theorem ofLine_eq_iff (line : List Char) (command : Command) :
    ofLine line = command ↔ ∃ text, Text.Trims line text ∧
      (Asks text command ∨ command = invalid text ∧ ∀ other, ¬Asks text other) := by
  rw [ofLine, ofText_eq_iff]
  constructor
  · intro h
    exact ⟨Text.trim line, Text.trims_trim line, h⟩
  · rintro ⟨text, htrims, h⟩
    rw [← Text.trims_iff.mp htrims]
    exact h

/-- Leading zeros, a symbol that is a digit, and the least number that does not fit. -/
example : ofLine ['\t', '0', '0', '7', '\u2003'] = step 7 ∧ ofLine ['+', '7', ' '] = write '7' ∧
    ofLine "18446744073709551616".toList = invalid "18446744073709551616".toList := by decide

end TapeMachine.Command
