/-!
# Decimal numbers

Numbers are written in ASCII digits without leading zeros. A number that is read may have leading
zeros; where a machine word is asked for, it must fit into 64 bits.
-/
namespace TapeMachine.Text

def decimal (n : Nat) : List Char := Nat.toDigits 10 n

theorem toList_toString (n : Nat) : (toString n).toList = decimal n := by
  rw [Nat.toString_eq_repr, Nat.toList_repr, decimal]

theorem ofList_decimal (n : Nat) : String.ofList (decimal n) = toString n := by
  rw [← toList_toString, String.ofList_toList]

theorem isDigit_of_mem_decimal {n : Nat} {c : Char} (h : c ∈ decimal n) : c.isDigit = true :=
  Nat.isDigit_of_mem_toDigits (by decide) (by decide) h

theorem decimal_injective {a b : Nat} (h : decimal a = decimal b) : a = b := by
  have hvalue := congrArg (fun digits => Nat.ofDigitChars 10 digits 0) h
  simpa [decimal] using hvalue

theorem takeWhile_isDigit_append {digits rest : List Char} (hdigits : ∀ c ∈ digits, c.isDigit = true)
    (hrest : ∀ c ∈ rest.head?, c.isDigit = false) :
    (digits ++ rest).takeWhile Char.isDigit = digits := by
  rw [List.takeWhile_append_of_pos hdigits]
  cases rest with
  | nil => simp
  | cons c rest => simp [hrest c rfl]

/-- A number at the beginning of a text can be read off if no digit stands after it. -/
theorem decimal_append {a b : Nat} {s t : List Char} (h : decimal a ++ s = decimal b ++ t)
    (hs : ∀ c ∈ s.head?, c.isDigit = false) (ht : ∀ c ∈ t.head?, c.isDigit = false) :
    a = b ∧ s = t := by
  have hsame : decimal a = decimal b := by
    rw [← takeWhile_isDigit_append (fun _ => isDigit_of_mem_decimal) hs, h,
      takeWhile_isDigit_append (fun _ => isDigit_of_mem_decimal) ht]
  rw [hsame] at h
  exact ⟨decimal_injective hsame, List.append_cancel_left h⟩

theorem append_decimal {a b : Nat} {s t : List Char} (h : s ++ decimal a = t ++ decimal b)
    (hs : ∀ c ∈ s.getLast?, c.isDigit = false) (ht : ∀ c ∈ t.getLast?, c.isDigit = false) :
    s = t ∧ a = b := by
  have hdigits : ∀ {n : Nat} {front : List Char}, (∀ c ∈ front.getLast?, c.isDigit = false) →
      (front ++ decimal n).reverse.takeWhile Char.isDigit = (decimal n).reverse := by
    intro n front hfront
    rw [List.reverse_append]
    apply takeWhile_isDigit_append
    · exact fun c hc => isDigit_of_mem_decimal (List.mem_reverse.mp hc)
    · rwa [List.head?_reverse]
  have hsame : decimal a = decimal b := by
    rw [← List.reverse_inj, ← hdigits hs, h, hdigits ht]
  rw [hsame] at h
  exact ⟨List.append_cancel_right h, decimal_injective hsame⟩

def decimalValue (digits : List Char) : Nat :=
  digits.foldl (fun value c => 10 * value + (c.toNat - '0'.toNat)) 0

def maxWord : Nat := UInt64.size - 1

def readWord (text : List Char) : Option Nat :=
  if text ≠ [] ∧ text.all Char.isDigit ∧ decimalValue text ≤ maxWord then
    some (decimalValue text)
  else
    none

def readSignedWord : List Char → Option Nat
  | '+' :: digits => readWord digits
  | digits => readWord digits

theorem readWord_eq_some_iff {text : List Char} {n : Nat} :
    readWord text = some n ↔
      text ≠ [] ∧ (∀ c ∈ text, c.isDigit = true) ∧ decimalValue text = n ∧ n ≤ maxWord := by
  unfold readWord
  split
  next h =>
    obtain ⟨hne, hall, hle⟩ := h
    rw [List.all_eq_true] at hall
    constructor
    · rintro hn
      obtain rfl := Option.some.inj hn
      exact ⟨hne, hall, rfl, hle⟩
    · rintro ⟨-, -, rfl, -⟩
      rfl
  next h =>
    refine ⟨fun hn => (Option.some_ne_none n hn.symm).elim, ?_⟩
    rintro ⟨hne, hall, rfl, hle⟩
    exact (h ⟨hne, List.all_eq_true.2 hall, hle⟩).elim

end TapeMachine.Text
