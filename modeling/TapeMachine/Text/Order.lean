/-!
# Alphabetical order

Texts are compared character by character by their code points, and a text stands before every
longer one that it begins. This is a total order.
-/
namespace TapeMachine.Text

def precedes : List Char → List Char → Bool
  | [], _ => true
  | _ :: _, [] => false
  | a :: s, b :: t => if a = b then precedes s t else a.toNat ≤ b.toNat

theorem precedes_total (s t : List Char) : precedes s t = true ∨ precedes t s = true := by
  induction s generalizing t with
  | nil => exact .inl rfl
  | cons a s ih =>
    cases t with
    | nil => exact .inr rfl
    | cons b t =>
      by_cases h : a = b
      · simpa only [precedes, h, if_true] using ih t
      · simp only [precedes, h, Ne.symm h, if_false, decide_eq_true_eq]
        exact Nat.le_total _ _

theorem precedes_trans {s t u : List Char} (hst : precedes s t = true)
    (htu : precedes t u = true) : precedes s u = true := by
  induction s generalizing t u with
  | nil => rfl
  | cons a s ih =>
    cases t with
    | nil => cases hst
    | cons b t =>
      cases u with
      | nil => cases htu
      | cons c u =>
        by_cases hab : a = b
        · subst hab
          by_cases hac : a = c
          · subst hac
            simp only [precedes, if_true] at hst htu ⊢
            exact ih hst htu
          · simpa only [precedes, hac, if_false] using htu
        · by_cases hbc : b = c
          · subst hbc
            simpa only [precedes, hab, if_false] using hst
          · simp only [precedes, hab, hbc, if_false, decide_eq_true_eq] at hst htu
            have hac : a ≠ c := by
              rintro rfl
              exact hab (Char.toNat_inj.1 (Nat.le_antisymm hst htu))
            simp only [precedes, hac, if_false, decide_eq_true_eq]
            exact Nat.le_trans hst htu

end TapeMachine.Text
