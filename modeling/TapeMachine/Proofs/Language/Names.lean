import TapeMachine.Language.Scope
/-!
# Qualified names

The name of a namespace is not empty and holds letters and digits only. So a name inside namespaces
begins with a letter or a digit, and the separator at the beginning of a field can only mean that a
whole name follows.
-/
namespace TapeMachine

namespace Name

/-- A name that a directive may give to a state of the blocks around it. -/
structure Local (name : Name) : Prop where
  named : name ≠ anonymous
  relative : name.head? ≠ some Glyph.separator
  letters : name.isStateName = true

def Proper (name : Name) : Prop := name = anonymous ∨ name.Local

structure Part (part : Name) : Prop where
  nonempty : part ≠ []
  letters : ∀ c ∈ part, Glyph.isNamespace c = true

theorem isStateName_append (front back : Name) :
    isStateName (front ++ back) = (isStateName front && isStateName back) :=
  List.all_append

theorem isStateName_separator (name : Name) :
    isStateName (Glyph.separator :: name) = isStateName name := rfl

theorem isStateName_of_part {part : Name} (h : part.Part) : part.isStateName = true := by
  rw [isStateName, List.all_eq_true]
  intro c hc
  have hletter : Text.isAlphanumeric c = true := h.letters c hc
  rw [Glyph.isState, hletter, Bool.true_or]

theorem Part.local_append {part : Name} (h : part.Part) {back : Name}
    (hback : back.isStateName = true) : Local (part ++ back) where
  named := List.append_ne_nil_of_left_ne_nil h.nonempty back
  relative := by
    cases part with
    | nil => exact absurd rfl h.nonempty
    | cons c rest =>
      have hletter : Text.isAlphanumeric c = true := h.letters c List.mem_cons_self
      intro hhead
      have hc : c = Glyph.separator := Option.some.inj hhead
      rw [hc] at hletter
      exact absurd hletter (by decide)
  letters := by rw [isStateName_append, isStateName_of_part h, hback, Bool.true_and]

theorem join_cons_cons (first second : Name) (rest : List Name) :
    join (first :: second :: rest) = first ++ Glyph.separator :: join (second :: rest) := by
  rw [join, List.intercalate_cons_cons, List.append_assoc]
  rfl

theorem join_singleton (part : Name) : join [part] = part := List.intercalate_singleton

theorem isStateName_join {parts : List Name} (h : ∀ part ∈ parts, part.isStateName = true) :
    (join parts).isStateName = true := by
  induction parts with
  | nil => rfl
  | cons first rest ih =>
    have hfirst := h first List.mem_cons_self
    have hrest := ih fun part hpart => h part (List.mem_cons_of_mem first hpart)
    cases rest with
    | nil =>
      rw [join_singleton]
      exact hfirst
    | cons second rest =>
      rw [join_cons_cons, isStateName_append, hfirst, Bool.true_and, isStateName_separator]
      exact hrest

theorem Part.local_join {part : Name} (h : part.Part) {rest : List Name}
    (hrest : ∀ name ∈ rest, name.isStateName = true) : Local (join (part :: rest)) := by
  cases rest with
  | nil =>
    rw [join_singleton, ← List.append_nil part]
    exact h.local_append rfl
  | cons second rest =>
    rw [join_cons_cons]
    apply h.local_append
    rw [isStateName_separator]
    exact isStateName_join hrest

theorem Local.qualify {path : List Name} (hpath : ∀ part ∈ path, part.Part) {name : Name}
    (h : name.Local) : Local (qualify path name) := by
  cases path with
  | nil =>
    rw [qualify_nil]
    exact h
  | cons first rest =>
    rw [Name.qualify, if_neg h.named, List.cons_append]
    apply (hpath first List.mem_cons_self).local_join
    intro part hpart
    rcases List.mem_append.mp hpart with hpart | hpart
    · exact isStateName_of_part (hpath part (List.mem_cons_of_mem first hpart))
    · rw [List.mem_singleton.mp hpart]
      exact h.letters

theorem proper_qualify_anonymous {path : List Name} (hpath : ∀ part ∈ path, part.Part) :
    Proper (qualify path anonymous) := by
  cases path with
  | nil => exact .inl (qualify_nil anonymous)
  | cons first rest =>
    rw [qualify, if_pos rfl]
    refine .inr ((hpath first List.mem_cons_self).local_join ?_)
    intro part hpart
    exact isStateName_of_part (hpath part (List.mem_cons_of_mem first hpart))

theorem part_decimal (n : Nat) : Part (Text.decimal n) where
  nonempty := Nat.toDigits_ne_nil
  letters := by
    intro c hc
    have hdigit : c.isDigit = true := Text.isDigit_of_mem_decimal hc
    apply Text.isAlphanumeric_of_isAlphanum
    rw [Char.isAlphanum, hdigit, Bool.or_true]

end Name

namespace Scopes

def Named (scopes : Scopes) : Prop :=
  ∀ frame ∈ scopes, ∀ name, frame.name = some name → name.Part

theorem Named.path {scopes : Scopes} (h : scopes.Named) : ∀ part ∈ scopes.path, part.Part := by
  induction scopes with
  | nil =>
    intro part hpart
    cases hpart
  | cons frame outer ih =>
    have houter := ih fun f hf => h f (List.mem_cons_of_mem frame hf)
    intro part hpart
    rw [Scopes.path] at hpart
    split at hpart
    · rcases List.mem_append.mp hpart with hpart | hpart
      · exact houter part hpart
      · rw [List.mem_singleton.mp hpart]
        cases hname : frame.name with
        | none => exact Name.part_decimal _
        | some name => exact h frame List.mem_cons_self name hname
    · exact houter part hpart

end Scopes

end TapeMachine
