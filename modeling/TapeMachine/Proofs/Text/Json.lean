import Mathlib.Logic.Function.Basic
import Mathlib.Tactic.IntervalCases
import TapeMachine.Text.Json
/-!
# JSON texts tell values apart

JSON prescribes how the characters inside a text are read (`Json.read?`), and all that is needed of
an escaping is that its characters are read again. The text of a value then says where it ends, so
whatever follows it the value can be read off (`Json.compact_append`). Only a number ends where its
digits do, and is followed by something else.
-/
namespace TapeMachine

namespace Json

/-- The value of a hexadecimal digit. -/
def hexDigit? (c : Char) : Option Nat :=
  if '0' ≤ c ∧ c ≤ '9' then some (c.toNat - '0'.toNat)
  else if 'a' ≤ c ∧ c ≤ 'f' then some (c.toNat - 'a'.toNat + 10)
  else if 'A' ≤ c ∧ c ≤ 'F' then some (c.toNat - 'A'.toNat + 10)
  else none

/-- The number that four hexadecimal digits stand for, and what follows them. -/
def codeUnit? : List Char → Option (Nat × List Char)
  | a :: b :: c :: d :: rest => do
    let digits := [← hexDigit? a, ← hexDigit? b, ← hexDigit? c, ← hexDigit? d]
    return (digits.foldl (fun n digit => 16 * n + digit) 0, rest)
  | _ => none

/-- The character with a code unit; if that is the first half of a pair, the other half follows. -/
def paired? (unit : Nat) (rest : List Char) : Option (Char × List Char) :=
  if unit < 0xd800 ∨ 0xdfff < unit then some (Char.ofNat unit, rest)
  else
    match rest with
    | '\\' :: 'u' :: rest => do
      let (low, rest) ← codeUnit? rest
      if unit ≤ 0xdbff ∧ 0xdc00 ≤ low ∧ low ≤ 0xdfff then
        return (Char.ofNat (0x10000 + 0x400 * (unit - 0xd800) + (low - 0xdc00)), rest)
      else none
    | _ => none

def shortEscapes : List (Char × Char) :=
  [('"', '"'), ('\\', '\\'), ('/', '/'), ('b', '\x08'), ('f', '\x0c'), ('n', '\n'),
    ('r', '\r'), ('t', '\t')]

/-- The first character inside a text as JSON prescribes it, and what follows it. -/
def read? : List Char → Option (Char × List Char)
  | '\\' :: 'u' :: rest => (codeUnit? rest).bind fun (unit, rest) => paired? unit rest
  | '\\' :: c :: rest => (shortEscapes.lookup c).map fun meant => (meant, rest)
  | c :: rest => if c = '"' ∨ c = '\\' ∨ c.toNat < 0x20 then none else some (c, rest)
  | [] => none

/-- Every character is written so that it is read again, whatever follows it. -/
def Escaping.Readable [Escaping] : Prop :=
  ∀ c rest, read? (Escaping.escape c ++ rest) = some (c, rest)

/-- An escaping of two characters where there is one, and of a number for the other controls. -/
def sparing (c : Char) : List Char :=
  if c = '"' ∨ c = '\\' then ['\\', c]
  else if c = '\x08' then ['\\', 'b']
  else if c = '\t' then ['\\', 't']
  else if c = '\n' then ['\\', 'n']
  else if c = '\x0c' then ['\\', 'f']
  else if c = '\r' then ['\\', 'r']
  else if c.toNat < 0x20 then
    ['\\', 'u', '0', '0', Nat.digitChar (c.toNat / 16), Nat.digitChar (c.toNat % 16)]
  else [c]

theorem read?_cons {c : Char} (hspecial : ¬(c = '"' ∨ c = '\\')) (hcontrol : ¬c.toNat < 0x20)
    (rest : List Char) : read? (c :: rest) = some (c, rest) := by
  have hplain : ¬(c = '"' ∨ c = '\\' ∨ c.toNat < 0x20) := by
    rintro (h | h | h)
    · exact hspecial (.inl h)
    · exact hspecial (.inr h)
    · exact hcontrol h
  rw [read?, if_neg hplain]
  · rintro _ rfl
    exact absurd (.inr rfl) hspecial
  · rintro _ _ rfl
    exact absurd (.inr rfl) hspecial

theorem readable_sparing : @Escaping.Readable ⟨sparing⟩ := by
  intro c rest
  change read? (sparing c ++ rest) = some (c, rest)
  by_cases hcontrol : c.toNat < 0x20
  · have hall : ∀ n < 0x20, read? (sparing (Char.ofNat n) ++ rest) = some (Char.ofNat n, rest) := by
      intro n hn
      interval_cases n <;> rfl
    rw [← Char.ofNat_toNat c]
    exact hall c.toNat hcontrol
  · have hne : ∀ x : Char, x.toNat < 0x20 → c ≠ x := fun x hx hc => hcontrol (hc ▸ hx)
    by_cases hspecial : c = '"' ∨ c = '\\'
    · rcases hspecial with rfl | rfl <;> rfl
    · rw [sparing, if_neg hspecial, if_neg (hne _ (by decide)), if_neg (hne _ (by decide)),
        if_neg (hne _ (by decide)), if_neg (hne _ (by decide)), if_neg (hne _ (by decide)),
        if_neg hcontrol]
      exact read?_cons hspecial hcontrol rest

section
variable [Escaping] (hescape : Escaping.Readable)
include hescape

theorem escape_append {a b : Char} {s t : List Char}
    (h : Escaping.escape a ++ s = Escaping.escape b ++ t) : a = b ∧ s = t := by
  have hread := congrArg read? h
  rw [hescape a s, hescape b t] at hread
  exact Prod.mk.inj (Option.some.inj hread)

theorem content_append {a b s t : List Char}
    (h : a.flatMap Escaping.escape ++ '"' :: s = b.flatMap Escaping.escape ++ '"' :: t) :
    a = b ∧ s = t := by
  -- a quote ends a text, so that no character is read there
  have hopen : ∀ (c : Char) (rest u v : List Char),
      '"' :: u ≠ (c :: rest).flatMap Escaping.escape ++ v := by
    intro c rest u v heq
    have hread := congrArg read? heq
    rw [List.flatMap_cons, List.append_assoc, hescape c] at hread
    cases hread
  induction a generalizing b with
  | nil =>
    cases b with
    | nil => exact ⟨rfl, (List.cons.inj h).2⟩
    | cons d b => exact absurd h (hopen d b s _)
  | cons c a ih =>
    cases b with
    | nil => exact absurd h.symm (hopen c a t _)
    | cons d b =>
      simp only [List.flatMap_cons, List.append_assoc] at h
      obtain ⟨rfl, hrest⟩ := escape_append hescape h
      obtain ⟨rfl, hst⟩ := ih hrest
      exact ⟨rfl, hst⟩

theorem literal_append {a b s t : List Char} (h : literal a ++ s = literal b ++ t) :
    a = b ∧ s = t := by
  simp only [literal, List.cons_append, List.append_assoc, List.nil_append, List.cons.injEq,
    true_and] at h
  exact content_append hescape h

end

/-- What follows an entry: nothing, or a comma and the other entries. -/
def sequel {α : Type} (text : List α → List Char) (rest : List α) : List Char :=
  if rest.isEmpty then [] else ',' :: text rest

section
variable {α : Type} {write : List α → List Char} {rest : List α} {close : Char} {s t : List Char}

theorem head_sequel (hclose : close.isDigit = false) :
    ∀ c ∈ (sequel write rest ++ close :: s).head?, c.isDigit = false := by
  cases rest with
  | nil => simpa [sequel] using hclose
  | cons a rest => simp [sequel]

theorem sequel_append {others : List α} (hnil : write [] = []) (hclose : close ≠ ',')
    (h : sequel write rest ++ close :: s = sequel write others ++ close :: t) :
    write rest ++ close :: s = write others ++ close :: t := by
  cases rest <;> cases others <;> simp_all [sequel, eq_comm]

end

variable [Escaping]

def Opens : Json → Char → Prop
  | number _, c => c.isDigit = true
  | text _, c => c = '"'
  | list _, c => c = '['
  | record _, c => c = '\x7b'

theorem compact_eq_cons (a : Json) : ∃ c rest, a.compact = c :: rest ∧ a.Opens c := by
  cases a with
  | number n =>
    cases hdigits : Text.decimal n with
    | nil => exact absurd hdigits Nat.toDigits_ne_nil
    | cons c rest =>
      have hc : c ∈ Text.decimal n := by
        rw [hdigits]
        exact List.mem_cons_self
      exact ⟨c, rest, by rw [compact, hdigits], Text.isDigit_of_mem_decimal hc⟩
  | text content => exact ⟨'"', _, by rw [compact, literal]; rfl, rfl⟩
  | list items => exact ⟨'[', _, by rw [compact]; rfl, rfl⟩
  | record fields => exact ⟨'\x7b', _, by rw [compact]; rfl, rfl⟩

theorem opens_of_append {a b : Json} {s t : List Char}
    (h : a.compact ++ s = b.compact ++ t) : ∃ c, a.Opens c ∧ b.Opens c := by
  obtain ⟨c, front, hc, ha⟩ := a.compact_eq_cons
  obtain ⟨d, back, hd, hb⟩ := b.compact_eq_cons
  rw [hc, hd] at h
  exact ⟨c, ha, (List.cons.inj h).1 ▸ hb⟩

theorem compactItems_cons (item : Json) (rest : List Json) :
    compactItems (item :: rest) = item.compact ++ sequel compactItems rest := by
  cases rest with
  | nil => simp [compactItems, sequel]
  | cons next rest => simp [compactItems, sequel]

theorem compactFields_cons (key : List Char) (value : Json) (rest : List (List Char × Json)) :
    compactFields ((key, value) :: rest) =
      literal key ++ ':' :: value.compact ++ sequel compactFields rest := by
  cases rest with
  | nil => simp [compactFields, sequel]
  | cons next rest => simp [compactFields, sequel]

theorem items_ne_close (a : Json) (rest : List Json) (s t : List Char) :
    ']' :: s ≠ compactItems (a :: rest) ++ t := by
  obtain ⟨c, back, hc, ha⟩ := a.compact_eq_cons
  intro h
  rw [compactItems_cons, hc] at h
  rw [← (List.cons.inj h).1] at ha
  cases a <;> simp [Opens] at ha

mutual
theorem compact_append (hescape : Escaping.Readable) :
    ∀ (a b : Json) {s t : List Char},
    (∀ c ∈ s.head?, c.isDigit = false) → (∀ c ∈ t.head?, c.isDigit = false) →
    a.compact ++ s = b.compact ++ t → a = b ∧ s = t
  | number m, b, s, t, hs, ht, h => by
    have hopens := opens_of_append h
    cases b with
    | number n =>
      rw [compact, compact] at h
      obtain ⟨rfl, hst⟩ := Text.decimal_append h hs ht
      exact ⟨rfl, hst⟩
    | _ => simp [Opens] at hopens
  | text content, b, s, t, _, _, h => by
    have hopens := opens_of_append h
    cases b with
    | text other =>
      rw [compact, compact] at h
      obtain ⟨rfl, hst⟩ := literal_append hescape h
      exact ⟨rfl, hst⟩
    | _ => simp [Opens] at hopens
  | list items, b, s, t, _, _, h => by
    have hopens := opens_of_append h
    cases b with
    | list others =>
      simp only [compact, List.cons_append, List.append_assoc, List.cons.injEq, true_and] at h
      obtain ⟨rfl, hst⟩ := items_append hescape items others h
      exact ⟨rfl, hst⟩
    | _ => simp [Opens] at hopens
  | record fields, b, s, t, _, _, h => by
    have hopens := opens_of_append h
    cases b with
    | record others =>
      simp only [compact, List.cons_append, List.append_assoc, List.cons.injEq, true_and] at h
      obtain ⟨rfl, hst⟩ := fields_append hescape fields others h
      exact ⟨rfl, hst⟩
    | _ => simp [Opens] at hopens

theorem items_append (hescape : Escaping.Readable) :
    ∀ (items others : List Json) {s t : List Char},
    compactItems items ++ ']' :: s = compactItems others ++ ']' :: t → items = others ∧ s = t
  | [], [], _, _, h => by
    simpa [compactItems] using h
  | [], b :: others, s, _, h => absurd h (items_ne_close b others s _)
  | a :: items, [], _, t, h => absurd h.symm (items_ne_close a items t _)
  | a :: items, b :: others, s, t, h => by
    rw [compactItems_cons, compactItems_cons, List.append_assoc, List.append_assoc] at h
    obtain ⟨rfl, hrest⟩ := compact_append hescape a b (head_sequel rfl) (head_sequel rfl) h
    obtain ⟨rfl, hst⟩ := items_append hescape items others
      (sequel_append (by rw [compactItems]) (by decide) hrest)
    exact ⟨rfl, hst⟩

theorem fields_append (hescape : Escaping.Readable) :
    ∀ (fields others : List (List Char × Json)) {s t : List Char},
    compactFields fields ++ '\x7d' :: s = compactFields others ++ '\x7d' :: t →
      fields = others ∧ s = t
  | [], [], _, _, h => by
    simpa [compactFields] using h
  | [], (key, b) :: others, s, t, h => by
    simp [compactFields, compactFields_cons, literal] at h
  | (key, a) :: fields, [], s, t, h => by
    simp [compactFields, compactFields_cons, literal] at h
  | (key, a) :: fields, (key', b) :: others, s, t, h => by
    rw [compactFields_cons, compactFields_cons] at h
    simp only [List.append_assoc, List.cons_append] at h
    obtain ⟨rfl, hvalue⟩ := literal_append hescape h
    obtain ⟨rfl, hrest⟩ := compact_append hescape a b (head_sequel rfl) (head_sequel rfl)
      (List.cons.inj hvalue).2
    obtain ⟨rfl, hst⟩ := fields_append hescape fields others
      (sequel_append (by rw [compactFields]) (by decide) hrest)
    exact ⟨rfl, hst⟩
end

theorem compact_injective (hescape : Escaping.Readable) : Function.Injective compact := by
  intro a b h
  have hnone : ∀ c ∈ ([] : List Char).head?, c.isDigit = false := fun _ hc => nomatch hc
  exact (compact_append hescape a b hnone hnone (by rw [List.append_nil, List.append_nil, h])).1

end Json

end TapeMachine
