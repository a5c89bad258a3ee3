import TapeMachine.Proofs.Language.Bare
/-!
# The items of a source

A source is divided by its text alone: into items, which are directives and names of blocks, stray
characters, the ends of blocks, layout and comments. An item runs from the character that opens it
to the first one that ends it, or to the end of the source (`mem_sourceItems`).
-/
namespace TapeMachine

/-- A part of a source, and what stands in front of it. -/
structure Passage where
  front : List Char
  text : List Char
  deriving DecidableEq

/-- Whether a character has no meaning in a block, when so many blocks are open. -/
def isStray (blocks : Nat) (c : Char) : Bool :=
  !Scan.isLayout c && Scope.opened? c == none && (c != '\x7d' || blocks == 0)

namespace Scope

def depth (scope : Scope) (blocks : Nat) (c : Char) : Nat :=
  if scope = blockName ∧ c = '\x7b' then blocks + 1
  else if scope ≠ comment ∧ c = '\x7d' then blocks - 1
  else blocks

/-- The rest of the item that is read in a scope, with the character that ends it. -/
def remainder (scope : Scope) : List Char → List Char
  | [] => []
  | c :: rest => if scope.collects then c :: remainder (scope.next c) rest else []

/-- The items that begin in a text, which is read in a scope. -/
def items (scope : Scope) (front : List Char) : List Char → List Passage
  | [] => []
  | c :: rest =>
    let later := items (scope.next c) (front ++ [c]) rest
    if scope = block ∧ (scope.next c).collects then
      ⟨front, c :: (scope.next c).remainder rest⟩ :: later
    else later

/-- The stray characters of a text, which is read in a scope. -/
def strays (scope : Scope) (blocks : Nat) : List Char → List Char
  | [] => []
  | c :: rest =>
    let later := strays (scope.next c) (scope.depth blocks c) rest
    if scope = block ∧ isStray blocks c then c :: later else later

/-- How many blocks are open after a text, which is read in a scope. -/
def openBlocks (scope : Scope) (blocks : Nat) : List Char → Nat
  | [] => blocks
  | c :: rest => openBlocks (scope.next c) (scope.depth blocks c) rest

def atEnd (source : List Char) : Scope := source.foldl next block

variable {scope : Scope} {c : Char}

theorem opened?_ne_block (h : opened? c = some scope) : scope ≠ block := by
  rintro rfl
  unfold opened? at h
  split at h <;> cases h

theorem block_of_next (hscope : scope.collects = false) (hnext : (scope.next c).collects = true) :
    scope = block := by
  cases scope with
  | block => rfl
  | comment =>
    rw [next] at hnext
    split at hnext <;> cases hnext
  | blockName => cases hscope
  | directive d => cases hscope

theorem opened?_of_next (h : (block.next c).collects = true) :
    opened? c = some (block.next c) := by
  rw [next] at h ⊢
  cases hc : opened? c with
  | some scope => rfl
  | none =>
    rw [hc] at h
    cases h

theorem next_of_opened? (h : opened? c = some scope) : block.next c = scope := by
  rw [next, h]
  rfl

theorem remainder_of_not_collects (h : scope.collects = false) (text : List Char) :
    scope.remainder text = [] := by
  cases text with
  | nil => rfl
  | cons c rest => simp [remainder, h]

theorem remainder_cons (h : scope.collects = true) (c : Char) (rest : List Char) :
    scope.remainder (c :: rest) =
      if scope.ends c then [c] else c :: scope.remainder rest := by
  rw [remainder, if_pos h, Scan.next_of_collects h]
  split
  · rw [remainder_of_not_collects rfl]
  · rfl

theorem remainder_eq_of_ends (h : scope.collects = true) {body : List Char}
    (hbody : ∀ x ∈ body, scope.ends x = false) (hlast : scope.ends c = true) (back : List Char) :
    scope.remainder (body ++ c :: back) = body ++ [c] := by
  induction body with
  | nil => rw [List.nil_append, remainder_cons h, if_pos hlast]; rfl
  | cons x body ih =>
    have hx : ¬scope.ends x = true := Bool.eq_false_iff.mp (hbody x List.mem_cons_self)
    rw [List.cons_append, remainder_cons h, if_neg hx,
      ih fun y hy => hbody y (List.mem_cons_of_mem x hy), List.cons_append]

theorem remainder_eq_self (h : scope.collects = true) {body : List Char}
    (hbody : ∀ x ∈ body, scope.ends x = false) : scope.remainder body = body := by
  induction body with
  | nil => rfl
  | cons x body ih =>
    have hx : ¬scope.ends x = true := Bool.eq_false_iff.mp (hbody x List.mem_cons_self)
    rw [remainder_cons h, if_neg hx, ih fun y hy => hbody y (List.mem_cons_of_mem x hy)]

theorem exists_ends (scope : Scope) (text : List Char) :
    (∃ body c back, text = body ++ c :: back ∧ (∀ x ∈ body, scope.ends x = false) ∧
      scope.ends c = true) ∨ ∀ x ∈ text, scope.ends x = false := by
  induction text with
  | nil => exact .inr fun x hx => absurd hx List.not_mem_nil
  | cons x text ih =>
    cases hx : scope.ends x with
    | true => exact .inl ⟨[], x, text, rfl, fun y hy => absurd hy List.not_mem_nil, hx⟩
    | false =>
      have hcons : ∀ {body}, (∀ y ∈ body, scope.ends y = false) →
          ∀ y ∈ x :: body, scope.ends y = false :=
        fun hbody => List.forall_mem_cons.mpr ⟨hx, hbody⟩
      rcases ih with ⟨body, c, back, rfl, hbody, hc⟩ | hall
      · exact .inl ⟨x :: body, c, back, rfl, hcons hbody, hc⟩
      · exact .inr (hcons hall)

theorem mem_items {front text : List Char} {p : Passage} :
    p ∈ scope.items front text ↔ ∃ before opener rest, text = before ++ opener :: rest ∧
      before.foldl next scope = block ∧ (block.next opener).collects = true ∧
      p = ⟨front ++ before, opener :: (block.next opener).remainder rest⟩ := by
  induction text generalizing scope front with
  | nil => simp [items]
  | cons c text ih =>
    have hlater : p ∈ (scope.next c).items (front ++ [c]) text ↔
        ∃ before opener rest, c :: text = (c :: before) ++ opener :: rest ∧
          (c :: before).foldl next scope = block ∧ (block.next opener).collects = true ∧
          p = ⟨front ++ c :: before, opener :: (block.next opener).remainder rest⟩ := by
      simp [ih]
    constructor
    · intro hp
      rw [items] at hp
      split at hp
      next hbegins =>
        obtain ⟨rfl, hcollects⟩ := hbegins
        rcases List.mem_cons.mp hp with rfl | hp
        · exact ⟨[], c, text, rfl, rfl, hcollects, by rw [List.append_nil]⟩
        · obtain ⟨before, h⟩ := hlater.mp hp
          exact ⟨c :: before, h⟩
      next =>
        obtain ⟨before, h⟩ := hlater.mp hp
        exact ⟨c :: before, h⟩
    · rintro ⟨before, opener, rest, htext, hblock, hcollects, hp⟩
      rw [items]
      cases before with
      | nil =>
        obtain ⟨rfl, rfl⟩ := List.cons.inj htext
        have hscope : scope = block := hblock
        subst hscope
        rw [if_pos ⟨rfl, hcollects⟩, hp, List.append_nil]
        exact List.mem_cons_self
      | cons x before =>
        obtain rfl : c = x := (List.cons.inj htext).1
        have hmem := hlater.mpr ⟨before, opener, rest, htext, hblock, hcollects, hp⟩
        split
        · exact List.mem_cons_of_mem _ hmem
        · exact hmem

theorem nodup_items (scope : Scope) (front text : List Char) : (scope.items front text).Nodup := by
  induction text generalizing scope front with
  | nil => exact List.nodup_nil
  | cons c text ih =>
    rw [items]
    split
    · refine List.nodup_cons.mpr ⟨?_, ih _ _⟩
      intro hmem
      obtain ⟨before, opener, rest, -, -, -, heq⟩ := mem_items.mp hmem
      simp at heq
    · exact ih _ _

end Scope

def sourceItems (source : List Char) : List Passage := Scope.block.items [] source

def sourceStrays (source : List Char) : List Char := Scope.block.strays 0 source

def sourceOpenBlocks (source : List Char) : Nat := Scope.block.openBlocks 0 source

/-- What an item of a source is: it begins in a block, and a character ends it or none does. -/
inductive Passage.IsItem : List Char → Passage → Prop
  | ended {front body back : List Char} {opener last : Char} {scope : Scope}
      (hblock : Scope.atEnd front = .block) (hopener : Scope.opened? opener = some scope)
      (hcollects : scope.collects = true) (hbody : ∀ c ∈ body, scope.ends c = false)
      (hlast : scope.ends last = true) :
      IsItem (front ++ opener :: (body ++ last :: back)) ⟨front, opener :: (body ++ [last])⟩
  | unfinished {front body : List Char} {opener : Char} {scope : Scope}
      (hblock : Scope.atEnd front = .block) (hopener : Scope.opened? opener = some scope)
      (hcollects : scope.collects = true) (hbody : ∀ c ∈ body, scope.ends c = false) :
      IsItem (front ++ opener :: body) ⟨front, opener :: body⟩

theorem mem_sourceItems {source : List Char} {p : Passage} :
    p ∈ sourceItems source ↔ p.IsItem source := by
  rw [sourceItems, Scope.mem_items]
  constructor
  · rintro ⟨front, opener, rest, rfl, hblock, hcollects, rfl⟩
    have hopener := Scope.opened?_of_next hcollects
    rcases Scope.exists_ends (Scope.block.next opener) rest with
      ⟨body, last, back, rfl, hbody, hlast⟩ | hbody
    · rw [Scope.remainder_eq_of_ends hcollects hbody hlast]
      exact .ended hblock hopener hcollects hbody hlast
    · rw [Scope.remainder_eq_self hcollects hbody]
      exact .unfinished hblock hopener hcollects hbody
  · rintro (@⟨front, body, back, opener, last, scope, hblock, hopener, hcollects, hbody, hlast⟩ |
      @⟨front, body, opener, scope, hblock, hopener, hcollects, hbody⟩)
    · rw [← Scope.next_of_opened? hopener] at hcollects hbody hlast
      refine ⟨front, opener, _, rfl, hblock, hcollects, ?_⟩
      rw [Scope.remainder_eq_of_ends hcollects hbody hlast]
      rfl
    · rw [← Scope.next_of_opened? hopener] at hcollects hbody
      refine ⟨front, opener, _, rfl, hblock, hcollects, ?_⟩
      rw [Scope.remainder_eq_self hcollects hbody]
      rfl

theorem Passage.IsItem.within {source : List Char} {p : Passage} (h : p.IsItem source) :
    p.front ++ p.text <+: source := by
  cases h with
  | @ended front body back => exact ⟨back, by simp⟩
  | unfinished => exact List.prefix_rfl

theorem nodup_sourceItems (source : List Char) : (sourceItems source).Nodup :=
  Scope.nodup_items .block [] source

theorem Scope.exists_item_of_foldl {scope : Scope} (front text : List Char)
    (h : (text.foldl next scope).collects = true) :
    scope.collects = true ∧ scope.remainder text = text ∨
      ∃ p ∈ scope.items front text, p.front ++ p.text = front ++ text := by
  -- The text ends within the item that it is read in, or within one that begins in it.
  induction text generalizing scope front with
  | nil => exact .inl ⟨h, rfl⟩
  | cons c rest ih =>
    rcases ih (front ++ [c]) h with ⟨hcollects, hrest⟩ | ⟨p, hp, hwhole⟩
    · cases hscope : scope.collects with
      | true => exact .inl ⟨rfl, by rw [remainder, if_pos hscope, hrest]⟩
      | false =>
        obtain rfl := block_of_next hscope hcollects
        refine .inr ⟨⟨front, c :: (block.next c).remainder rest⟩, ?_, by rw [hrest]⟩
        rw [items, if_pos ⟨rfl, hcollects⟩]
        exact List.mem_cons_self
    · refine .inr ⟨p, ?_, by simpa using hwhole⟩
      rw [items]
      split
      · exact List.mem_cons_of_mem _ hp
      · exact hp

theorem exists_item_of_atEnd {source : List Char} (h : (Scope.atEnd source).collects = true) :
    ∃ p ∈ sourceItems source, p.front ++ p.text = source := by
  rcases Scope.exists_item_of_foldl [] source h with ⟨hblock, -⟩ | hitem
  · cases hblock
  · exact hitem

end TapeMachine
