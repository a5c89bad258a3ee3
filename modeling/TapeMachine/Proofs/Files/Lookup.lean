import TapeMachine.Files.Folder
/-!
# Entries found by their paths

What stands in a folder is found by the path of the folder and its name, unless that path is too
long or the folder may not be searched (`Disk.find_join`).
-/
namespace TapeMachine

namespace Path

variable {folder name : Path}

theorem join_ne_nil (folder name : Path) : join folder name ≠ [] := by
  rw [join]
  split
  next hlast =>
    refine List.append_ne_nil_of_left_ne_nil ?_ name
    rintro rfl
    cases hlast
  next => exact List.append_ne_nil_of_right_ne_nil folder (List.cons_ne_nil _ _)

theorem join_assoc (start name : Path) (h : folder ≠ []) :
    join start (join folder name) = join (join start folder) name := by
  have hlast : ∀ front : Path, (front ++ folder).getLast? = folder.getLast? := by
    intro front
    rw [List.getLast?_append, List.getLast?_eq_some_getLast h, Option.some_or]
  have hslash : ∀ front : Path, (front ++ slash :: folder).getLast? = folder.getLast? := by
    intro front
    rw [← List.singleton_append, ← List.append_assoc, hlast]
  by_cases hstart : start.getLast? = some slash <;>
    by_cases hfolder : folder.getLast? = some slash <;>
      simp [join, hstart, hfolder, hlast, hslash]

theorem steps_join (folder : Path) (h : slash ∉ name) : ∃ front,
    steps (join folder name) = front ++ [name] ∧
    (steps folder = front ∨ steps folder = front ++ [[]]) := by
  by_cases hlast : folder.getLast? = some slash
  · obtain ⟨front, rfl⟩ := List.getLast?_eq_some_iff.mp hlast
    refine ⟨steps front, ?_, .inr ?_⟩
    · rw [join, if_pos hlast, List.append_assoc, List.singleton_append, steps,
        Text.pieces_append, Text.pieces_of_not_mem h, steps]
    · rw [steps, Text.pieces_append, steps, Text.pieces]
  · refine ⟨steps folder, ?_, .inl rfl⟩
    rw [join, if_neg hlast, steps, Text.pieces_append, Text.pieces_of_not_mem h, steps]

theorem join_injective (folder : Path) {s t : Path} (h : join folder s = join folder t) : s = t := by
  rw [join, join] at h
  split at h
  · exact List.append_cancel_left h
  · exact (List.cons.inj (List.append_cancel_left h)).2

end Path

namespace EntryName

variable (name : EntryName)

theorem facts : Path.staysPut name.bytes = false ∧ Path.goesUp name.bytes = false ∧
    Path.slash ∉ name.bytes ∧ 0 ∉ name.bytes ∧ name.bytes.length ≤ Path.maxName := by
  have hvalid := name.valid
  simp only [Path.isEntryName, Bool.and_eq_true, Bool.not_eq_true', decide_eq_true_eq,
    List.contains_eq_mem, decide_eq_false_iff_not] at hvalid
  obtain ⟨⟨⟨⟨hstays, hup⟩, hslash⟩, hnul⟩, hsize⟩ := hvalid
  exact ⟨hstays, hup, hslash, hnul, hsize⟩

theorem zero_not_mem_join {folder : Path} (h : 0 ∉ folder) : 0 ∉ folder.join name.bytes := by
  have hname : 0 ∉ name.bytes := name.facts.2.2.2.1
  rw [Path.join]
  split <;> simp [h, hname, Path.slash]

theorem ne_nil : name.bytes ≠ [] := by
  intro hname
  have hstays := name.facts.1
  rw [hname] at hstays
  cases hstays

end EntryName

namespace Entry

theorem follow_concat {step : Path} {last : Entry → Found}
    (h : ∀ here above, follow [step] here above = last here) (steps : List Path)
    (here : Entry) (above : List Entry) :
    follow (steps ++ [step]) here above = (follow steps here above).bind last := by
  induction steps generalizing here above with
  | nil => exact h here above
  | cons first steps ih =>
    rw [List.cons_append, follow, follow]
    split
    · split
      · exact ih here above
      · rfl
    · cases here.searched with
      | error e => rfl
      | ok entries =>
        by_cases hstays : Path.staysPut first = true
        · simp only [hstays, if_true, ih]
        · by_cases hup : Path.goesUp first = true
          · simp only [hstays, hup, if_true, if_false, Bool.false_eq_true, ih]
          · simp only [hstays, hup, if_false, Bool.false_eq_true]
            cases child entries first with
            | error e => rfl
            | ok entry => exact ih entry (here :: above)

theorem follow_stay (here : Entry) (above : List Entry) :
    follow [[]] here above = if here.isFolder then .ok here else .error .notFolder := by
  rw [follow, if_pos rfl]
  rfl

theorem follow_join {root entry : Entry} {folder : Path} (name : EntryName)
    (h : follow (Path.steps folder) root [] = .ok entry) :
    follow (Path.steps (folder.join name.bytes)) root [] =
      entry.searched.bind (child · name.bytes) := by
  obtain ⟨hstays, hup, hslash, -⟩ := name.facts
  have hstep : ∀ here above, follow [name.bytes] here above =
      here.searched.bind (child · name.bytes) := by
    intro here above
    rw [follow, if_neg name.ne_nil]
    cases here.searched with
    | error e => rfl
    | ok entries =>
      simp only [hstays, hup, if_false, Bool.false_eq_true, Except.bind]
      cases child entries name.bytes <;> rfl
  obtain ⟨front, hjoin, hfront | hfront⟩ := Path.steps_join folder hslash
  · rw [hjoin, follow_concat hstep, ← hfront, h]
    rfl
  · rw [hfront, follow_concat follow_stay] at h
    rw [hjoin, follow_concat hstep]
    cases hreached : follow front root [] with
    | error e =>
      rw [hreached] at h
      cases h
    | ok reached =>
      rw [hreached] at h
      change (if reached.isFolder then Except.ok reached else _) = _ at h
      split at h
      · cases h
        rfl
      · cases h

end Entry

namespace Disk

variable {disk : Disk} {path folder : Path}

/-- A path with its beginning, in steps from the topmost folder. -/
def stepsOf (disk : Disk) (path : Path) : List Path :=
  Path.steps (if Path.isAbsolute path then path else Path.join disk.start path)

theorem find_of_valid (hnamed : path ≠ []) (hnul : 0 ∉ path)
    (hsize : path.length ≤ Path.maxLength) :
    disk.find path = Entry.follow (disk.stepsOf path) disk.root [] := by
  rw [find, if_neg hnamed, if_neg hnul, if_neg (Nat.not_lt.mpr hsize), stepsOf]

theorem find_eq_ok {entry : Entry} (h : disk.find path = .ok entry) :
    path ≠ [] ∧ 0 ∉ path ∧ Entry.follow (disk.stepsOf path) disk.root [] = .ok entry := by
  by_cases hnamed : path = []
  · simp [find, hnamed] at h
  · by_cases hnul : 0 ∈ path
    · simp [find, hnamed, hnul] at h
    · by_cases hsize : Path.maxLength < path.length
      · simp [find, hnamed, hnul, hsize] at h
      · exact ⟨hnamed, hnul, (find_of_valid hnamed hnul (Nat.not_lt.mp hsize)).symm.trans h⟩

/-- The path of an entry of a folder leads to that entry, if the folder may be searched. -/
theorem find_join {entry : Entry} (name : EntryName)
    (hsize : (folder.join name.bytes).length ≤ Path.maxLength)
    (h : disk.find folder = .ok entry) :
    disk.find (folder.join name.bytes) = entry.searched.bind (Entry.child · name.bytes) := by
  obtain ⟨hnamed, hnul, hfolder⟩ := find_eq_ok h
  have habsolute : Path.isAbsolute (folder.join name.bytes) = Path.isAbsolute folder := by
    obtain ⟨c, rest, rfl⟩ := List.exists_cons_of_ne_nil hnamed
    rw [Path.join]
    split <;> rfl
  rw [find_of_valid (Path.join_ne_nil folder name.bytes) (name.zero_not_mem_join hnul) hsize,
    stepsOf, habsolute]
  rw [stepsOf] at hfolder
  by_cases hroot : Path.isAbsolute folder = true
  · rw [if_pos hroot] at hfolder ⊢
    exact Entry.follow_join name hfolder
  · rw [if_neg hroot] at hfolder ⊢
    rw [Path.join_assoc _ _ hnamed]
    exact Entry.follow_join name hfolder

theorem find_slash {here : Entry} (h : disk.find path = .ok here) (hfolder : here.isFolder = true)
    (hsize : path.length + 1 ≤ Path.maxLength) :
    disk.find (path ++ [Path.slash]) = .ok here := by
  obtain ⟨hnamed, hnul, hhere⟩ := find_eq_ok h
  have hfree : 0 ∉ path ++ [Path.slash] := by simp [hnul, Path.slash]
  have hlength : (path ++ [Path.slash]).length ≤ Path.maxLength := by
    rwa [List.length_append]
  have habsolute : Path.isAbsolute (path ++ [Path.slash]) = Path.isAbsolute path := by
    obtain ⟨c, rest, rfl⟩ := List.exists_cons_of_ne_nil hnamed
    rfl
  have hjoin : Path.join disk.start (path ++ [Path.slash]) =
      Path.join disk.start path ++ [Path.slash] := by
    rw [Path.join, Path.join]
    split <;> simp
  have hsteps : disk.stepsOf (path ++ [Path.slash]) = disk.stepsOf path ++ [[]] := by
    rw [stepsOf, habsolute, hjoin, stepsOf]
    split <;> exact Text.pieces_append Path.slash _ []
  rw [find_of_valid (List.append_ne_nil_of_left_ne_nil hnamed _) hfree hlength, hsteps,
    Entry.follow_concat Entry.follow_stay, hhere]
  exact if_pos hfolder

theorem find_slashes {here : Entry} (h : disk.find path = .ok here)
    (hfolder : here.isFolder = true) (n : Nat) (hsize : path.length + n ≤ Path.maxLength) :
    disk.find (path ++ List.replicate n Path.slash) = .ok here := by
  induction n with
  | zero => rwa [List.replicate_zero, List.append_nil]
  | succ n ih =>
    rw [List.replicate_succ', ← List.append_assoc]
    refine find_slash (ih (by omega)) hfolder ?_
    rw [List.length_append, List.length_replicate]
    omega

theorem find_join_of_too_long {entry : Entry} (name : EntryName)
    (hsize : Path.maxLength < (folder.join name.bytes).length)
    (h : disk.find folder = .ok entry) :
    disk.find (folder.join name.bytes) = .error .nameTooLong := by
  have hnul := name.zero_not_mem_join (find_eq_ok h).2.1
  rw [find, if_neg (Path.join_ne_nil folder name.bytes), if_neg hnul, if_pos hsize]

end Disk

/-- The path of an entry is short enough, and the folder of the entry may be searched. -/
structure Reachable (folder : Path) (barrier : Option AccessError) (name : EntryName) : Prop where
  short : (folder.join name.bytes).length ≤ Path.maxLength
  searchable : barrier = none

section
variable {disk : Disk} {folder : Path} {entries : List (EntryName × Entry)}
  {barrier : Option AccessError} {listing : Except AccessError (List (Except AccessError EntryName))}

/-- The path of an entry tells that a folder is one, unless the path does not reach it. -/
theorem isFolder_find_join (name : EntryName)
    (hfolder : disk.find folder = .ok (.folder entries barrier listing)) :
    (disk.find (folder.join name.bytes)).isFolder = true ↔
      Reachable folder barrier name ∧
        ∃ inner, Entry.named? entries name.bytes = some inner ∧ inner.isFolder = true := by
  by_cases hsize : (folder.join name.bytes).length ≤ Path.maxLength
  · rw [Disk.find_join name hsize hfolder]
    cases barrier with
    | some e =>
      simp only [Entry.searched, Except.bind]
      exact ⟨fun h => Bool.noConfusion h, fun h => nomatch h.1.searchable⟩
    | none =>
      have hshort : ¬ Path.maxName < name.bytes.length := Nat.not_lt.mpr name.facts.2.2.2.2
      simp only [Entry.searched, Except.bind, Entry.child, if_neg hshort]
      cases Entry.named? entries name.bytes with
      | none => simp [Found.isFolder]
      | some inner =>
        cases inner <;> simp [Found.isFolder, Entry.isFolder, Reachable.mk hsize]
  · rw [Disk.find_join_of_too_long name (Nat.not_le.mp hsize) hfolder]
    exact ⟨fun h => Bool.noConfusion h, fun h => absurd h.1.short hsize⟩

end

end TapeMachine
