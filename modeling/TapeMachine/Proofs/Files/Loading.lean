import TapeMachine.Files.Load
import TapeMachine.Proofs.Files.Lookup
import TapeMachine.Proofs.Language.Excerpt
/-!
# Programs of a folder

Every program file of a folder is loaded, in the order of the paths, whatever the order in which
the system lists the folder. What is said about a file follows from its path and from what stands
there, and from no other file (`folder_complete`).

Folders are not loaded, but that is decided by what their paths lead to. A folder with the name of a
program file is taken for a file that cannot be read if its path is too long
(`folder_of_long_path`) or if the folder around it may not be searched.
-/
namespace TapeMachine

namespace Path

theorem isProgramName_iff {name : Path} : isProgramName name = true ↔
    ∃ front, front ≠ [] ∧ name = front ++ [46, 116, 117, 114] := by
  have hending : dot :: programExtension = [46, 116, 117, 114] := by decide
  rw [isProgramName, Bool.and_eq_true, hending, List.isSuffixOf_iff_suffix, decide_eq_true_eq]
  constructor
  · rintro ⟨⟨front, rfl⟩, hlength⟩
    refine ⟨front, ?_, rfl⟩
    rintro rfl
    exact absurd hlength (by decide)
  · rintro ⟨front, hfront, rfl⟩
    have hpos := List.length_pos_iff.mpr hfront
    have hsize : programExtension.length = 3 := by decide
    refine ⟨List.suffix_append _ _, ?_⟩
    simp [hsize]
    omega

end Path

namespace Load

variable {disk : Disk} {folder : Path} {entries : List (EntryName × Entry)}
  {barrier : Option AccessError} {items : List (Except AccessError EntryName)}

/-- An entry that is loaded: its name ends in `.tur` after something else, and it is not a folder
that its path reaches. -/
structure Loadable (folder : Path) (entries : List (EntryName × Entry))
    (barrier : Option AccessError) (name : EntryName) : Prop where
  named : ∃ front, front ≠ [] ∧ name.bytes = front ++ [46, 116, 117, 114]
  file : ∀ inner, Entry.named? entries name.bytes = some inner → inner.isFolder = true →
    ¬ Reachable folder barrier name

/-- What is said about a file: its path with the program in it, or what is wrong with that. -/
inductive Tells [Excerpt.Printer] (path : Path) :
    Except Failure Program → Except Failure (Path × Program) → Prop
  | loaded (p : Program) : Tells path (.ok p) (.ok (path, p))
  | failed (e f : Failure) (hkind : f.kind = .file)
      (hdetail : f.detail = "Failed to load program from " ++ path.display ++ ": " ++ e.message) :
      Tells path (.error e) (.error f)

theorem tells_candidate [Excerpt.Printer] (path : Path) (found : Found) :
    Tells path (program path found) (candidate path found) := by
  rw [candidate]
  cases program path found with
  | ok p => exact .loaded p
  | error e => exact .failed e _ rfl rfl

section
variable (hfolder : disk.find folder = .ok (.folder entries barrier (.ok items)))
include hfolder

theorem loadable_iff (name : EntryName) :
    Loadable folder entries barrier name ↔ isCandidate disk folder name = true := by
  have hkind := isFolder_find_join name hfolder
  rw [isCandidate, Bool.and_eq_true, Path.isProgramName_iff, Bool.not_eq_true',
    ← Bool.not_eq_true, hkind]
  constructor
  · rintro ⟨hnamed, hfile⟩
    refine ⟨?_, hnamed⟩
    rintro ⟨hreach, inner, hinner, hinside⟩
    exact hfile inner hinner hinside hreach
  · rintro ⟨hfile, hnamed⟩
    exact ⟨hnamed, fun inner hinner hinside hreach => hfile ⟨hreach, inner, hinner, hinside⟩⟩

theorem mem_candidates {name : EntryName} : name ∈ candidates disk folder items ↔
    name ∈ listedNames items ∧ Loadable folder entries barrier name := by
  rw [candidates, List.mem_mergeSort, List.mem_filter, loadable_iff hfolder]

theorem count_candidates {name : EntryName} (h : Loadable folder entries barrier name) :
    (candidates disk folder items).count name = items.countP (·.toOption == some name) := by
  rw [candidates, (List.mergeSort_perm _ _).count_eq,
    List.count_filter ((loadable_iff hfolder name).mp h), listedNames, List.count_filterMap]

theorem folder_eq [Excerpt.Printer] : Load.folder disk folder =
    (failedEntries items).map (fun e => .error (.file (.unreadableEntry e))) ++
      (candidates disk folder items).map fun name =>
        candidate (folder.join name.bytes) (disk.find (folder.join name.bytes)) := by
  rw [Load.folder, hfolder]

end

theorem mem_listedNames {name : EntryName} : name ∈ listedNames items ↔ .ok name ∈ items := by
  rw [listedNames, List.mem_filterMap]
  constructor
  · rintro ⟨item, hitem, hname⟩
    cases item with
    | error e => cases hname
    | ok other => exact Option.some.inj hname ▸ hitem
  · exact fun h => ⟨.ok name, h, rfl⟩

theorem pairwise_candidates (disk : Disk) (folder : Path)
    (items : List (Except AccessError EntryName)) :
    (candidates disk folder items).Pairwise fun s t =>
      folder.join s.bytes ≤ folder.join t.bytes := by
  have hsorted : (candidates disk folder items).Pairwise fun s t =>
      decide (folder.join s.bytes ≤ folder.join t.bytes) = true := by
    apply List.pairwise_mergeSort
    · intro s t u hst htu
      exact decide_eq_true (List.le_trans (of_decide_eq_true hst) (of_decide_eq_true htu))
    · intro s t
      simpa using List.le_total (folder.join s.bytes) (folder.join t.bytes)
  exact hsorted.imp of_decide_eq_true

/-- The order in which the names are listed is of no importance. -/
theorem candidates_congr {other : Disk} {others : List (EntryName × Entry)}
    {obstacle : Option AccessError} {listed : List (Except AccessError EntryName)}
    (hfolder : disk.find folder = .ok (.folder entries barrier (.ok items)))
    (hother : other.find folder = .ok (.folder others obstacle (.ok listed)))
    (hnames : ∀ name, listed.countP (·.toOption == some name) =
      items.countP (·.toOption == some name))
    (hkinds : ∀ name, .ok name ∈ items →
      (Loadable folder others obstacle name ↔ Loadable folder entries barrier name)) :
    candidates other folder listed = candidates disk folder items := by
  have hperm : (listedNames listed).Perm (listedNames items) := by
    rw [List.perm_iff_count]
    intro name
    rw [listedNames, listedNames, List.count_filterMap, List.count_filterMap]
    exact hnames name
  have hsame : ∀ name ∈ listedNames listed,
      isCandidate other folder name = isCandidate disk folder name := by
    intro name hname
    have hlisted := mem_listedNames.mp (hperm.mem_iff.mp hname)
    rw [Bool.eq_iff_iff, ← loadable_iff hother, ← loadable_iff hfolder]
    exact hkinds name hlisted
  apply List.Perm.eq_of_pairwise _ (pairwise_candidates other folder listed)
    (pairwise_candidates disk folder items)
  · rw [candidates, candidates, List.filter_congr hsame]
    exact (List.mergeSort_perm _ _).trans ((hperm.filter _).trans (List.mergeSort_perm _ _).symm)
  · rintro ⟨s, hs⟩ ⟨t, ht⟩ - - hst hts
    obtain rfl := Path.join_injective folder (List.le_antisymm hst hts)
    rfl

/--
Loading a folder that can be listed tells of the entries that cannot be read, and then says one thing
about each entry that is loaded, in the order of the paths: its program, or a failure that holds the
text of what is wrong with it. This is so in whatever order the folder is listed, and what is said
about a file depends on nothing but its path and what the path leads to.
-/
theorem folder_complete [Excerpt.Printer] (disk : Disk) (folder : Path)
    (entries : List (EntryName × Entry)) (barrier : Option AccessError)
    (listing : Except AccessError (List (Except AccessError EntryName)))
    (hfolder : disk.find folder = .ok (.folder entries barrier listing)) :
    (∀ e, listing = .error e →
      Load.folder disk folder = [.error (.file (.unreadableFolder folder e))]) ∧
    ∀ items, listing = .ok items →
      ∃ (names : List EntryName) (report : Path → Found → Except Failure (Path × Program)),
        (Load.folder disk folder =
          (failedEntries items).map (fun e => .error (.file (.unreadableEntry e))) ++
            names.map fun name =>
              report (folder.join name.bytes) (disk.find (folder.join name.bytes))) ∧
        (∀ path found, Tells path (program path found) (report path found)) ∧
        (names.Pairwise fun s t => folder.join s.bytes ≤ folder.join t.bytes) ∧
        (∀ name ∈ names, Loadable folder entries barrier name) ∧
        (∀ name, Loadable folder entries barrier name →
          names.count name = items.countP (·.toOption == some name)) ∧
        ∀ (other : Disk) (others : List (EntryName × Entry)) (obstacle : Option AccessError)
          (listed : List (Except AccessError EntryName)),
          other.find folder = .ok (.folder others obstacle (.ok listed)) →
          (∀ name, listed.countP (·.toOption == some name) =
            items.countP (·.toOption == some name)) →
          (∀ name, .ok name ∈ items →
            (Loadable folder others obstacle name ↔ Loadable folder entries barrier name)) →
          Load.folder other folder =
            (failedEntries listed).map (fun e => .error (.file (.unreadableEntry e))) ++
              names.map fun name =>
                report (folder.join name.bytes) (other.find (folder.join name.bytes)) := by
  constructor
  · rintro e rfl
    rw [Load.folder, hfolder]
  · rintro items rfl
    refine ⟨candidates disk folder items, candidate, folder_eq hfolder, tells_candidate,
      pairwise_candidates disk folder items, fun _ hname => ((mem_candidates hfolder).mp hname).2,
      fun _ => count_candidates hfolder, ?_⟩
    intro other others obstacle listed hother hnames hkinds
    rw [folder_eq hother, candidates_congr hfolder hother hnames hkinds]

/-- A program, a file that is none, one that cannot be read, a folder with the name of a program file,
a name with nothing before the extension, and an entry that cannot be read. On the other disk the
files are listed in another order, and the one that was no program has been mended. -/
theorem folder_complete_mended :
    let _ : Excerpt.Printer := ⟨Excerpt.arrowed⟩
    let a : EntryName := ⟨Path.ofText "a.tur".toList, by decide⟩
    let b : EntryName := ⟨Path.ofText "b.tur".toList, by decide⟩
    let c : EntryName := ⟨Path.ofText "c.tur".toList, by decide⟩
    let d : EntryName := ⟨Path.ofText "d.tur".toList, by decide⟩
    let hidden : EntryName := ⟨Path.ofText ".tur".toList, by decide⟩
    let outer : EntryName := ⟨Path.ofText ['p'], by decide⟩
    let rest := [(hidden, Entry.file "*q;!q;".toUTF8 none), (c, .folder [] none (.ok [])),
      (a, .file "$q:*->q:1:R;!q;".toUTF8 none), (d, .file "*q;!q;".toUTF8 (some .denied))]
    let entries := (b, Entry.file "*".toUTF8 none) :: rest
    let others := rest ++ [(b, Entry.file "*q;!q;".toUTF8 none)]
    let items := [.ok b, .error .denied, .ok hidden, .ok c, .ok a, .ok d]
    let listed := [.ok d, .ok a, .ok c, .ok hidden, .ok b]
    let disk : Disk := ⟨.folder [(outer, .folder entries none (.ok items))] none (.ok [.ok outer]),
      [Path.slash]⟩
    let other : Disk := ⟨.folder [(outer, .folder others none (.ok listed))] none (.ok [.ok outer]),
      [Path.slash]⟩
    disk.find outer.bytes = .ok (.folder entries none (.ok items)) ∧
    other.find outer.bytes = .ok (.folder others none (.ok listed)) ∧
      ∃ (names : List EntryName) (report : Path → Found → Except Failure (Path × Program)),
        (Load.folder disk outer.bytes = .error (.file (.unreadableEntry .denied)) ::
          names.map fun name =>
            report (outer.bytes.join name.bytes) (disk.find (outer.bytes.join name.bytes))) ∧
        (Load.folder other outer.bytes = names.map fun name =>
          report (outer.bytes.join name.bytes) (other.find (outer.bytes.join name.bytes))) ∧
        names.count a = 1 ∧ names.count b = 1 ∧ names.count d = 1 ∧
        c ∉ names ∧ hidden ∉ names := by
  intro _ a b c d hidden outer rest entries others items listed disk other
  have hfolder : disk.find outer.bytes = .ok (.folder entries none (.ok items)) := by rfl
  have hother : other.find outer.bytes = .ok (.folder others none (.ok listed)) := by rfl
  have hcandidate : ∀ name, .ok name ∈ items →
      isCandidate other outer.bytes name = isCandidate disk outer.bytes name := by
    intro name hname
    simp only [items, List.mem_cons, List.not_mem_nil, or_false, Except.ok.injEq, reduceCtorEq,
      false_or] at hname
    rcases hname with rfl | rfl | rfl | rfl | rfl <;> rfl
  obtain ⟨names, report, hresults, -, -, hsound, hcomplete, hothers⟩ :=
    (folder_complete disk outer.bytes entries none (.ok items) hfolder).2 items rfl
  have hnames : ∀ name, listed.countP (·.toOption == some name) =
      items.countP (·.toOption == some name) := by
    intro name
    simp only [items, listed, List.countP_cons, List.countP_nil, Except.toOption]
    simp
    omega
  have hkinds : ∀ name, .ok name ∈ items →
      (Loadable outer.bytes others none name ↔ Loadable outer.bytes entries none name) := by
    intro name hname
    rw [loadable_iff hother, loadable_iff hfolder, hcandidate name hname]
  refine ⟨hfolder, hother, names, report, hresults,
    hothers other others none listed hother hnames hkinds, ?_, ?_, ?_, ?_, ?_⟩
  · exact hcomplete a ((loadable_iff hfolder a).mpr rfl)
  · exact hcomplete b ((loadable_iff hfolder b).mpr rfl)
  · exact hcomplete d ((loadable_iff hfolder d).mpr rfl)
  · intro hmem
    exact Bool.noConfusion ((loadable_iff hfolder c).mp (hsound c hmem))
  · intro hmem
    exact Bool.noConfusion ((loadable_iff hfolder hidden).mp (hsound hidden hmem))

theorem folder_singleton [Excerpt.Printer] {disk : Disk} {folder : Path}
    {entries : List (EntryName × Entry)} {barrier : Option AccessError} {name : EntryName}
    (hfolder : disk.find folder = .ok (.folder entries barrier (.ok [.ok name])))
    (hnamed : Path.isProgramName name.bytes = true)
    (hsize : Path.maxLength < (folder.join name.bytes).length) :
    Load.folder disk folder = [.error (.file (.badProgram (folder.join name.bytes)
      ("File error: " ++ ("Failed to read file " ++ (folder.join name.bytes).display ++ ": " ++
        "File name too long (os error 36)"))))] := by
  have hlost := Disk.find_join_of_too_long name hsize hfolder
  have hkept : isCandidate disk folder name = true := by
    rw [isCandidate, hlost, hnamed]
    rfl
  have hcandidates : candidates disk folder [.ok name] = [name] := by
    change ([name].filter (isCandidate disk folder)).mergeSort _ = [name]
    rw [List.filter_cons_of_pos hkept, List.filter_nil, List.mergeSort_singleton]
  rw [folder_eq hfolder, hcandidates, List.map_singleton, hlost]
  rfl

def longName : EntryName := ⟨List.replicate 200 97 ++ [46, 116, 117, 114], by decide +kernel⟩

/-- A folder under a long name, alone in another folder. -/
def nested : Disk :=
  let inner := Entry.folder [(longName, .folder [] none (.ok []))] none (.ok [.ok longName])
  let outer : EntryName := ⟨[100], by decide⟩
  ⟨.folder [(outer, inner)] none (.ok [.ok outer]), [Path.slash]⟩

/-- The path of the outer folder, with slashes after it up to 3991 bytes. -/
def paddedPath : Path := [100] ++ List.replicate 3990 Path.slash

theorem find_paddedPath : nested.find paddedPath =
    .ok (.folder [(longName, .folder [] none (.ok []))] none (.ok [.ok longName])) :=
  Disk.find_slashes rfl rfl 3990 (by decide)

theorem paddedPath_too_long : Path.maxLength < (paddedPath.join longName.bytes).length := by
  have hpath : paddedPath.length = 3991 := by
    simp only [paddedPath, List.length_append, List.length_replicate, List.length_singleton]
  have hname : longName.bytes.length = 204 := by decide +kernel
  rw [Path.join]
  split <;> simp only [List.length_append, List.length_cons, hpath, hname] <;> decide

theorem folder_of_long_path :
    let _ : Excerpt.Printer := ⟨Excerpt.arrowed⟩
    nested.find paddedPath =
      .ok (.folder [(longName, .folder [] none (.ok []))] none (.ok [.ok longName])) ∧
    Load.folder nested paddedPath = [.error (.file (.badProgram (paddedPath.join longName.bytes)
      ("File error: " ++ ("Failed to read file " ++ (paddedPath.join longName.bytes).display ++
        ": " ++ "File name too long (os error 36)"))))] := by
  intro _
  exact ⟨find_paddedPath, folder_singleton find_paddedPath (by decide +kernel) paddedPath_too_long⟩

end Load

end TapeMachine
