import TapeMachine.Proofs.Language.Reading
/-!
# What reading reports

A report that was made stays: reading and closing only put newer ones before it. All of them are
about single characters and directives; problems of the table as a whole are found afterwards.
-/
namespace TapeMachine

variable {μ : Type}

def Diagnostic.Local (d : Diagnostic μ) : Prop := ∀ p, d.cause ≠ .problem p

namespace Scan

/-- The log of `t` is that of `s` with newer reports, none of them about the table as a whole. -/
def Logs (s t : Scan μ) : Prop := ∃ newer, t.log = newer ++ s.log ∧ ∀ d ∈ newer, d.Local

theorem logs_of_eq {s t : Scan μ} (h : t.log = s.log) : s.Logs t :=
  ⟨[], h, fun _ hd => absurd hd List.not_mem_nil⟩

theorem logs_of_cons {s t : Scan μ} {d : Diagnostic μ} (h : t.log = d :: s.log) (hd : d.Local) :
    s.Logs t := by
  refine ⟨[d], h, ?_⟩
  intro e he
  rwa [List.mem_singleton.mp he]

theorem Logs.trans {s t u : Scan μ} (hst : s.Logs t) (htu : t.Logs u) : s.Logs u := by
  obtain ⟨first, hfirst, hlocal⟩ := hst
  obtain ⟨second, hsecond, hlocal'⟩ := htu
  refine ⟨second ++ first, by rw [hsecond, hfirst, List.append_assoc], ?_⟩
  intro d hd
  rcases List.mem_append.mp hd with hd | hd
  · exact hlocal' d hd
  · exact hlocal d hd

theorem Logs.mem {s t : Scan μ} (h : s.Logs t) {d : Diagnostic μ} (hd : d ∈ s.log) : d ∈ t.log := by
  obtain ⟨newer, hlog, -⟩ := h
  rw [hlog]
  exact List.mem_append_right newer hd

theorem logs_reportAll (notices : List Notice) (place : μ) (s : Scan μ) :
    s.Logs (s.reportAll notices place) := by
  rw [reportAll_eq]
  refine ⟨_, rfl, ?_⟩
  intro d hd
  obtain ⟨n, -, rfl⟩ := List.mem_map.mp (List.mem_reverse.mp hd)
  exact fun p => Cause.noConfusion

theorem logs_declareBlock (place : μ) (s : Scan μ) : s.Logs (s.declareBlock place) :=
  logs_reportAll _ place { s with draft := _ }

theorem Reads.logs {place : μ} {c : Char} {s t : Scan μ} (hr : Reads place c s t) : s.Logs t := by
  have hfault : ∀ (f : Fault) (found : Option μ) (scope : Scope),
      Diagnostic.Local (⟨.fault f, found, scope⟩ : Diagnostic μ) :=
    fun _ _ _ _ => Cause.noConfusion
  cases hr with
  | passes => exact logs_of_eq rfl
  | opens => exact logs_of_eq rfl
  | strays f => exact logs_of_cons rfl (hfault f _ _)
  | closes => exact logs_of_eq rfl
  | collects => exact logs_of_eq rfl
  | separates => exact logs_of_eq rfl
  | rejects f => exact logs_of_cons rfl (hfault f _ _)
  | discards => exact logs_of_eq rfl
  | commits d frame outer =>
    cases s.draft.apply outer.path d s.item.start s.item.allFields with
    | error r => exact logs_of_cons rfl fun _ => Cause.noConfusion
    | ok result =>
      exact logs_reportAll result.2 s.item.start { s.back outer place with draft := result.1 }
  | abandons => exact logs_of_cons rfl (hfault _ _ _)
  | names => exact logs_declareBlock place (s.back _ place)
  | numbers => exact logs_of_eq rfl
  | blanks => exact logs_of_cons rfl (hfault _ _ _)
  | drops => exact logs_of_eq rfl
  | interrupts => exact logs_of_cons rfl (hfault _ _ _)

theorem logs_readAll {s : Scan μ} (h : s.Orderly) (source : List (μ × Char)) :
    s.Logs (s.readAll source) :=
  readAll_induction (fun _ hr hs => hs.trans hr.logs) h (logs_of_eq rfl) source

theorem logs_close (place : μ) (s : Scan μ) : s.Logs (s.close place) := by
  rw [close_eq]
  refine ⟨_, rfl, ?_⟩
  intro d hd
  obtain ⟨f, -, rfl⟩ := List.mem_map.mp (List.mem_reverse.mp hd)
  exact fun p => Cause.noConfusion

end Scan

theorem local_of_mem_scanSource {source : List Char} {d : Diagnostic Mark}
    (hd : d ∈ (scanSource source).diagnostics) : d.Local := by
  have hlogs := (Scan.logs_readAll (Scan.orderly_begin Mark.origin) (Mark.origin.locate source)).trans
    (Scan.logs_close (Mark.origin.after source) _)
  obtain ⟨newer, hlog, hlocal⟩ := hlogs
  have hmem : d ∈ newer := by
    have hd' := List.mem_reverse.mp hd
    rw [scanSource_eq, readSource] at hd'
    rw [hlog] at hd'
    simpa [Scan.begin] using hd'
  exact hlocal d hmem

end TapeMachine
