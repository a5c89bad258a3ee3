import TapeMachine.Engine.Session
import TapeMachine.Proofs.Engine.Entered
import Mathlib.Data.List.Chain
/-!
# Sessions replayed

What a session shows can be checked without the machine: each frame follows from the one before it.
The last frame shows the machine as it is, whatever the commands were, so the frames of the next
command can be compared with it (`Records.run_execute`). From this follow the laws of a whole
session (`run_replays`).
-/
namespace TapeMachine

namespace View

def isApplied (v : View) : Bool := v.last.any Attempt.isApplied

/-- What a view is of a machine, whatever happened just before. -/
structure Shows (v : View) (m : Machine) : Prop where
  state : v.state = m.state
  tape : v.tape = m.tape
  steps : v.steps = m.steps
  halted : v.halted = m.isHalted

/-- What a view may be after another one. -/
structure Follows (before next : View) : Prop where
  steps : next.steps = before.steps + if next.isApplied then 1 else 0
  applied : ∀ t, next.last = some (.applied t) → before.halted = false ∧
    (t.state = before.state ∨ t.state = Name.anonymous) ∧ t.accepts before.tape.cell = true ∧
    next.state = t.target ∧ next.tape = (before.tape.write t.write).move t.direction
  refused : ∀ state cell, next.last = some (.refused state cell) → before.halted = false ∧
    next.state = before.state ∧ next.tape = before.tape ∧
    state = before.state ∧ cell = before.tape.cell

theorem Shows.follows {v next : View} {m : Machine} (h : v.Shows m)
    (hnext : (m.view none).Follows next) : v.Follows next := by
  obtain ⟨hstate, htape, hsteps, hhalted⟩ := h
  obtain ⟨hcount, happlied, hrefused⟩ := hnext
  refine ⟨?_, ?_, ?_⟩
  · rw [hsteps]
    exact hcount
  · rw [hhalted, hstate, htape]
    exact happlied
  · rw [hhalted, hstate, htape]
    exact hrefused

end View

def Event.frame? : Event → Option View
  | frame v => some v
  | _ => none

def Event.isStatus : Event → Bool
  | status _ => true
  | _ => false

def Transcript.frames (t : Transcript) : List View := t.events.filterMap Event.frame?

/-- The commands that a session executes: a first step, then those of the lines up to a quit. -/
def Session.commands (lines : List (List Char)) : List Command :=
  (.step 1 :: lines.map Command.ofLine).takeWhile (· ≠ .quit)

namespace Machine

def responses : List Command → Machine → List Response
  | [], _ => []
  | c :: rest, m => m.execute c :: responses rest (m.execute c).machine

def after (commands : List Command) (m : Machine) : Machine :=
  commands.foldl (fun m c => (m.execute c).machine) m

theorem program_step (m : Machine) : m.step.2.program = m.program := by
  cases hnext : m.next? with
  | none => rw [step_of_none hnext]
  | some t => rw [step_of_some hnext]; rfl

theorem follows_step {m : Machine} (hc : m.program.table.Consistent) (hm : m.isHalted = false) :
    (m.view none).Follows (m.step.2.view (some m.step.1)) := by
  cases hnext : m.next? with
  | none =>
    rw [step_of_none hnext]
    refine ⟨rfl, nofun, ?_⟩
    intro state cell hlast
    cases hlast
    exact ⟨hm, rfl, rfl, rfl, rfl⟩
  | some t =>
    rw [step_of_some hnext]
    refine ⟨rfl, ?_, nofun⟩
    intro u hlast
    cases hlast
    obtain ⟨s, hs, hname, ht, -⟩ := Table.owner_of_lookup hnext
    have hfound := Table.lookup_eq_find? m.program.table m.state m.reading
    have haccepts := List.find?_some (hfound.symm.trans hnext)
    refine ⟨hm, ?_, haccepts, rfl, rfl⟩
    rw [hc.owned s hs t ht]
    exact hname

end Machine

namespace Batch

theorem isHalted_of_not_isOver {b : Batch} (hstart : b.start.isHalted = false)
    (hover : b.isOver = false) : b.machine.isHalted = false := by
  obtain ⟨start, trail⟩ := b
  cases trail with
  | nil => exact hstart
  | cons first rest =>
    simp only [isOver, Bool.or_eq_false_iff] at hover
    exact hover.2

theorem views_attempt (b : Batch) :
    b.attempt.views = b.views ++ [b.machine.step.2.view (some b.machine.step.1)] := by
  simp [attempt, views]

end Batch

/-- Views that follow from one another, of a run of a program that has led to a machine. -/
structure Records (p : Program) (views : List View) (m : Machine) : Prop where
  program : m.program = p
  chain : views.IsChain View.Follows
  last : ∃ v, views.getLast? = some v ∧ v.Shows m
  steps : m.steps = views.countP View.isApplied

namespace Records

variable {p : Program} {views : List View} {m : Machine}

theorem snoc (h : Records p views m) {next : Machine} {last : Option Attempt}
    (hprogram : next.program = p) (hnext : (m.view none).Follows (next.view last)) :
    Records p (views ++ [next.view last]) next where
  program := hprogram
  chain := by
    obtain ⟨v, hv, hshows⟩ := h.last
    rw [List.isChain_append]
    refine ⟨h.chain, List.isChain_singleton _, ?_⟩
    simpa [hv] using hshows.follows hnext
  last := ⟨next.view last, by simp, rfl, rfl, rfl, rfl⟩
  steps := by
    have hsteps : next.steps = m.steps + if (next.view last).isApplied then 1 else 0 := hnext.steps
    rw [List.countP_append, List.countP_singleton, hsteps, h.steps]

theorem respond (h : Records p views m) {next : Machine} (outcome : Outcome)
    (hprogram : next.program = p) (hsteps : next.steps = m.steps) :
    Records p (views ++ (next.respond outcome).views) (next.respond outcome).machine :=
  h.snoc hprogram ⟨hsteps, nofun, nofun⟩

theorem run (hc : p.table.Consistent) {b : Batch} (hstart : b.start.isHalted = false)
    (h : Records p (views ++ b.views) b.machine) (n : Nat) :
    Records p (views ++ (b.run n).views) (b.run n).machine := by
  -- By induction on the number of attempts that are left.
  induction n generalizing b with
  | zero => exact h
  | succ n ih =>
    rw [Batch.run]
    split
    next => exact h
    next hover =>
      have hhalted := Batch.isHalted_of_not_isOver hstart (Bool.eq_false_iff.mpr hover)
      have hnext : (b.machine.view none).Follows (b.machine.step.2.view (some b.machine.step.1)) :=
        Machine.follows_step (by rw [h.program]; exact hc) hhalted
      have hprogram : b.machine.step.2.program = p := by
        rw [Machine.program_step, h.program]
      have hrecords := h.snoc hprogram hnext
      rw [List.append_assoc, ← Batch.views_attempt] at hrecords
      exact ih hstart hrecords

theorem run_execute (hc : p.table.Consistent) (h : Records p views m) (c : Command) :
    Records p (views ++ (m.execute c).views) (m.execute c).machine := by
  cases c with
  | step n =>
    rw [Machine.execute, Machine.advance]
    split
    next => exact h.respond _ h.program rfl
    next hm =>
      have hbegin : Records p (views ++ (⟨m, []⟩ : Batch).views) m := by
        simpa [Batch.views] using h
      exact hbegin.run (b := ⟨m, []⟩) hc (Bool.eq_false_iff.mpr hm) n
  | move d => exact h.respond _ h.program rfl
  | setState name => exact h.respond _ h.program rfl
  | write c =>
    simp only [Machine.execute, Machine.writeSymbol]
    split
    next next hwritten =>
      split at hwritten
      · cases hwritten
        exact h.respond _ h.program rfl
      · cases hwritten
    next => exact h.respond _ h.program rfl
  | quit => simpa [Machine.execute] using h
  | invalid text => exact h.respond _ h.program rfl

theorem responses (hc : p.table.Consistent) (h : Records p views m) (commands : List Command) :
    Records p (views ++ (m.responses commands).flatMap (·.views)) (m.after commands) := by
  induction commands generalizing views m with
  | nil => simpa [Machine.responses, Machine.after] using h
  | cons c commands ih =>
    have hrest := ih (h.run_execute hc c)
    rw [List.append_assoc] at hrest
    exact hrest

end Records

namespace Session

private theorem follow_quit (lines : List (List Char)) (m : Machine) :
    follow .quit lines m = ⟨[], m⟩ := by
  cases lines <;> rfl

private theorem follow_nil {c : Command} (hc : c ≠ .quit) (m : Machine) :
    follow c [] m = ⟨(m.execute c).events, (m.execute c).machine⟩ := by
  cases c <;> first | rfl | exact absurd rfl hc

private theorem follow_cons {c : Command} (hc : c ≠ .quit) (line : List Char)
    (lines : List (List Char)) (m : Machine) :
    follow c (line :: lines) m =
      let rest := follow (Command.ofLine line) lines (m.execute c).machine
      ⟨(m.execute c).events ++ rest.events, rest.machine⟩ := by
  cases c <;> first | rfl | exact absurd rfl hc

/-- A session executes its commands one after another. -/
theorem follow_eq (c : Command) (lines : List (List Char)) (m : Machine) :
    follow c lines m =
      let commands := (c :: lines.map Command.ofLine).takeWhile (· ≠ .quit)
      ⟨(m.responses commands).flatMap Response.events, m.after commands⟩ := by
  induction lines generalizing c m with
  | nil =>
    by_cases hc : c = .quit
    · rw [hc, follow_quit]
      simp [Machine.responses, Machine.after]
    · rw [follow_nil hc]
      simp [hc, Machine.responses, Machine.after]
  | cons line lines ih =>
    by_cases hc : c = .quit
    · rw [hc, follow_quit]
      simp [Machine.responses, Machine.after]
    · rw [follow_cons hc, ih]
      simp [hc, Machine.responses, Machine.after]

theorem run_eq (lines : List (List Char)) (m : Machine) :
    run lines m =
      ⟨(m.responses (commands lines)).flatMap Response.events, m.after (commands lines)⟩ :=
  follow_eq _ lines m

/-- What follows a quit is not executed, and the quit itself shows nothing. -/
theorem commands_append_quit (front back : List (List Char)) {line : List Char}
    (hline : Command.ofLine line = .quit) : commands (front ++ line :: back) = commands front := by
  have hstop : ∀ cs : List Command,
      (cs ++ Command.quit :: back.map Command.ofLine).takeWhile (· ≠ Command.quit) =
        cs.takeWhile (· ≠ Command.quit) := by
    intro cs
    induction cs with
    | nil => simp
    | cons c cs ih => simp only [List.cons_append, List.takeWhile_cons, ih]
  simpa [commands, hline] using hstop (.step 1 :: front.map Command.ofLine)

theorem commands_quit (front back : List (List Char)) {line : List Char}
    (hline : Command.ofLine line = .quit) :
    commands (front ++ line :: back) = commands (front ++ [line]) := by
  rw [commands_append_quit front back hline, commands_append_quit front [] hline]

private theorem views_ne_nil (lines : List (List Char)) (m : Machine) :
    (m.responses (commands lines)).flatMap (·.views) ≠ [] := by
  have hfirst : (m.execute (.step 1)).views ≠ [] := by
    rw [Machine.execute, Machine.advance]
    split
    · exact List.cons_ne_nil _ _
    · simp [Batch.run, Batch.isOver, Batch.attempt, Batch.views]
  have hcommands : commands lines = .step 1 :: (lines.map Command.ofLine).takeWhile (· ≠ .quit) := by
    simp [commands]
  rw [hcommands, Machine.responses, List.flatMap_cons]
  exact fun h => hfirst (List.append_eq_nil_iff.mp h).1

end Session

namespace Response

theorem frames_events (rs : List Response) :
    (rs.flatMap events).filterMap Event.frame? = rs.flatMap (·.views) := by
  induction rs with
  | nil => rfl
  | cons r rs ih =>
    have hviews : (r.views.map Event.frame).filterMap Event.frame? = r.views := by
      simp [List.filterMap_map, Function.comp_def, Event.frame?]
    simp [events, ih, hviews, Event.frame?, List.filterMap_cons]

theorem count_events (rs : List Response) :
    (rs.flatMap events).countP Event.isStatus = rs.length ∧
      (rs.flatMap events).count .prompt = rs.length := by
  induction rs with
  | nil => exact ⟨rfl, rfl⟩
  | cons r rs ih =>
    have hstatus : (r.views.map Event.frame).countP Event.isStatus = 0 := by
      simp [List.countP_eq_zero, Event.isStatus]
    have hprompt : (r.views.map Event.frame).count .prompt = 0 := by
      simp [List.count_eq_zero]
    simp [events, ih, hstatus, hprompt, List.countP_cons, Event.isStatus]

end Response

theorem Machine.length_responses (commands : List Command) (m : Machine) :
    (m.responses commands).length = commands.length := by
  induction commands generalizing m with
  | nil => rfl
  | cons c commands ih => simp [responses, ih]

/--
A session on a program, with its own tape or another one that was accepted. Each frame follows from
the one before it, the first from the machine at the beginning. The commands executed are those up
to the first quit. Each of them shows its frames and then one status and one prompt. The machine at
the end has taken as many steps as transitions were applied, and the last frame shows it.
-/
theorem run_replays (source : List Char) (p : Program) (hp : (compile source).program = some p)
    (m : Machine) (hm : m = Machine.ofProgram p ∨
      ∃ content, (Machine.ofProgram p).setTape content = .ok m) (lines : List (List Char)) :
    let t := Session.run lines m
    let rounds := m.responses (Session.commands lines)
    (m.view none :: t.frames).IsChain View.Follows ∧
    rounds.length = (Session.commands lines).length ∧
    t.events = (rounds.flatMap fun r => r.views.map .frame ++ [.status r.outcome, .prompt]) ∧
    t.events.count .prompt = t.events.countP Event.isStatus ∧
    (∀ front line back, lines = front ++ line :: back → Command.ofLine line = .quit →
      Session.run (front ++ [line]) m = t) ∧
    t.machine.steps = t.frames.countP View.isApplied ∧
    ∃ last, t.frames.getLast? = some last ∧ last.state = t.machine.state ∧
      last.halted = t.machine.isHalted := by
  intro t rounds
  have hbegin : m.program = p ∧ m.steps = 0 := by
    rcases hm with rfl | ⟨content, hm⟩
    · exact ⟨rfl, rfl⟩
    · rw [Machine.setTape] at hm
      split at hm
      · cases hm
      · cases hm
        exact ⟨rfl, rfl⟩
  have hc : p.table.Consistent := (wellFormed_and_reported hp).1.table.toConsistent
  have hrecords : Records p [m.view none] m := by
    refine ⟨hbegin.1, List.isChain_singleton _, ⟨_, rfl, rfl, rfl, rfl, rfl⟩, ?_⟩
    rw [hbegin.2]
    rfl
  have ht : t = ⟨rounds.flatMap Response.events, m.after (Session.commands lines)⟩ :=
    Session.run_eq lines m
  have hframes : t.frames = rounds.flatMap (·.views) := by
    rw [ht]
    exact Response.frames_events rounds
  have hwhole : Records p (m.view none :: t.frames) t.machine := by
    rw [hframes, ht]
    exact hrecords.responses hc (Session.commands lines)
  obtain ⟨hstatuses, hprompts⟩ := Response.count_events rounds
  refine ⟨hwhole.chain, Machine.length_responses _ m, ?_, ?_, ?_, ?_, ?_⟩
  · rw [ht]
    rfl
  · rw [ht, hstatuses, hprompts]
  · rintro front line back rfl hline
    rw [Session.run_eq, ← Session.commands_quit front back hline, ← Session.run_eq]
  · rw [hwhole.steps]
    exact List.countP_cons_of_neg Bool.false_ne_true
  · obtain ⟨last, hlast, hshows⟩ := hwhole.last
    have hne : t.frames ≠ [] := by
      rw [hframes]
      exact Session.views_ne_nil lines m
    rw [List.getLast?_cons_of_ne_nil hne] at hlast
    exact ⟨last, hlast, hshows.state, hshows.halted⟩

/-- In its only state a one is erased and the head moves right. -/
def erasing : Program :=
  ⟨⟨[⟨['q'], [⟨['q'], .char '1', ['q'], .char '_', .right⟩]⟩]⟩, ['q'], [Name.halt], ['1', '_'],
    Tape.ofList []⟩

/-- On a tape of two ones two of three attempts are applied; the line after the quit is not read. -/
theorem run_replays_erasing :
    let source := ['@', '1', ';', '$', 'q', ':', '1', '>', 'q', ':', '_', ':', 'R', ';', '!', 'q', ';']
    let m : Machine := { Machine.ofProgram erasing with tape := Tape.ofList ['1', '1'] }
    let t := Session.run [['2'], ['l'], ['q'], ['r']] m
    (compile source).program = some erasing ∧
      (Machine.ofProgram erasing).setTape ['1', '1'] = .ok m ∧
      (m.view none :: t.frames).IsChain View.Follows ∧
      Session.run [['2'], ['l'], ['q']] m = t ∧
      t.machine.steps = 2 ∧ t.frames.countP View.isApplied = 2 := by
  intro source m t
  have hp : (compile source).program = some erasing := by decide
  have hm : (Machine.ofProgram erasing).setTape ['1', '1'] = .ok m := rfl
  obtain ⟨hchain, -, -, -, hquit, hsteps, -⟩ :=
    run_replays source erasing hp m (.inr ⟨_, hm⟩) [['2'], ['l'], ['q'], ['r']]
  have htaken : t.machine.steps = 2 := by decide
  exact ⟨hp, hm, hchain, hquit [['2'], ['l']] ['q'] [['r']] rfl (by decide), htaken,
    hsteps.symm.trans htaken⟩

end TapeMachine
