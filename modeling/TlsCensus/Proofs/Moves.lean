import TlsCensus.Probe.Connection
import Mathlib.Data.List.Induction

/-! Everything one step of a probe can do, one case each, together with what the handshake
was asked and answered in it. A handshake that keeps a log of its answers takes the same
steps, so a log may be read beside any run. -/
namespace TlsCensus

inductive Exchange where
  | initiate (answer : Except HandshakeError Unit)
  | step (verdict : Verdict)
  | output (out : Bytes)
  | feed (data : Bytes)
  deriving DecidableEq, Repr

namespace Capability
variable {κ : Type}

def logged (C : Capability κ) : Capability (κ × List Exchange) where
  initiate s := ((C.initiate s.1).1, (C.initiate s.1).2, s.2 ++ [.initiate (C.initiate s.1).1])
  step s := ((C.step s.1).1, (C.step s.1).2, s.2 ++ [.step (C.step s.1).1])
  output s := ((C.output s.1).1, (C.output s.1).2, s.2 ++ [.output (C.output s.1).1])
  feed data s := (C.feed data s.1, s.2 ++ [.feed data])

end Capability

namespace Connection
variable {κ : Type} {C : Capability κ} {c : Connection κ} {now : Nat}

inductive Move (C : Capability κ) (c : Connection κ) (now : Nat) :
    Event → List Exchange → Action × Connection κ → Prop where
  | spent {event} (terminal : c.isTerminal = true) : Move C c now event [] (.none, c)
  | early (connecting : c.phase = .connecting) {data} : Move C c now (.readable data) [] (.none, c)
  | idle (handshaking : c.phase = .handshaking) : Move C c now .writable [] (.none, c)
  | inTime (runs : c.isTerminal = false) (time : ¬ c.timeout < now - c.changedAt) :
      Move C c now .tick [] (.none, c)
  | unanswered (connecting : c.phase = .connecting) (late : c.timeout < now - c.changedAt) :
      Move C c now .tick [] (.close, { c with phase := .timedOut, result := some .tcpTimeout })
  | unfinished (handshaking : c.phase = .handshaking) (late : c.timeout < now - c.changedAt) :
      Move C c now .tick [] (.close, { c with phase := .timedOut, result := some .tlsTimeout })
  | unsent (runs : c.isTerminal = false) (bare : c.raw = []) :
      Move C c now .sendFailed [] (c.finish .connectFailed)
  | cutOff (runs : c.isTerminal = false) (heard : c.raw ≠ []) :
      Move C c now .sendFailed [] (c.finish .tlsError)
  | refused {event} (connecting : c.phase = .connecting) (lost : event = .error ∨ event = .hangup) :
      Move C c now event [] (c.finish .connectFailed)
  | broken {event} (handshaking : c.phase = .handshaking) (lost : event = .error ∨ event = .hangup) :
      Move C c now event [] (c.finish .tlsError)
  | uninitiated (connecting : c.phase = .connecting) {e k} (begun : C.initiate c.capability = (.error e, k)) :
      Move C c now .writable [.initiate (.error e)] ({ c with capability := k }.finish .tlsError)
  | rejected (connecting : c.phase = .connecting) {k k'} (begun : C.initiate c.capability = (.ok (), k))
      (stepped : C.step k = (.failed, k')) :
      Move C c now .writable [.initiate (.ok ()), .step .failed]
        ({ c with capability := k' }.finish .tlsError)
  | mute (connecting : c.phase = .connecting) {k k' k'' verdict}
      (begun : C.initiate c.capability = (.ok (), k)) (stepped : C.step k = (verdict, k'))
      (sane : verdict ≠ .failed) (said : C.output k' = ([], k'')) :
      Move C c now .writable [.initiate (.ok ()), .step verdict, .output []]
        ({ c with capability := k'' }.finish .tlsError)
  | greeted (connecting : c.phase = .connecting) {k k' k'' verdict hello}
      (begun : C.initiate c.capability = (.ok (), k)) (stepped : C.step k = (verdict, k'))
      (sane : verdict ≠ .failed) (said : C.output k' = (hello, k'')) (written : hello ≠ []) :
      Move C c now .writable [.initiate (.ok ()), .step verdict, .output hello]
        (.send hello, { c with capability := k'', phase := .handshaking, changedAt := now })
  | concluded (handshaking : c.phase = .handshaking) {data k}
      (stepped : C.step (C.feed data c.capability) = (.done, k)) :
      Move C c now (.readable data) [.feed data, .step .done]
        ({ c with raw := c.raw ++ data, capability := k }.finish .tlsCompleted)
  | spoiled (handshaking : c.phase = .handshaking) {data k}
      (stepped : C.step (C.feed data c.capability) = (.failed, k)) :
      Move C c now (.readable data) [.feed data, .step .failed]
        ({ c with raw := c.raw ++ data, capability := k }.finish .tlsError)
  | listened (handshaking : c.phase = .handshaking) {data k k'}
      (stepped : C.step (C.feed data c.capability) = (.awaiting, k)) (said : C.output k = ([], k')) :
      Move C c now (.readable data) [.feed data, .step .awaiting, .output []]
        (.none, { c with raw := c.raw ++ data, capability := k' })
  | replied (handshaking : c.phase = .handshaking) {data k k' out}
      (stepped : C.step (C.feed data c.capability) = (.awaiting, k)) (said : C.output k = (out, k'))
      (written : out ≠ []) :
      Move C c now (.readable data) [.feed data, .step .awaiting, .output out]
        (.send out, { c with raw := c.raw ++ data, capability := k', changedAt := now })

theorem runningCases (runs : c.isTerminal = false) : c.phase = .connecting ∨ c.phase = .handshaking := by
  unfold isTerminal at runs
  cases phase : c.phase with
  | connecting => exact .inl rfl
  | handshaking => exact .inr rfl
  | complete => rw [phase] at runs; contradiction
  | timedOut => rw [phase] at runs; contradiction

theorem connectingRuns (connecting : c.phase = .connecting) : c.isTerminal = false := by
  rw [isTerminal, connecting]
  rfl

theorem handshakingRuns (handshaking : c.phase = .handshaking) : c.isTerminal = false := by
  rw [isTerminal, handshaking]
  rfl

theorem expireMoves (C : Capability κ) (runs : c.isTerminal = false) :
    Move C c now .tick [] (c.expire now) := by
  unfold expire
  by_cases late : c.timeout < now - c.changedAt
  · rw [if_pos late]
    rcases runningCases runs with phase | phase
    · simpa only [phase, if_true] using Move.unanswered phase late
    · simpa only [phase, reduceCtorEq, if_false] using Move.unfinished phase late
  · rw [if_neg late]
    exact .inTime runs late

theorem sendFailedMoves (C : Capability κ) (runs : c.isTerminal = false) :
    Move C c now .sendFailed [] (c.finish (if c.raw.isEmpty then .connectFailed else .tlsError)) := by
  cases bare : c.raw.isEmpty with
  | true => exact .unsent runs (List.isEmpty_iff.mp bare)
  | false => exact .cutOff runs fun empty => by simp [empty] at bare

theorem startMoves (C : Capability κ) (connecting : c.phase = .connecting) :
    ∃ spoken, Move C c now .writable spoken (c.startHandshake C now) := by
  unfold startHandshake
  split
  next e k begun => exact ⟨_, .uninitiated connecting begun⟩
  next k begun =>
    split
    next k' stepped => exact ⟨_, .rejected connecting begun stepped⟩
    next verdict k' sane stepped =>
      have sane : verdict ≠ .failed := fun bad => sane bad
      split
      next k'' said => exact ⟨_, .mute connecting begun stepped sane said⟩
      next hello k'' written said =>
        exact ⟨_, .greeted connecting begun stepped sane said fun none => written (by rw [none])⟩

theorem absorbMoves (C : Capability κ) (handshaking : c.phase = .handshaking) (data : Bytes) :
    ∃ spoken, Move C c now (.readable data) spoken (c.absorb C data now) := by
  unfold absorb
  dsimp only
  split
  next k stepped => exact ⟨_, .concluded handshaking stepped⟩
  next k stepped => exact ⟨_, .spoiled handshaking stepped⟩
  next k stepped =>
    split
    next k' said => exact ⟨_, .listened handshaking stepped said⟩
    next out k' written said => exact ⟨_, .replied handshaking stepped said fun none => written (by rw [none])⟩

theorem writableStarts (connecting : c.phase = .connecting) :
    c.transition C .writable now = c.startHandshake C now := by
  simp [transition, connectingRuns connecting, connecting]

theorem readableAbsorbed {data : Bytes} (handshaking : c.phase = .handshaking) :
    c.transition C (.readable data) now = c.absorb C data now := by
  simp [transition, handshakingRuns handshaking, handshaking]

theorem transitionMoves (C : Capability κ) (c : Connection κ) (event : Event) (now : Nat) :
    ∃ spoken, Move C c now event spoken (c.transition C event now) := by
  unfold transition
  cases ended : c.isTerminal with
  | true =>
    rw [if_pos rfl]
    exact ⟨[], .spent ended⟩
  | false =>
    rw [if_neg Bool.false_ne_true]
    rcases runningCases ended with phase | phase <;> simp only [phase]
    · cases event with
      | tick => exact ⟨[], expireMoves C ended⟩
      | writable => exact startMoves C phase
      | readable data => exact ⟨[], .early phase⟩
      | hangup => exact ⟨[], .refused phase (.inr rfl)⟩
      | error => exact ⟨[], .refused phase (.inl rfl)⟩
      | sendFailed => exact ⟨[], sendFailedMoves C ended⟩
    · cases event with
      | tick => exact ⟨[], expireMoves C ended⟩
      | writable => exact ⟨[], .idle phase⟩
      | readable data => exact absorbMoves C phase data
      | hangup => exact ⟨[], .broken phase (.inr rfl)⟩
      | error => exact ⟨[], .broken phase (.inl rfl)⟩
      | sendFailed => exact ⟨[], sendFailedMoves C ended⟩

section Logs

def withLog (c : Connection κ) (log : List Exchange) : Connection (κ × List Exchange) :=
  { c with capability := (c.capability, log) }

/- The machine never looks into its handshake, so each case of a move is replayed with the
log carried along. -/
theorem transitionLogged {event spoken after} (move : Move C c now event spoken after)
    (log : List Exchange) :
    (c.withLog log).transition C.logged event now = (after.1, after.2.withLog (log ++ spoken)) := by
  cases move with
  | spent terminal =>
    have same : (c.withLog log).isTerminal = true := terminal
    rw [List.append_nil, transition.eq_def, if_pos same]
  | early connecting | idle connecting =>
    simp [transition, isTerminal, Phase.isTerminal, withLog, connecting]
  | inTime runs time =>
    rcases runningCases runs with phase | phase <;>
      simp [transition, isTerminal, Phase.isTerminal, withLog, phase, expire, time]
  | unanswered phase late | unfinished phase late =>
    simp [transition, isTerminal, Phase.isTerminal, withLog, phase, expire, late]
  | unsent runs heard | cutOff runs heard =>
    rcases runningCases runs with phase | phase <;>
      simp [transition, isTerminal, Phase.isTerminal, withLog, phase, heard, finish]
  | refused phase lost | broken phase lost =>
    rcases lost with rfl | rfl <;>
      simp [transition, isTerminal, Phase.isTerminal, withLog, phase, finish]
  | uninitiated phase begun =>
    rw [writableStarts (C := C.logged) (c := c.withLog log) phase]
    simp [startHandshake, Capability.logged, withLog, finish, begun]
  | rejected phase begun stepped =>
    rw [writableStarts (C := C.logged) (c := c.withLog log) phase]
    simp [startHandshake, Capability.logged, withLog, finish, begun, stepped]
  | mute phase begun stepped sane said | greeted phase begun stepped sane said =>
    rw [writableStarts (C := C.logged) (c := c.withLog log) phase]
    simp [startHandshake, Capability.logged, withLog, finish, begun, stepped, said]
  | concluded phase stepped | spoiled phase stepped =>
    rw [readableAbsorbed (C := C.logged) (c := c.withLog log) phase]
    simp [absorb, Capability.logged, withLog, finish, stepped]
  | listened phase stepped said | replied phase stepped said =>
    rw [readableAbsorbed (C := C.logged) (c := c.withLog log) phase]
    simp [absorb, Capability.logged, withLog, stepped, said]

end Logs

section Runs

def run (C : Capability κ) (c : Connection κ) (events : List (Event × Nat)) : Connection κ :=
  events.foldl (fun c step => (c.transition C step.1 step.2).2) c

def transcript (C : Capability κ) (c : Connection κ) (events : List (Event × Nat)) : List Exchange :=
  ((c.withLog []).run C.logged events).capability.2

theorem runAppend (C : Capability κ) (c : Connection κ) (before after : List (Event × Nat)) :
    c.run C (before ++ after) = (c.run C before).run C after := List.foldl_append

theorem runOver (C : Capability κ) (terminal : c.isTerminal = true) (events : List (Event × Nat)) :
    c.run C events = c := by
  induction events with
  | nil => rfl
  | cons step rest ih =>
    have still : (c.transition C step.1 step.2).2 = c := by rw [transition.eq_def, if_pos terminal]
    change (c.transition C step.1 step.2).2.run C rest = c
    rw [still, ih]

theorem runLogged (C : Capability κ) (c : Connection κ) (events : List (Event × Nat)) :
    (c.withLog []).run C.logged events = (c.run C events).withLog (c.transcript C events) := by
  induction events using List.reverseRecOn with
  | nil => rfl
  | append_singleton events step ih =>
    obtain ⟨spoken, move⟩ := transitionMoves C (c.run C events) step.1 step.2
    rw [transcript, runAppend, runAppend, ih]
    simp only [run, List.foldl_cons, List.foldl_nil] at move ⊢
    rw [transitionLogged move]
    rfl

theorem lastMove (C : Capability κ) (c : Connection κ) (events : List (Event × Nat)) (event : Event)
    (now : Nat) : ∃ spoken answer,
      Move C (c.run C events) now event spoken (answer, c.run C (events ++ [(event, now)])) ∧
      c.transcript C (events ++ [(event, now)]) = c.transcript C events ++ spoken := by
  obtain ⟨spoken, move⟩ := transitionMoves C (c.run C events) event now
  refine ⟨spoken, ((c.run C events).transition C event now).1, ?_, ?_⟩
  · rw [runAppend]
    exact move
  · rw [transcript, runAppend, runLogged]
    exact congrArg (·.2.capability.2) (transitionLogged move (c.transcript C events))

theorem closingEvent (C : Capability κ) (runs : c.isTerminal = false) {events : List (Event × Nat)}
    (ended : (c.run C events).isTerminal = true) : ∃ before event now after,
      events = before ++ (event, now) :: after ∧ (c.run C before).isTerminal = false ∧
      c.run C (before ++ [(event, now)]) = c.run C events ∧
      c.transcript C (before ++ [(event, now)]) = c.transcript C events := by
  induction events using List.reverseRecOn with
  | nil => rw [run, List.foldl_nil, runs] at ended; contradiction
  | append_singleton events step ih =>
    cases earlier : (c.run C events).isTerminal with
    | false => exact ⟨events, step.1, step.2, [], rfl, earlier, rfl, rfl⟩
    | true =>
      obtain ⟨before, event, now, after, rfl, begun, same, said⟩ := ih earlier
      have spent : (((c.withLog []).run C.logged (before ++ (event, now) :: after))).isTerminal = true := by
        rw [runLogged]
        exact earlier
      refine ⟨before, event, now, after ++ [step], by simp, begun, ?_, ?_⟩
      · rw [runAppend _ _ (before ++ (event, now) :: after), runOver C earlier]
        exact same
      · rw [said, transcript, transcript, runAppend _ _ (before ++ (event, now) :: after),
          runOver C.logged spent]

end Runs

end Connection
end TlsCensus
