import TlsCensus.Proofs.Moves

/-! When time ends a probe. Its deadline runs from the latest sending, or from the beginning,
and nothing else moves it: bytes that are answered with nothing do not, nor does a clock that
goes back. With a tick behind every event no probe stays open past its deadline. -/
namespace TlsCensus

def Action.sends : Action → Bool
  | .send _ => true
  | _ => false

namespace Connection
variable {κ : Type} {C : Capability κ} {c : Connection κ} {now : Nat} {event : Event}

def sendings (C : Capability κ) (c : Connection κ) : List (Event × Nat) → List Nat
  | [] => []
  | (event, now) :: rest =>
    let (action, after) := c.transition C event now
    (if action.sends then [now] else []) ++ sendings C after rest

def ticked (events : List (Event × Nat)) : List (Event × Nat) :=
  events.flatMap fun (event, now) => [(event, now), (.tick, now)]

section Clock

theorem moveClock {spoken : List Exchange} {after : Action × Connection κ} (move : Move C c now event spoken after) :
    after.2.timeout = c.timeout ∧ after.2.changedAt = if after.1.sends then now else c.changedAt := by
  cases move <;> exact ⟨rfl, rfl⟩

theorem runClock (C : Capability κ) (c : Connection κ) (events : List (Event × Nat)) :
    (c.run C events).timeout = c.timeout ∧
    (c.run C events).changedAt = (c.sendings C events).getLast?.getD c.changedAt := by
  induction events generalizing c with
  | nil => exact ⟨rfl, rfl⟩
  | cons step rest ih =>
    obtain ⟨event, now⟩ := step
    obtain ⟨spoken, move⟩ := transitionMoves C c event now
    obtain ⟨timeout, changed⟩ := moveClock move
    obtain ⟨lastTimeout, lastChanged⟩ := ih (c.transition C event now).2
    refine ⟨lastTimeout.trans timeout, lastChanged.trans ?_⟩
    rw [changed, sendings, List.getLast?_append]
    cases ((c.transition C event now).2.sendings C rest).getLast? with
    | some later => rfl
    | none => split <;> rfl

theorem sendingsAppend (C : Capability κ) (c : Connection κ) (front back : List (Event × Nat)) :
    c.sendings C (front ++ back) = c.sendings C front ++ (c.run C front).sendings C back := by
  induction front generalizing c with
  | nil => rfl
  | cons step rest ih =>
    simp only [List.cons_append, sendings, ih, List.append_assoc]
    rfl

end Clock

section Ticks

theorem tickLate (C : Capability κ) (runs : c.isTerminal = false) (late : c.changedAt + c.timeout < now) :
    (c.transition C .tick now).1 = .close ∧ (c.transition C .tick now).2.isTerminal = true := by
  have late : c.timeout < now - c.changedAt := by omega
  rcases runningCases runs with phase | phase <;>
    simp [transition, isTerminal, Phase.isTerminal, phase, expire, late]

theorem tickInTime (C : Capability κ) (runs : c.isTerminal = false) (time : ¬ c.changedAt + c.timeout < now) :
    c.transition C .tick now = (.none, c) := by
  have time : ¬ c.timeout < now - c.changedAt := by omega
  rcases runningCases runs with phase | phase <;>
    simp [transition, isTerminal, Phase.isTerminal, phase, expire, time]

theorem tickSurvived {C : Capability κ} (runs : (c.transition C .tick now).2.isTerminal = false) :
    c.isTerminal = false ∧ c.transition C .tick now = (.none, c) := by
  have before : c.isTerminal = false := by
    cases ended : c.isTerminal with
    | false => rfl
    | true => rw [transition, if_pos ended, ended] at runs; contradiction
  refine ⟨before, tickInTime C before fun late => ?_⟩
  rw [(tickLate C before late).2] at runs
  contradiction

theorem tickEndsIff (C : Capability κ) (runs : c.isTerminal = false) (now : Nat) :
    (c.transition C .tick now).2.isTerminal = true ↔ c.changedAt + c.timeout < now := by
  refine ⟨fun ended => ?_, fun late => (tickLate C runs late).2⟩
  by_contra time
  rw [tickInTime C runs time, runs] at ended
  contradiction

theorem openAtTick {events before after : List (Event × Nat)} (running : (c.run C (ticked events)).isTerminal = false)
    (cut : events = before ++ (event, now) :: after) :
    (c.run C (ticked before ++ [(event, now)])).isTerminal = false ∧
    ((c.run C (ticked before ++ [(event, now)])).transition C .tick now).2.isTerminal = false := by
  have split : ticked events = (ticked before ++ [(event, now)]) ++ (.tick, now) :: ticked after := by
    rw [cut, ticked, List.flatMap_append, List.flatMap_cons, List.append_assoc]
    rfl
  rw [split, runAppend] at running
  have still {d : Connection κ} (more : List (Event × Nat)) (on : (d.run C more).isTerminal = false) :
      d.isTerminal = false := by
    cases ended : d.isTerminal with
    | false => rfl
    | true => rwa [runOver C ended, ended] at on
  exact ⟨still _ running, still (ticked after) running⟩

end Ticks

theorem ticksEndOverdue (C : Capability κ) (k : κ) (address : UInt32) (port : UInt16) (timeout start : Nat)
    (events : List (Event × Nat)) :
    let first := new address port k timeout start
    let since (events : List (Event × Nat)) := (first.sendings C events).getLast?.getD start
    let c := first.run C events
    (c.isTerminal = false → ∀ now,
      ((c.transition C .tick now).2.isTerminal = true ↔ since events + timeout < now) ∧
      (since events + timeout < now → (c.transition C .tick now).1 = .close) ∧
      (now ≤ since events + timeout → c.transition C .tick now = (.none, c))) ∧
    (∀ quiet, c.sendings C quiet = [] → (c.run C quiet).isTerminal = false → ∀ now,
      (((c.run C quiet).transition C .tick now).2.isTerminal = true ↔ since events + timeout < now)) ∧
    ∀ before event now after, events = before ++ (event, now) :: after →
      (first.run C (ticked events)).isTerminal = false → now ≤ since (ticked before ++ [(event, now)]) + timeout := by
  intro first since c
  have clock (events : List (Event × Nat)) :
      (first.run C events).changedAt + (first.run C events).timeout = since events + timeout := by
    obtain ⟨same, changed⟩ := runClock C first events
    rw [changed, same]
    rfl
  refine ⟨fun runs now => ?_, fun quiet silent runs now => ?_, fun before event now after cut running => ?_⟩
  · rw [← clock events]
    refine ⟨tickEndsIff C runs now, fun late => (tickLate C runs late).1, fun time => ?_⟩
    exact tickInTime C runs (Nat.not_lt.mpr time)
  · have unmoved : since (events ++ quiet) = since events := by
      simp only [since, sendingsAppend, c, silent, List.append_nil]
    rw [← unmoved, ← clock, runAppend]
    exact tickEndsIff C runs now
  · obtain ⟨here, behind⟩ := openAtTick running cut
    rw [← clock, ← Nat.not_lt, ← tickEndsIff C here, behind]
    exact Bool.false_ne_true

theorem secondSendingSetsDeadline :
    let script : Script := ⟨[], [[22], [], [23]], false⟩
    let first := Connection.new 0x0A000001 443 script 5 0
    let events := [(.writable, 2), (.readable [1], 3), (.readable [2], 4), (.readable [3], 8), (.readable [4], 1)]
    let c := first.run Script.capability events
    c.isTerminal = false ∧ first.sendings Script.capability events = [2, 4] ∧
    c.transition Script.capability .tick 9 = (.none, c) ∧
    (c.transition Script.capability .tick 10).2.isTerminal = true ∧
    (first.run Script.capability (ticked events)).isTerminal = false ∧
    8 ≤ ((first.sendings Script.capability (ticked (events.take 3) ++ [(.readable [3], 8)])).getLast?.getD 0) + 5 := by
  intro script first events c
  obtain ⟨ends, -, ticks⟩ := ticksEndOverdue Script.capability script 0x0A000001 443 5 0 events
  have runs : c.isTerminal = false := by decide
  have sent : first.sendings Script.capability events = [2, 4] := by decide
  have running : (first.run Script.capability (ticked events)).isTerminal = false := by decide
  refine ⟨runs, sent, (ends runs 9).2.2 ?_, (ends runs 10).1.mpr ?_, running, ticks _ _ _ _ rfl running⟩
  · exact (congrArg (fun times => 9 ≤ times.getLast?.getD 0 + 5) sent).mpr (by decide)
  · exact (congrArg (fun times => times.getLast?.getD 0 + 5 < 10) sent).mpr (by decide)

end Connection
end TlsCensus
