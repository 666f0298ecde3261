import TlsCensus.Proofs.Moves

/-! What a finished probe tells of its history. The raw bytes are the pieces that came
while it was handshaking, the same pieces that its handshake was fed, and the result
is decided by the event that ended it, the phase it met and the last answer. -/
namespace TlsCensus

namespace Exchange

def fed? : Exchange → Option Bytes
  | .feed data => some data
  | _ => none

def fed (log : List Exchange) : List Bytes := log.filterMap fed?

def Concluded (log : List Exchange) : Prop :=
  ∃ earlier data later, log = earlier ++ .feed data :: .step .done :: later ∧ fed later = []

theorem fedAppend (earlier later : List Exchange) : fed (earlier ++ later) = fed earlier ++ fed later :=
  List.filterMap_append

theorem unfedOpen {log : List Exchange} (unfed : fed log = []) : ¬ Concluded log := by
  rintro ⟨earlier, data, later, rfl, -⟩
  rw [fedAppend] at unfed
  exact List.cons_ne_nil _ _ (List.append_eq_nil_iff.mp unfed).2

theorem lastFeed {a b x y : List Exchange} {left right : Bytes}
    (same : a ++ .feed left :: x = b ++ .feed right :: y) (quietX : fed x = []) (quietY : fed y = []) :
    x = y := by
  have apart {data : Bytes} {between rest tail : List Exchange} (quiet : fed rest = [])
      (cut : rest = between ++ .feed data :: tail) : False := by
    rw [cut, fedAppend] at quiet
    exact List.cons_ne_nil _ _ (List.append_eq_nil_iff.mp quiet).2
  rcases List.append_eq_append_iff.mp same with ⟨between, rfl, rest⟩ | ⟨between, rfl, rest⟩
  · cases between with
    | nil => exact (List.cons.inj rest).2
    | cons head between => exact (apart quietX (List.cons.inj rest).2).elim
  · cases between with
    | nil => exact (List.cons.inj rest).2.symm
    | cons head between => exact (apart quietY (List.cons.inj rest).2).elim

theorem concludedIff {log later : List Exchange} {data : Bytes} {verdict : Verdict}
    (quiet : fed later = []) :
    Concluded (log ++ .feed data :: .step verdict :: later) ↔ verdict = .done := by
  constructor
  · rintro ⟨earlier, other, rest, same, still⟩
    have tail := lastFeed same quiet still
    exact step.inj (List.cons.inj tail).1
  · rintro rfl
    exact ⟨log, data, later, rfl, quiet⟩

end Exchange

namespace Connection
open Exchange (fed Concluded)
variable {κ : Type} {C : Capability κ} {c : Connection κ} {now : Nat} {event : Event}
  {spoken log : List Exchange} {after : Action × Connection κ}

def takes (c : Connection κ) : Event → List Bytes
  | .readable data => if c.phase = .handshaking then [data] else []
  | _ => []

def absorbed (C : Capability κ) (c : Connection κ) : List (Event × Nat) → List Bytes
  | [] => []
  | (event, now) :: rest => c.takes event ++ absorbed C (c.transition C event now).2 rest

theorem absorbedAppend (C : Capability κ) (c : Connection κ) (front back : List (Event × Nat)) :
    absorbed C c (front ++ back) = absorbed C c front ++ absorbed C (c.run C front) back := by
  induction front generalizing c with
  | nil => rfl
  | cons step rest ih =>
    rw [List.cons_append, absorbed, absorbed, ih, List.append_assoc]
    rfl

theorem absorbedLast (C : Capability κ) (c : Connection κ) (events : List (Event × Nat)) :
    absorbed C c (events ++ [(event, now)]) = absorbed C c events ++ (c.run C events).takes event := by
  rw [absorbedAppend, absorbed, absorbed, List.append_nil]

theorem moveTakes (move : Move C c now event spoken after) :
    fed spoken = c.takes event ∧ after.2.raw = c.raw ++ (c.takes event).flatten ∧
    after.2.address = c.address ∧ after.2.port = c.port := by
  cases move with
  | spent terminal =>
    have none : c.takes event = [] := by
      unfold takes
      split
      · rw [if_neg fun phase => by simp [isTerminal, phase, Phase.isTerminal] at terminal]
      · rfl
    rw [none]
    exact ⟨rfl, (List.append_nil _).symm, rfl, rfl⟩
  | early phase => simp [takes, phase, fed]
  | refused phase lost | broken phase lost =>
    rcases lost with rfl | rfl <;> simp [takes, fed, finish]
  | concluded phase | spoiled phase | listened phase | replied phase =>
    simp [takes, phase, fed, Exchange.fed?, finish]
  | _ => simp [takes, fed, Exchange.fed?, finish]

theorem runTakes (C : Capability κ) (c : Connection κ) (events : List (Event × Nat)) :
    fed (c.transcript C events) = c.absorbed C events ∧
    (c.run C events).raw = c.raw ++ (c.absorbed C events).flatten ∧
    (c.run C events).address = c.address ∧ (c.run C events).port = c.port := by
  induction events using List.reverseRecOn with
  | nil => exact ⟨rfl, (List.append_nil _).symm, rfl, rfl⟩
  | append_singleton events step ih =>
    obtain ⟨spoken, answer, move, said⟩ := lastMove C c events step.1 step.2
    obtain ⟨feeds, bytes, address, port⟩ := moveTakes move
    obtain ⟨ihFeeds, ihBytes, ihAddress, ihPort⟩ := ih
    refine ⟨?_, ?_, address.trans ihAddress, port.trans ihPort⟩
    · rw [said, Exchange.fedAppend, ihFeeds, feeds, absorbedLast]
    · rw [bytes, ihBytes, absorbedLast, List.flatten_append, List.append_assoc]

/- What holds of a run as long as it has not ended. Once it has, the log may be concluded
and the raw bytes say nothing of the phase. -/
structure Underway (c : Connection κ) (log : List Exchange) : Prop where
  silent : c.phase = .connecting → log = [] ∧ c.raw = []
  unconcluded : ¬ Concluded log

theorem moveFromRunning (move : Move C c now event spoken after) (runs : after.2.isTerminal = false) :
    c.isTerminal = false := by
  cases move with
  | spent terminal => exact runs
  | inTime running | unsent running | cutOff running => exact running
  | early phase | unanswered phase | refused phase | uninitiated phase | rejected phase | mute phase
  | greeted phase => exact connectingRuns phase
  | idle phase | unfinished phase | broken phase | concluded phase | spoiled phase | listened phase
  | replied phase => exact handshakingRuns phase

theorem moveUnderway (move : Move C c now event spoken after) (runs : after.2.isTerminal = false)
    (underway : Underway c log) : Underway after.2 (log ++ spoken) := by
  cases move with
  | spent | early | idle | inTime =>
    rw [List.append_nil]
    exact underway
  | greeted phase =>
    obtain ⟨rfl, -⟩ := underway.silent phase
    exact ⟨fun other => by contradiction, Exchange.unfedOpen rfl⟩
  | listened phase | replied phase =>
    refine ⟨fun other => ?_, fun done => ?_⟩
    · rw [phase] at other
      contradiction
    · have bad := (Exchange.concludedIff rfl).mp done
      contradiction
  | _ => contradiction

theorem runUnderway (C : Capability κ) {events : List (Event × Nat)} (bare : c.raw = [])
    (runs : (c.run C events).isTerminal = false) :
    Underway (c.run C events) (c.transcript C events) := by
  induction events using List.reverseRecOn with
  | nil => exact ⟨fun _ => ⟨rfl, bare⟩, Exchange.unfedOpen rfl⟩
  | append_singleton events step ih =>
    obtain ⟨spoken, answer, move, said⟩ := lastMove C c events step.1 step.2
    rw [said]
    exact moveUnderway move runs (ih (moveFromRunning move runs))

def Unreached (c : Connection κ) (event : Event) : Prop :=
  ((event = .error ∨ event = .hangup) ∧ c.phase = .connecting) ∨ (event = .sendFailed ∧ c.raw = [])

structure Ending (c : Connection κ) (event : Event) (log : List Exchange) (code : ResultCode) : Prop where
  tcpTimeout : code = .tcpTimeout ↔ event = .tick ∧ c.phase = .connecting
  tlsTimeout : code = .tlsTimeout ↔ event = .tick ∧ c.phase = .handshaking
  tlsCompleted : code = .tlsCompleted ↔ Concluded log
  connectFailed : code = .connectFailed ↔ c.Unreached event
  tlsError : code = .tlsError ↔ ¬ (event = .tick ∧ c.phase = .connecting) ∧
    ¬ (event = .tick ∧ c.phase = .handshaking) ∧ ¬ Concluded log ∧ ¬ c.Unreached event

theorem endingOf {code : ResultCode} (tcp : code = .tcpTimeout ↔ event = .tick ∧ c.phase = .connecting)
    (tls : code = .tlsTimeout ↔ event = .tick ∧ c.phase = .handshaking)
    (completed : code = .tlsCompleted ↔ Concluded log) (failed : code = .connectFailed ↔ c.Unreached event) :
    Ending c event log code := by
  refine ⟨tcp, tls, completed, failed, ?_⟩
  rw [← tcp, ← tls, ← completed, ← failed]
  cases code <;> simp

theorem moveEnding (move : Move C c now event spoken after) (runs : c.isTerminal = false)
    (ended : after.2.isTerminal = true) (underway : Underway c log) :
    ∃ code, after.2.result = some code ∧ Ending c event (log ++ spoken) code := by
  have ongoing := underway.unconcluded
  cases move with
  | spent terminal => rw [runs] at terminal; contradiction
  | early phase => rw [connectingRuns phase] at ended; contradiction
  | idle phase => rw [handshakingRuns phase] at ended; contradiction
  | inTime running => rw [running] at ended; contradiction
  | greeted => contradiction
  | listened | replied =>
    have still : c.isTerminal = true := ended
    rw [runs] at still
    contradiction
  -- Nothing is said when time, the peer or a sending ends the run.
  | unanswered phase | unfinished phase =>
    exact ⟨_, rfl, endingOf (by simp [phase]) (by simp [phase]) (by simp [ongoing]) (by simp [Unreached])⟩
  | unsent running heard | cutOff running heard =>
    exact ⟨_, rfl, endingOf (by simp) (by simp) (by simp [ongoing]) (by simp [Unreached, heard])⟩
  | refused phase lost | broken phase lost =>
    refine ⟨_, rfl, endingOf ?_ ?_ (by simp [ongoing]) ?_⟩ <;>
      rcases lost with rfl | rfl <;> simp [Unreached, phase]
  -- A handshake that does not get as far as its hello is fed nothing.
  | uninitiated phase | rejected phase | mute phase =>
    obtain ⟨rfl, -⟩ := underway.silent phase
    refine ⟨_, rfl, endingOf (by simp) (by simp) ?_ (by simp [Unreached])⟩
    exact ⟨fun no => by simp at no, fun done => (Exchange.unfedOpen rfl done).elim⟩
  | concluded phase | spoiled phase =>
    refine ⟨_, rfl, endingOf (by simp) (by simp) ?_ (by simp [Unreached])⟩
    exact Iff.trans (by simp) (Exchange.concludedIff rfl).symm

theorem endingBare {before : List Exchange} {code : ResultCode} (underway : Underway c before)
    (ending : Ending c event log code) (unheard : code = .connectFailed ∨ code = .tcpTimeout) :
    c.raw = [] ∧ c.takes event = [] := by
  rcases unheard with failed | late
  · rcases ending.connectFailed.mp failed with ⟨rfl | rfl, phase⟩ | ⟨rfl, bare⟩
    · exact ⟨(underway.silent phase).2, rfl⟩
    · exact ⟨(underway.silent phase).2, rfl⟩
    · exact ⟨bare, rfl⟩
  · obtain ⟨rfl, phase⟩ := ending.tcpTimeout.mp late
    exact ⟨(underway.silent phase).2, rfl⟩

theorem historyDecidesOutcome (C : Capability κ) (k : κ) (address : UInt32) (port : UInt16)
    (timeout start : Nat) (events : List (Event × Nat)) (fetchedAt : UInt64) :
    let first := Connection.new address port k timeout start
    let last := first.run C events
    let log := first.transcript C events
    let pieces := first.absorbed C events
    (first.withLog []).run C.logged events = last.withLog log ∧
    last.raw = pieces.flatten ∧ fed log = pieces ∧
    (last.isTerminal = true → ∃ before event now after code,
      events = before ++ (event, now) :: after ∧ (first.run C before).isTerminal = false ∧
      first.run C (before ++ [(event, now)]) = last ∧
      last.result = some code ∧ Ending (first.run C before) event log code ∧
      (last.takeOutcome fetchedAt).1 = some ⟨address, port, code, pieces.flatten, fetchedAt⟩ ∧
      (code = .connectFailed ∨ code = .tcpTimeout → pieces.flatten = [])) := by
  intro first last log pieces
  obtain ⟨feeds, raw, sameAddress, samePort⟩ := runTakes C first events
  have raw : last.raw = pieces.flatten := raw
  refine ⟨runLogged C first events, raw, feeds, fun ended => ?_⟩
  obtain ⟨before, event, now, after, split, runs, same, said⟩ := closingEvent C rfl ended
  obtain ⟨spoken, answer, move, grown⟩ := lastMove C first before event now
  rw [same] at move
  have underway := runUnderway C (rfl : first.raw = []) runs
  obtain ⟨code, result, ending⟩ := moveEnding move runs ended underway
  rw [← grown, said] at ending
  refine ⟨before, event, now, after, code, split, runs, same, result, ending, ?_, fun unheard => ?_⟩
  · have result : last.result = some code := result
    have sameAddress : last.address = address := sameAddress
    have samePort : last.port = port := samePort
    rw [takeOutcome, ended, result, sameAddress, samePort, raw]
  · obtain ⟨bare, none⟩ := endingBare underway ending unheard
    have bytes : last.raw = (first.run C before).raw ++ ((first.run C before).takes event).flatten :=
      (moveTakes move).2.1
    rw [← raw, bytes, bare, none]
    rfl

theorem twoPiecesCompleteWithBoth :
    let script : Script := ⟨[.awaiting, .awaiting, .done], [[22, 3, 1]], false⟩
    let first := Connection.new 0x0A000001 443 script 5000 0
    let events := [(.readable [7], 1), (.writable, 2), (.readable [22], 3), (.readable [2, 0], 4),
      (.readable [9], 5)]
    let last := first.run Script.capability events
    last.isTerminal = true ∧ fed (first.transcript Script.capability events) = [[22], [2, 0]] ∧
    (last.takeOutcome 99).1 = some ⟨0x0A000001, 443, .tlsCompleted, [22, 2, 0], 99⟩ ∧
    ∃ before event now after,
      events = before ++ (event, now) :: after ∧
      Ending (first.run Script.capability before) event (first.transcript Script.capability events)
        .tlsCompleted := by
  intro script first events last
  obtain ⟨-, -, feeds, finished⟩ :=
    historyDecidesOutcome Script.capability script 0x0A000001 443 5000 0 events 99
  have ended : last.isTerminal = true := by decide
  obtain ⟨before, event, now, after, code, split, -, -, result, ending, outcome, -⟩ := finished ended
  have completed : code = .tlsCompleted := Option.some.inj (result.symm.trans rfl)
  subst completed
  exact ⟨ended, feeds, outcome, before, event, now, after, split, ending⟩

end Connection
end TlsCensus
