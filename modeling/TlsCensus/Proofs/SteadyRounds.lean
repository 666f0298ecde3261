import TlsCensus.Proofs.Probing

/-! A timing that serves every scan: each host gets one deed done in a round, no poll is
interrupted, and the deadline leaves time for all deeds. Then a round finds no more than one
write to be read, and a deadline passes only where the host has nothing left that it can do. -/
namespace TlsCensus

def Link.left (l : Link) : Nat :=
  match l.stage with
  | .asked .refusing => 1
  | .asked (.accepting deeds) => deeds.length + 1
  | .joined deeds => deeds.length
  | _ => 0

namespace Connection
variable {κ : Type} {c : Connection κ}

theorem transitionClock (C : Capability κ) (c : Connection κ) (event : Event) (now : Nat) :
    let after := (c.transition C event now).2
    after.timeout = c.timeout ∧ (after.changedAt = now ∨ after.changedAt = c.changedAt) := by
  obtain ⟨spoken, move⟩ := transitionMoves C c event now
  obtain ⟨timeout, changed⟩ := moveClock move
  refine ⟨timeout, ?_⟩
  rw [changed]
  split
  · exact .inl rfl
  · exact .inr rfl

theorem writableClock (C : Capability κ) (connecting : c.phase = .connecting) (now : Nat) :
    (c.transition C .writable now).2.isTerminal = true ∨ (c.transition C .writable now).2.changedAt = now := by
  rw [writableStarts connecting]
  obtain ⟨spoken, move⟩ : ∃ spoken, Move C c now .writable spoken (c.startHandshake C now) := startMoves C connecting
  generalize c.startHandshake C now = after at move
  cases move with
  | spent terminal => simp [isTerminal, connecting, Phase.isTerminal] at terminal
  | idle handshaking => simp [connecting] at handshaking
  | greeted => exact .inr rfl
  | refused _ lost | broken _ lost => rcases lost with lost | lost <;> contradiction
  | _ => exact .inl rfl

end Connection

namespace Dialogue
open Connection
variable {κ : Type} {C : Capability κ} {d : Dialogue κ} {pace timeout now later : Nat}

theorem meetingClock (C : Capability κ) (event : Event) (now : Nat) (d : Dialogue κ) :
    let e := d.meeting C event now
    e.connection.timeout = d.connection.timeout ∧
    (e.connection.changedAt = now ∨ e.connection.changedAt = d.connection.changedAt) := by
  have first := transitionClock C d.connection event now
  simp only [meeting, step]
  generalize d.connection.transition C event now = after at first
  obtain ⟨action, c⟩ := after
  cases action with
  | none | close => exact first
  | send data =>
    simp only [apply]
    split
    · exact first
    · have second := transitionClock C c .sendFailed now
      refine ⟨second.1.trans first.1, ?_⟩
      rcases second.2 with here | same
      · exact .inl here
      · exact first.2.imp same.trans same.trans

theorem greetingClock (waits : d.connection.wantsWrite = true) (now : Nat) :
    let e := d.meeting C .writable now
    e.connection.isTerminal = true ∨ e.connection.changedAt = now := by
  have first := writableClock C (c := d.connection) (by simpa [wantsWrite] using waits) now
  simp only [meeting, step]
  generalize d.connection.transition C .writable now = after at first
  obtain ⟨action, c⟩ := after
  cases action with
  | none | close => exact first
  | send data =>
    simp only [apply]
    split
    · exact first
    · rcases first with spent | here
      · left
        simpa only [step, transitionOver (show c.isTerminal = true from spent)] using spent
      · right
        rcases (transitionClock C c .sendFailed now).2 with again | same
        · exact again
        · exact same.trans here

/- Between rounds: whatever came has been seen, and the host has time for its deeds or waits. -/
structure Calm (pace timeout now : Nat) (d : Dialogue κ) : Prop where
  read : d.link.inbox = []
  stage : (d.connection.wantsWrite = true ∧ ∃ peer, d.link.stage = .asked peer) ∨
    (d.connection.wantsWrite = false ∧ ∃ deeds, d.link.stage = .joined deeds)
  deadline : d.connection.timeout = timeout
  whole : pace * d.link.left ≤ timeout
  inTime : d.link.act = none ∨ now + pace * d.link.left ≤ d.connection.changedAt + timeout

theorem Calm.readinessIdle (calm : d.Calm pace timeout now) : d.readiness.isIdle = true := by
  rcases calm.stage with ⟨waits, peer, stage⟩ | ⟨heard, deeds, stage⟩
  · simp [readiness, Link.readiness, stage, Readiness.isIdle]
  · simp [readiness, Link.readiness, stage, heard, calm.read, Readiness.isIdle]

theorem Calm.overdueAtRest (calm : d.Calm pace timeout now) (late : d.connection.timeout < now - d.connection.changedAt) :
    d.AtRest := by
  refine ⟨?_, calm.readinessIdle⟩
  rcases calm.inTime with none | inTime
  · exact none
  · have same := calm.deadline
    omega

section Handling
variable {c : Connection κ} {address : UInt32} {room unread : Nat} {deeds : List Deed}

theorem roundSpent {rounds : Nat} (inTime : now + pace * (rounds + 1) ≤ c.changedAt + timeout) (soon : later ≤ now + pace) :
    later + pace * rounds ≤ c.changedAt + timeout := by
  rw [Nat.mul_add] at inTime
  omega

theorem acceptCalm (waits : c.wantsWrite = true) (deadline : c.timeout = timeout) (whole : pace * deeds.length ≤ timeout)
    (later : Nat) :
    let e : Dialogue κ := ⟨c, address, room, .joined deeds, unread, []⟩
    (e.handle C e.readiness later).connection.isTerminal = true ∨ (e.handle C e.readiness later).Calm pace timeout later := by
  intro e
  have writable : e.handle C e.readiness later = e.meeting C .writable later := by
    simp [e, handle, readiness, Link.readiness, Readiness.isIdle, waits, connectEvent, Link.takeError, meeting]
  rw [writable]
  rcases greetingClock (C := C) (d := e) waits later with spent | dated
  · exact .inl spent
  · obtain ⟨connection, link⟩ := meetingMeets C .writable (by simp) later e (by simp [e])
    have heard : (e.meeting C .writable later).connection.wantsWrite = false := by
      have gone := meetLeaves (C := C) (c := c.undated) waits room
      rw [← connection] at gone
      exact gone
    refine .inr ⟨by rw [link], .inr ⟨heard, deeds, by rw [link]⟩, (meetingClock C _ _ e).1.trans deadline, ?_, .inr ?_⟩
    · rw [link]
      exact whole
    · rw [link, dated]
      exact Nat.add_le_add_left whole later

theorem writeCalm (heard : c.wantsWrite = false) (deadline : c.timeout = timeout)
    (whole : pace * deeds.length ≤ timeout) (inTime : later + pace * deeds.length ≤ c.changedAt + timeout) {data : Bytes}
    (filled : data ≠ []) :
    let e : Dialogue κ := ⟨c, address, room, .joined deeds, unread, [data]⟩
    (e.handle C e.readiness later).connection.isTerminal = true ∨ (e.handle C e.readiness later).Calm pace timeout later := by
  intro e
  let d : Dialogue κ := ⟨c, address, room, .joined deeds, unread, []⟩
  have readable : e.handle C e.readiness later = d.meeting C (.readable data) later := by
    simp [e, d, handle, readiness, Link.readiness, Readiness.isIdle, heard, readEvent, Link.read, filled, meeting]
  rw [readable]
  obtain ⟨-, link⟩ := meetingMeets C (.readable data) (by simp) later d (by simp [d])
  obtain ⟨kept, dated⟩ := meetingClock C (.readable data) later d
  refine .inr ⟨by rw [link], .inr ⟨meetingStays heard _ _, deeds, by rw [link]⟩, kept.trans deadline, ?_, .inr ?_⟩
  · rw [link]
    exact whole
  · rw [link]
    rcases dated with here | same
    · rw [here]
      exact Nat.add_le_add_left whole later
    · rw [same]
      exact inTime

theorem leftOver (running : c.isTerminal = false) (heard : c.wantsWrite = false) {stage : Link.Stage}
    (left : stage = .closed ∨ stage = .broken) (later : Nat) :
    let e : Dialogue κ := ⟨c, address, room, stage, unread, []⟩
    (e.handle C e.readiness later).connection.isTerminal = true := by
  intro e
  have seen : e.readiness.isIdle = false := by
    rcases left with rfl | rfl <;> simp [e, readiness, Link.readiness, Readiness.isIdle, heard]
  have read : e.handle C e.readiness later =
      (e.readEvent C e.readiness later).2.apply C (e.readEvent C e.readiness later).1 later := by
    simp [handle, seen, e, heard]
  rw [read]
  exact (leftBare _ _ _ running heard left later).2

theorem refusedOver (waits : c.wantsWrite = true) (later : Nat) :
    let e : Dialogue κ := ⟨c, address, room, .broken, unread, []⟩
    (e.handle C e.readiness later).connection.isTerminal = true := by
  intro e
  have error : e.handle C e.readiness later = e.meeting C .error later := by
    simp [e, handle, readiness, Link.readiness, Readiness.isIdle, waits, connectEvent, meeting]
  have connecting : c.phase = .connecting := by simpa [wantsWrite] using waits
  rw [error, meetingLeaves (.inr rfl)]
  simp [step, transition, e, connecting, finish, isTerminal, Phase.isTerminal]

end Handling

theorem Calm.idleHandled (calm : d.Calm pace timeout now) (later : Nat) :
    (d.connection.wantsWrite = false → d.link.inbox.length ≤ 1) ∧
    ((d.handle C d.readiness later).connection.isTerminal = true ∨ (d.handle C d.readiness later).Calm pace timeout now) := by
  rw [handle, if_pos calm.readinessIdle, calm.read]
  exact ⟨fun _ => Nat.zero_le _, .inr calm⟩

theorem calmHandles (calm : d.Calm pace timeout now) (running : d.connection.isTerminal = false)
    (soon : later ≤ now + pace) :
    let e : Dialogue κ := { d with link := d.link.arrive 1 }
    (e.connection.wantsWrite = false → e.link.inbox.length ≤ 1) ∧
    ((e.handle C e.readiness later).connection.isTerminal = true ∨ (e.handle C e.readiness later).Calm pace timeout later) := by
  obtain ⟨c, address, room, stage, unread, inbox⟩ := d
  obtain ⟨rfl, staged, deadline, whole, inTime⟩ := calm
  have fewer {n : Nat} (enough : pace * (n + 1) ≤ timeout) : pace * n ≤ timeout :=
    Nat.le_trans (Nat.mul_le_mul_left pace (Nat.le_succ n)) enough
  rcases staged with ⟨waits, peer, rfl⟩ | ⟨heard, deeds, rfl⟩
  · match peer with
    | .silent => exact Calm.idleHandled ⟨rfl, .inl ⟨waits, .silent, rfl⟩, deadline, whole, .inl rfl⟩ later
    | .refusing => exact ⟨fun _ => Nat.zero_le _, .inl (refusedOver waits later)⟩
    | .accepting deeds => exact ⟨fun _ => Nat.zero_le _, acceptCalm waits deadline (fewer whole) later⟩
  · have quiet {deeds : List Deed} {unread : Nat}
        (whole : pace * deeds.length ≤ timeout) (inTime : later + pace * deeds.length ≤ c.changedAt + timeout) :
        (⟨c, address, room, .joined deeds, unread, []⟩ : Dialogue κ).Calm pace timeout later :=
      ⟨rfl, .inr ⟨heard, deeds, rfl⟩, deadline, whole, .inr inTime⟩
    match deeds, unread with
    | [], _ => exact Calm.idleHandled ⟨rfl, .inr ⟨heard, [], rfl⟩, deadline, whole, .inl rfl⟩ later
    | .read :: rest, 0 => exact Calm.idleHandled ⟨rfl, .inr ⟨heard, .read :: rest, rfl⟩, deadline, whole, .inl rfl⟩ later
    | .read :: rest, unread + 1 =>
      have time := roundSpent (inTime.resolve_left (by simp [Link.act])) soon
      exact Calm.idleHandled (quiet (fewer whole) time) later
    | .write data :: rest, _ =>
      have time := roundSpent (inTime.resolve_left (by simp [Link.act])) soon
      cases empty : data.isEmpty with
      | true => simpa [Link.arrive, Link.act, empty] using Calm.idleHandled (quiet (fewer whole) time) later
      | false =>
        refine ⟨fun _ => by simp [Link.arrive, Link.act, empty], ?_⟩
        simpa [Link.arrive, Link.act, empty] using
          writeCalm heard deadline (fewer whole) time (show data ≠ [] by simpa using empty)
    | .close :: rest, 0 => exact ⟨fun _ => Nat.zero_le _, .inl (leftOver running heard (.inl rfl) later)⟩
    | .close :: rest, unread + 1 => exact ⟨fun _ => Nat.zero_le _, .inl (leftOver running heard (.inr rfl) later)⟩
    | .reset :: rest, _ => exact ⟨fun _ => Nat.zero_le _, .inl (leftOver running heard (.inr rfl) later)⟩

theorem calmDrives (calm : d.Calm pace timeout now) (running : d.connection.isTerminal = false) (soon : later ≤ now + pace) :
    let e : Dialogue κ := { d with link := d.link.arrive 1 }
    e.Served C e.readiness later ∧
    ((e.drive C e.readiness later).connection.isTerminal = false → (e.drive C e.readiness later).Calm pace timeout later) := by
  intro e
  obtain ⟨one, handled⟩ := calmHandles (C := C) calm running soon
  refine ⟨⟨one, fun runs late => ?_⟩, fun runs => ?_⟩
  · exact (handled.resolve_left (by simp [e, runs])).overdueAtRest late
  · obtain ⟨before, ticked⟩ := tickSurvived (C := C) (c := (e.handle C e.readiness later).connection) runs
    have same : e.drive C e.readiness later = e.handle C e.readiness later := by simp only [drive, step, ticked]
    rw [same]
    exact handled.resolve_left (by simp [e, before])

end Dialogue

namespace Worker
variable {κ : Type} {E : Setting κ} {w : Worker κ} {pace : Nat}

structure Setting.Steady (E : Setting κ) (pace : Nat) : Prop where
  single : ∀ address n, E.timing.deeds address n = 1
  still : ∀ address n, E.timing.meanwhile address n = 0
  brief : ∀ id n, E.timing.lapse id n < pace
  polled : ∀ id n, E.timing.interrupted id n = false
  patient : ∀ address k link, E.start address = .ok (k, link) → pace * link.left ≤ E.timeout

structure Timely (E : Setting κ) (pace : Nat) (w : Worker κ) : Prop where
  wired : Wired w.slots w.sockets
  running : ∀ d ∈ w.dialogues, d.connection.isTerminal = false
  calm : ∀ d ∈ w.dialogues, d.Calm pace E.timeout w.now

theorem fillTimely (steady : E.Steady pace) (n : Nat) (timely : Timely E pace w) : Timely E pace (fill E n w).2.2 := by
  fun_induction fill E n w with
  | case1 | case2 => exact timely
  | case3 n w free e shard failed => exact ⟨timely.wired, timely.running, timely.calm⟩
  | case4 n w free address shard taken w' outcome ended failure others last filled ih =>
    have rest := ih ⟨timely.wired, timely.running, timely.calm⟩
    rwa [filled] at rest
  | case5 n w free address shard taken w' k link started ih =>
    obtain ⟨opened, still⟩ := occupyDialogues (w := w') E timely.wired address k link
    have fresh := Setting.startSpec started
    have enough := steady.patient address k link started
    refine ih ⟨still, ?_, ?_⟩ <;> rw [opened] <;> intro d mem <;> rcases List.mem_append.mp mem with old | new
    · exact timely.running d old
    · rw [List.mem_singleton.mp new]
      rfl
    · exact timely.calm d old
    · rw [List.mem_singleton.mp new]
      refine ⟨by rw [fresh], .inl ⟨rfl, E.peer address, by rw [fresh]⟩, rfl, enough, .inr ?_⟩
      exact Nat.add_le_add_left enough _

theorem roundTimely (steady : E.Steady pace) (timely : Timely E pace w) :
    (∀ d ∈ w.dialogues, (present E w d).Served E.handshake (polled E w d) (later E w)) ∧
    Timely E pace (w.round E).2 := by
  have soon : later E w ≤ w.now + pace := by
    have := steady.brief w.report.worker w.rounds
    simp only [later]
    omega
  have handled (d : Dialogue κ) (mem : d ∈ w.dialogues) :
      (present E w d).Served E.handshake (polled E w d) (later E w) ∧
      ((driven E w d).connection.isTerminal = false → (driven E w d).Calm pace E.timeout (later E w)) := by
    have come : present E w d = { d with link := d.link.arrive 1 } := by
      rw [present, steady.still, arrived, steady.single]
      rfl
    have seen : polled E w d = (present E w d).readiness := by
      rw [polled, steady.polled, if_neg Bool.false_ne_true, come, arrived, steady.single]
      rfl
    have drives := Dialogue.calmDrives (C := E.handshake) (timely.calm d mem) (timely.running d mem) soon
    rw [← come] at drives
    rwa [driven, seen]
  obtain ⟨-, left, wired⟩ := roundDialogues E timely.wired
  refine ⟨fun d mem => (handled d mem).1, wired, ?_, ?_⟩ <;> rw [left] <;> intro d mem <;>
    obtain ⟨inside, runs⟩ := List.mem_filter.mp mem
  · simpa using runs
  · obtain ⟨old, there, rfl⟩ := List.mem_map.mp inside
    exact (handled old there).2 (by simpa using runs)

theorem timelyServed (steady : E.Steady pace) (timely : Timely E pace w) : Served E w := by
  fun_induction run E w with
  | case1 w e found last filled => exact .failed filled
  | case2 w found next filled drained => exact .drained filled drained
  | case3 w found next filled busy rest ih =>
    have filledTimely := fillTimely steady w.shard.remaining timely
    rw [filled] at filledTimely
    obtain ⟨here, after⟩ := roundTimely steady filledTimely
    exact .busy filled busy here (ih after)

theorem steadyServed (steady : E.Steady pace) (id : Nat) (shard : Sweep) : Served E (.new id shard) :=
  timelyServed steady ⟨⟨.nil, nofun⟩, nofun, nofun⟩

end Worker
end TlsCensus
