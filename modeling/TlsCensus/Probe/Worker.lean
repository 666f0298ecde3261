import TlsCensus.Address.Sweep
import TlsCensus.Probe.Dialogue
import TlsCensus.Probe.Poller
import TlsCensus.Probe.Progress

/-! One worker probes the addresses of its shard, a bounded number at a time. A round fills the
free places, polls all open sockets at once, drives each connection by what its own place of
the poll says and hands the outcomes on in one batch. Workers share nothing but the window
their batches go to, so a worker's run is told by its batches and its counts. -/
namespace TlsCensus

structure WorkerReport where
  worker : Nat
  attempted : Nat
  finished : Nat
  droppedInFlight : Nat
  interrupted : Bool
  deriving DecidableEq, Repr

/-- When things happen: how many deeds the host at an address gets done before a round's poll
answers and how many more before the answer is acted on, how long a worker's round takes, in
any unit, and which polls are interrupted. -/
structure Timing where
  deeds : UInt32 → Nat → Nat := fun _ _ => 1
  meanwhile : UInt32 → Nat → Nat := fun _ _ => 0
  lapse : Nat → Nat → Nat := fun _ _ => 0
  interrupted : Nat → Nat → Bool := fun _ _ => false

/-- What is done to a probed address and what the address does. A handshake that cannot
be set up is `none`. An address that is not `reached` has no connection to begin with.
`finishedAt` is the time its outcome is written down. -/
structure Worker.Setting (κ : Type) where
  handshake : Capability κ
  setUp : UInt32 → Option κ
  reached : UInt32 → Bool := fun _ => true
  peer : UInt32 → Peer
  finishedAt : UInt32 → UInt64
  port : UInt16
  connections : Nat
  timeout : Nat
  storeUnanswered : Bool
  room : UInt32 → Nat := fun _ => 65536
  timing : Timing := {}

structure Slot (κ : Type) where
  connection : Connection κ
  descriptor : Nat
  pollIndex : Nat
  deriving Repr

structure Worker (κ : Type) where
  shard : Sweep
  slots : List (Slot κ)
  sockets : Sockets
  now : Nat
  rounds : Nat
  progress : Progress
  report : WorkerReport
  deriving Repr

structure Worker.Trace where
  batches : List (List Outcome)
  progress : Progress
  report : WorkerReport
  failure : Option SweepError
  deriving DecidableEq, Repr

namespace Worker
variable {κ : Type}

def Setting.places (E : Setting κ) : Nat := max E.connections 1

def Setting.start (E : Setting κ) (address : UInt32) : Except Outcome (κ × Link) :=
  match E.setUp address with
  | none => .error ⟨address, E.port, .tlsError, [], E.finishedAt address⟩
  | some k =>
    if E.reached address then .ok (k, ⟨address, E.room address, .asked (E.peer address), 0, []⟩)
    else .error (.connectFailed address E.port (E.finishedAt address))

def new (id : Nat) (shard : Sweep) : Worker κ := ⟨shard, [], [], 0, 0, .zero, ⟨id, 0, 0, 0, false⟩⟩

def attempt (shard : Sweep) (w : Worker κ) : Worker κ :=
  { w with shard := shard, progress := w.progress.recordAttempt,
           report := { w.report with attempted := w.report.attempted + 1 } }

def count (outcomes : List Outcome) (w : Worker κ) : Worker κ :=
  { w with progress := w.progress.recordAll outcomes,
           report := { w.report with finished := w.report.finished + outcomes.length } }

def occupy (E : Setting κ) (address : UInt32) (k : κ) (link : Link) (w : Worker κ) : Worker κ :=
  let (descriptor, sockets) := w.sockets.connect link
  { w with slots := w.slots ++ [⟨.new address E.port k E.timeout w.now, descriptor, 0⟩], sockets := sockets }

def fill (E : Setting κ) : Nat → Worker κ → Option SweepError × List Outcome × Worker κ
  | 0, w => (none, [], w)
  | n + 1, w =>
    if E.places ≤ w.slots.length then (none, [], w)
    else
      match w.shard.next with
      | (.error e, shard) => (some e, [], { w with shard := shard })
      | (.ok address, shard) =>
        let w := w.attempt shard
        match E.start address with
        | .error outcome =>
          let (failure, rest, w) := fill E n (w.count [outcome])
          (failure, outcome :: rest, w)
        | .ok (k, link) => fill E n (w.occupy E address k link)

def enlist : List (Slot κ) → Poller → List (Slot κ) × Poller
  | [], p => ([], p)
  | slot :: rest, p =>
    let (index, p) := p.register slot.descriptor slot.connection.wantsWrite
    let (rest, p) := enlist rest p
    ({ slot with pollIndex := index } :: rest, p)

def driveAll (C : Capability κ) (p : Poller) (now : Nat) : List (Slot κ) → Sockets → List (Slot κ) × Sockets
  | [], s => ([], s)
  | slot :: rest, s =>
    let d := Dialogue.drive C (p.readiness slot.pollIndex) now ⟨slot.connection, s.link slot.descriptor⟩
    let (rest, s) := driveAll C p now rest (s.put slot.descriptor d.link)
    ({ slot with connection := d.connection } :: rest, s)

def tick (E : Setting κ) (w : Worker κ) : Worker κ :=
  let (slots, poller) := enlist w.slots []
  let sockets := w.sockets.arrive fun address => E.timing.deeds address w.rounds
  let poller := poller.wait (E.timing.interrupted w.report.worker w.rounds) sockets
  let sockets := sockets.arrive fun address => E.timing.meanwhile address w.rounds
  let now := w.now + E.timing.lapse w.report.worker w.rounds + 1
  let (slots, sockets) := driveAll E.handshake poller now slots sockets
  { w with slots := slots, sockets := sockets, now := now, rounds := w.rounds + 1 }

def harvest (E : Setting κ) (w : Worker κ) : List Outcome × Worker κ :=
  let ended := w.slots.filter (·.connection.isTerminal)
  let outcomes := ended.filterMap fun s => (s.connection.takeOutcome (E.finishedAt s.connection.address)).1
  let sockets := ended.foldl (fun sockets slot => sockets.close slot.descriptor) w.sockets
  (outcomes, { w with slots := w.slots.filter (!·.connection.isTerminal), sockets := sockets }.count outcomes)

def round (E : Setting κ) (w : Worker κ) : List Outcome × Worker κ := (w.tick E).harvest E

def batch (E : Setting κ) (outcomes : List Outcome) : List (List Outcome) :=
  let kept := storable E.storeUnanswered outcomes
  if kept.isEmpty then [] else [kept]

/-! A round brings a connection on, ends it or leaves it less time. -/

def weight (slots : List (Slot κ)) (sockets : Sockets) : Nat :=
  sockets.load + slots.countP (·.connection.wantsWrite)

def patience (now : Nat) : List (Slot κ) → Nat
  | [] => 0
  | slot :: rest => (slot.connection.changedAt + slot.connection.timeout + 1 - now) + 1 + patience now rest

theorem enlistKeeps (slots : List (Slot κ)) (p : Poller) (sockets : Sockets) (now : Nat) :
    (enlist slots p).1.length = slots.length ∧ weight (enlist slots p).1 sockets = weight slots sockets ∧
    patience now (enlist slots p).1 = patience now slots := by
  induction slots generalizing p with
  | nil => exact ⟨rfl, rfl, rfl⟩
  | cons slot rest ih =>
    obtain ⟨length, weighs, waits⟩ := ih (p.register slot.descriptor slot.connection.wantsWrite).2
    simp only [weight] at weighs
    simp only [enlist, weight, patience, List.length_cons, List.countP_cons, length, waits, true_and, and_true]
    omega

theorem driveAllComesOn (C : Capability κ) (p : Poller) {now later : Nat} (after : now < later)
    (slots : List (Slot κ)) (sockets : Sockets) :
    let driven := driveAll C p later slots sockets
    weight driven.1 driven.2 < weight slots sockets ∨ (weight driven.1 driven.2 = weight slots sockets ∧
      patience later (driven.1.filter (!·.connection.isTerminal)) + slots.length ≤ patience now slots) := by
  induction slots generalizing sockets with
  | nil => exact .inr ⟨rfl, Nat.le_refl _⟩
  | cons slot rest ih =>
    let d : Dialogue κ := ⟨slot.connection, sockets.link slot.descriptor⟩
    let e := d.drive C (p.readiness slot.pollIndex) later
    have on : d.Onward e := d.driveOnward C (p.readiness slot.pollIndex) later
    have inTime : e.connection.isTerminal = false → later ≤ e.connection.changedAt + e.connection.timeout :=
      d.driveInTime C (p.readiness slot.pollIndex) later
    have stored : (sockets.put slot.descriptor e.link).load + d.link.load ≤ sockets.load + e.link.load :=
      sockets.putLoad slot.descriptor e.link
    have others := ih (sockets.put slot.descriptor e.link)
    have whole : driveAll C p later (slot :: rest) sockets =
      ({ slot with connection := e.connection } :: (driveAll C p later rest (sockets.put slot.descriptor e.link)).1,
        (driveAll C p later rest (sockets.put slot.descriptor e.link)).2) := rfl
    rw [whole]
    generalize driveAll C p later rest (sockets.put slot.descriptor e.link) = driven at others ⊢
    have weighs := on.weight
    have same := on.timeout
    simp only [weight, Dialogue.weight, d] at others weighs stored same ⊢
    simp only [List.countP_cons, List.filter_cons, List.length_cons, patience]
    rcases others with less | ⟨still, waits⟩
    · left; omega
    · rcases weighs with lighter | ⟨equal, dated⟩
      · left; omega
      · rcases Nat.lt_or_eq_of_le stored with less | even
        · left; omega
        · right
          refine ⟨by omega, ?_⟩
          cases ended : e.connection.isTerminal with
          | true => simp; omega
          | false =>
            have := inTime ended
            simp only [Bool.not_false, if_true, patience]
            omega

theorem harvestLightens (E : Setting κ) (w : Worker κ) :
    weight (w.harvest E).2.slots (w.harvest E).2.sockets ≤ weight w.slots w.sockets := by
  have closed (slots : List (Slot κ)) (s : Sockets) :
      (slots.foldl (fun sockets slot => sockets.close slot.descriptor) s).load ≤ s.load := by
    induction slots generalizing s with
    | nil => exact Nat.le_refl _
    | cons slot rest ih => exact Nat.le_trans (ih _) (s.closeLoad slot.descriptor)
  have fewer := (List.filter_sublist (p := fun s : Slot κ => !s.connection.isTerminal) (l := w.slots)).countP_le
    (p := fun s => s.connection.wantsWrite)
  exact Nat.add_le_add (closed _ _) fewer

theorem roundComesOn (E : Setting κ) (w : Worker κ) (busy : w.slots ≠ []) :
    let next := (w.round E).2
    weight next.slots next.sockets < weight w.slots w.sockets ∨
      (weight next.slots next.sockets ≤ weight w.slots w.sockets ∧ patience next.now next.slots < patience w.now w.slots) := by
  intro next
  let arrived := w.sockets.arrive fun address => E.timing.deeds address w.rounds
  let present := arrived.arrive fun address => E.timing.meanwhile address w.rounds
  let poller := (enlist w.slots []).2.wait (E.timing.interrupted w.report.worker w.rounds) arrived
  have later : w.now < w.now + E.timing.lapse w.report.worker w.rounds + 1 := by omega
  have driven := driveAllComesOn E.handshake poller later (enlist w.slots []).1 present
  obtain ⟨length, weighs, waits⟩ := enlistKeeps w.slots [] present w.now
  have lighter : present.load ≤ w.sockets.load := Nat.le_trans (Sockets.arriveLoad _ _) (Sockets.arriveLoad _ _)
  have harvested : weight next.slots next.sockets ≤ weight (w.tick E).slots (w.tick E).sockets :=
    harvestLightens E (w.tick E)
  have some := List.length_pos_iff.mpr busy
  have ticked : w.tick E = { w with
      slots := (driveAll E.handshake poller (w.now + E.timing.lapse w.report.worker w.rounds + 1) (enlist w.slots []).1 present).1,
      sockets := (driveAll E.handshake poller (w.now + E.timing.lapse w.report.worker w.rounds + 1) (enlist w.slots []).1 present).2,
      now := w.now + E.timing.lapse w.report.worker w.rounds + 1, rounds := w.rounds + 1 } := rfl
  have left : patience next.now next.slots = patience (w.tick E).now ((w.tick E).slots.filter (!·.connection.isTerminal)) := rfl
  rw [ticked] at harvested left
  dsimp only at driven harvested left
  rw [left]
  simp only [weight] at driven weighs harvested ⊢
  rw [waits, length] at driven
  omega

theorem fillShrinks (E : Setting κ) (n : Nat) (w : Worker κ) (calm : (fill E n w).1 = none) :
    (fill E n w).2.2 = w ∨ (fill E n w).2.2.shard.remaining < w.shard.remaining := by
  fun_induction fill E n w with
  | case1 => exact .inl rfl
  | case2 => exact .inl rfl
  | case3 => simp at calm
  | case4 n w _ address shard taken w' outcome _ failure rest last found ih =>
    have less := Sweep.remainingNext taken
    have := ih (by rw [found]; exact calm)
    rw [found] at this
    exact .inr (this.elim (fun same => by rw [same]; exact less) (fun h => Nat.lt_trans h less))
  | case5 n w _ address shard taken w' k link _ ih =>
    have less := Sweep.remainingNext taken
    exact .inr ((ih calm).elim (fun same => by rw [same]; exact less)
      (fun h => Nat.lt_trans h less))

def Trace.of (batches : List (List Outcome)) (failure : Option SweepError) (w : Worker κ) : Trace :=
  ⟨batches, w.progress, w.report, failure⟩

/-- Rounds until the shard is drained and nothing is open, or until the shard fails. What
was found while filling before a failure is counted but not handed on. -/
def run (E : Setting κ) (w : Worker κ) : Trace :=
  match _ : fill E w.shard.remaining w with
  | (some e, _, last) => .of [] (some e) last
  | (none, found, next) =>
    if _ : next.slots = [] then .of (batch E found) none next
    else
      let rest := run E (next.round E).2
      { rest with batches := batch E (found ++ (next.round E).1) ++ rest.batches }
termination_by (w.shard.remaining, weight w.slots w.sockets, patience w.now w.slots)
decreasing_by
  rename_i filled drained
  have calm := fillShrinks E w.shard.remaining w (by rw [filled])
  rw [filled] at calm
  simp only [Prod.lex_def]
  rcases calm with same | less
  · have same : next = w := same
    subst same
    refine .inr ⟨rfl, ?_⟩
    rcases roundComesOn E next drained with lighter | ⟨even, sooner⟩
    · exact .inl lighter
    · rcases Nat.lt_or_eq_of_le even with lighter | same
      · exact .inl lighter
      · exact .inr ⟨same, sooner⟩
  · exact .inl less

def stopped (id : Nat) : Trace := ⟨[], .zero, ⟨id, 0, 0, 0, true⟩, none⟩

end Worker
end TlsCensus
