import TlsCensus.Probe.Connection
import TlsCensus.Probe.Peer

/-! A probe at its socket. What the poller says of the socket becomes events of the connection,
and what the connection answers goes out by the socket. -/
namespace TlsCensus

structure Dialogue (κ : Type) where
  connection : Connection κ
  link : Link
  deriving Repr

namespace Dialogue
variable {κ : Type} {C : Capability κ} {now : Nat} {d : Dialogue κ}

def step (C : Capability κ) (event : Event) (now : Nat) (d : Dialogue κ) : Action × Dialogue κ :=
  let (action, connection) := d.connection.transition C event now
  (action, { d with connection := connection })

def connectEvent (C : Capability κ) (r : Readiness) (now : Nat) (d : Dialogue κ) : Action × Dialogue κ :=
  if r.error || r.hangup then d.step C .error now
  else if !r.writable then (.none, d)
  else if d.link.takeError then d.step C .error now
  else d.step C .writable now

def apply (C : Capability κ) (action : Action) (now : Nat) (d : Dialogue κ) : Dialogue κ :=
  match action with
  | .send data =>
    match d.link.send data with
    | (true, link) => { d with link := link }
    | (false, link) => ({ d with link := link }.step C .sendFailed now).2
  | _ => d

/-- What has come is handed on before the end of the connection is told, and what it is
answered is sent first. -/
def readEvent (C : Capability κ) (r : Readiness) (now : Nat) (d : Dialogue κ) : Action × Dialogue κ :=
  if !(r.readable || r.hangup) then
    if r.error then d.step C .error now else (.none, d)
  else
    match d.link.read with
    | (none, link) => { d with link := link }.step C .error now
    | (some (data, status), link) =>
      let d := { d with link := link }
      let (action, d) := if data.isEmpty then (.none, d) else d.step C (.readable data) now
      let ending : Option Event :=
        match status with
        | .open => none
        | .closed => some .hangup
        | .failed => some .error
      match ending with
      | none => (action, d)
      | some event => if d.connection.isTerminal then (action, d) else (d.apply C action now).step C event now

def handle (C : Capability κ) (r : Readiness) (now : Nat) (d : Dialogue κ) : Dialogue κ :=
  if r.isIdle then d
  else
    let (action, d) := if d.connection.wantsWrite then d.connectEvent C r now else d.readEvent C r now
    d.apply C action now

/-- The clock is looked at whatever has happened: it bounds hosts that keep sending. -/
def drive (C : Capability κ) (r : Readiness) (now : Nat) (d : Dialogue κ) : Dialogue κ :=
  ((d.handle C r now).step C .tick now).2

/-! A dialogue comes on when its hello is sent or something is read. Otherwise its deadline
stands, so there is an end to it. -/

def weight (d : Dialogue κ) : Nat := d.link.load + (if d.connection.wantsWrite then 1 else 0)

structure Onward (d e : Dialogue κ) : Prop where
  timeout : e.connection.timeout = d.connection.timeout
  weight : e.weight < d.weight ∨ (e.weight = d.weight ∧ e.connection.changedAt = d.connection.changedAt)

theorem Onward.refl (d : Dialogue κ) : Onward d d := ⟨rfl, .inr ⟨rfl, rfl⟩⟩

theorem Onward.trans {d e f : Dialogue κ} (first : Onward d e) (second : Onward e f) : Onward d f := by
  refine ⟨second.timeout.trans first.timeout, ?_⟩
  rcases first.weight with less | ⟨same, dated⟩ <;> rcases second.weight with lighter | ⟨still, kept⟩
  · exact .inl (Nat.lt_trans lighter less)
  · exact .inl (still ▸ less)
  · exact .inl (same ▸ lighter)
  · exact .inr ⟨still.trans same, kept.trans dated⟩

theorem stepOnward (C : Capability κ) {event : Event} (unread : ∀ data, event ≠ .readable data) (now : Nat)
    (d : Dialogue κ) : Onward d (d.step C event now).2 := by
  obtain ⟨timeout, once, dated⟩ := d.connection.transitionDates C event now
  refine ⟨timeout, ?_⟩
  simp only [weight, step]
  rcases dated with same | ⟨before, after⟩ | ⟨data, here⟩
  · by_cases before : d.connection.wantsWrite <;>
      by_cases after : (d.connection.transition C event now).2.wantsWrite <;> simp_all
  · simp [before, after]
  · exact absurd here (unread data)

theorem sendOnward (data : Bytes) (d : Dialogue κ) : Onward d { d with link := (d.link.send data).2 } :=
  ⟨rfl, .inr ⟨by simp [weight, Link.sendLoad], rfl⟩⟩

theorem applyOnward (C : Capability κ) (action : Action) (now : Nat) (d : Dialogue κ) :
    Onward d (d.apply C action now) := by
  cases action with
  | none | close => exact .refl d
  | send data =>
    have sent := sendOnward data d
    simp only [apply]
    split <;> rename_i link answer <;> rw [answer] at sent
    · exact sent
    · exact sent.trans (stepOnward C (by simp) now _)

theorem connectOnward (C : Capability κ) (r : Readiness) (now : Nat) (d : Dialogue κ) :
    Onward d (d.connectEvent C r now).2 := by
  unfold connectEvent
  split
  · exact stepOnward C (by simp) now d
  · split
    · exact .refl d
    · split <;> exact stepOnward C (by simp) now d

theorem heardOnward (C : Capability κ) (now : Nat) (d : Dialogue κ) {data : Bytes} {link : Link}
    (lighter : link.load < d.link.load) : Onward d ({ d with link := link }.step C (.readable data) now).2 := by
  obtain ⟨timeout, once, -⟩ := d.connection.transitionDates C (.readable data) now
  refine ⟨timeout, .inl ?_⟩
  simp only [weight, step]
  by_cases before : d.connection.wantsWrite <;>
    by_cases after : (d.connection.transition C (.readable data) now).2.wantsWrite <;> simp_all <;> omega

theorem readOnward (C : Capability κ) (r : Readiness) (now : Nat) (d : Dialogue κ) :
    Onward d (d.readEvent C r now).2 := by
  obtain ⟨less, waiting⟩ := d.link.readLoad
  unfold readEvent
  split
  · split
    · exact stepOnward C (by simp) now d
    · exact .refl d
  · have emptied : Onward d { d with link := d.link.read.2 } := by
      refine ⟨rfl, ?_⟩
      rcases Nat.lt_or_eq_of_le less with lighter | same
      · exact .inl (by simp [weight, lighter])
      · exact .inr ⟨by simp [weight, same], rfl⟩
    split <;> rename_i answer <;> simp only [answer] at emptied waiting less
    · exact emptied.trans (stepOnward C (by simp) now _)
    · rename_i data status link
      have heard : Onward d (if data.isEmpty then (Action.none, { d with link := link })
          else { d with link := link }.step C (.readable data) now).2 := by
        split
        · exact emptied
        · rename_i filled
          exact heardOnward C now d (waiting data status rfl (by simpa using filled))
      dsimp only
      generalize (if data.isEmpty then (Action.none, ({ d with link := link } : Dialogue κ))
          else { d with link := link }.step C (.readable data) now) = answered at heard
      cases status with
      | «open» => exact heard
      | closed | failed =>
        dsimp only
        split
        · exact heard
        · exact heard.trans ((applyOnward C _ now _).trans (stepOnward C (by simp) now _))

theorem driveOnward (C : Capability κ) (r : Readiness) (now : Nat) (d : Dialogue κ) :
    Onward d (d.drive C r now) := by
  refine Onward.trans ?_ (stepOnward C (by simp) now _)
  unfold handle
  split
  · exact .refl d
  · dsimp only
    split
    · exact (connectOnward C r now d).trans (applyOnward C _ now _)
    · exact (readOnward C r now d).trans (applyOnward C _ now _)

theorem driveInTime (C : Capability κ) (r : Readiness) (now : Nat) (d : Dialogue κ)
    (runs : (d.drive C r now).connection.isTerminal = false) :
    now ≤ (d.drive C r now).connection.changedAt + (d.drive C r now).connection.timeout := by
  simp only [drive, step, Connection.transition] at runs ⊢
  generalize (d.handle C r now).connection = c at runs ⊢
  split at runs
  · rename_i ended
    rw [ended] at runs
    contradiction
  · rename_i running
    simp only [Connection.expire] at runs
    rw [if_neg running]
    simp only [Connection.expire]
    split
    · rename_i late
      rw [if_pos late] at runs
      contradiction
    · dsimp only
      omega

end Dialogue
end TlsCensus
