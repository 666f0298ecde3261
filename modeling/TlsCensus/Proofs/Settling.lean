import TlsCensus.Probe.Worker
import TlsCensus.Proofs.Meeting

/-! Where a dialogue ends. It does not depend on when the deeds of the host are done, if each of
its writes is read by itself and no deadline passes before the host holds: then every round
brings the dialogue on along one conversation. -/
namespace TlsCensus

def Outcome.timeless (o : Outcome) : Outcome := { o with fetchedAt := 0 }

namespace Peer

/- No reset before the first read. A host that has closed does nothing further. -/
def hears : List Deed → Bool
  | .reset :: _ => false
  | .write _ :: rest => hears rest
  | _ => true

def isCourteous : Peer → Bool
  | .accepting deeds => hears deeds
  | _ => true

end Peer

namespace Dialogue
open Connection
variable {κ : Type} {C : Capability κ} {d : Dialogue κ} {now : Nat}

/-! Whatever a round does, it reaches the connection as a run of events. -/

def Reached (C : Capability κ) (d e : Dialogue κ) : Prop := ∃ events, e.connection = d.connection.run C events

theorem Reached.refl (C : Capability κ) (d : Dialogue κ) : Reached C d d := ⟨[], rfl⟩

theorem Reached.trans {e f : Dialogue κ} (first : Reached C d e) (second : Reached C e f) : Reached C d f := by
  obtain ⟨before, here⟩ := first
  obtain ⟨after, there⟩ := second
  exact ⟨before ++ after, by rw [there, here, runAppend]⟩

theorem stepReached (C : Capability κ) (event : Event) (now : Nat) (d : Dialogue κ) :
    Reached C d (d.step C event now).2 := ⟨[(event, now)], rfl⟩

theorem applyReached (C : Capability κ) (action : Action) (now : Nat) (d : Dialogue κ) :
    Reached C d (d.apply C action now) := by
  cases action with
  | none | close => exact .refl C d
  | send data =>
    simp only [apply]
    split
    · exact ⟨[], rfl⟩
    · exact stepReached C .sendFailed now _

theorem readReached (C : Capability κ) (r : Readiness) (now : Nat) (d : Dialogue κ) :
    Reached C d (d.readEvent C r now).2 := by
  unfold readEvent
  split
  · split
    · exact stepReached C .error now d
    · exact .refl C d
  · split
    · exact stepReached C .error now _
    · rename_i data status link _
      have heard : Reached C d (if data.isEmpty then (Action.none, { d with link := link })
          else { d with link := link }.step C (.readable data) now).2 := by
        split
        · exact ⟨[], rfl⟩
        · exact stepReached C (.readable data) now _
      dsimp only
      generalize (if data.isEmpty then (Action.none, ({ d with link := link } : Dialogue κ))
          else { d with link := link }.step C (.readable data) now) = answered at heard
      cases status with
      | «open» => exact heard
      | closed | failed =>
        dsimp only
        split
        · exact heard
        · exact heard.trans ((applyReached C _ now _).trans (stepReached C _ now _))

theorem driveReached (C : Capability κ) (r : Readiness) (now : Nat) (d : Dialogue κ) : Reached C d (d.drive C r now) := by
  refine Reached.trans ?_ (stepReached C .tick now _)
  unfold handle
  split
  · exact .refl C d
  · dsimp only
    split
    · refine Reached.trans ?_ (applyReached C _ now _)
      unfold connectEvent
      split
      · exact stepReached C .error now d
      · split
        · exact .refl C d
        · split <;> exact stepReached C _ now d
    · exact (readReached C r now d).trans (applyReached C _ now _)

theorem reachedSpec {e : Dialogue κ} (reached : Reached C d e) :
    e.connection.address = d.connection.address ∧ e.connection.port = d.connection.port ∧
    (d.connection.isTerminal = false → e.connection.isTerminal = true → e.connection.result.isSome = true) := by
  obtain ⟨events, here⟩ := reached
  obtain ⟨-, -, address, port⟩ := runTakes C d.connection events
  rw [here]
  exact ⟨address, port, runResult⟩

def ahead (l : Link) : List Deed :=
  l.inbox.map .write ++
    match l.stage with
    | .asked (.accepting deeds) | .joined deeds => deeds
    | .asked _ => []
    | .closed => [.close]
    | .broken => [.reset]

def greet (C : Capability κ) (room : Nat) (c : Connection κ) (unread : Nat) (deeds : List Deed) : Connection κ :=
  if c.wantsWrite then
    let (c, sent) := c.meet C room .writable
    c.converse C room (unread + sent) deeds
  else c.converse C room unread deeds

def settle (C : Capability κ) (d : Dialogue κ) : Connection κ :=
  let c := d.connection.undated
  match d.link.stage with
  | .asked .silent => c.late C
  | .asked .refusing => (c.transition C .error 0).2
  | .broken =>
    if c.wantsWrite then (c.transition C .error 0).2
    else c.converse C d.link.room d.link.unread (ahead d.link)
  | _ => greet C d.link.room c d.link.unread (ahead d.link)

theorem greetOver {c : Connection κ} (ended : c.isTerminal = true) (room unread : Nat) (deeds : List Deed) :
    greet C room c unread deeds = c := by
  unfold greet
  split
  · rw [meetOver ended]
    exact converseOver ended room _ deeds
  · exact converseOver ended room unread deeds

theorem settleOver (ended : d.connection.isTerminal = true) : d.settle C = d.connection.undated := by
  have same : d.connection.undated.isTerminal = true := ended
  unfold settle
  dsimp only
  split
  · exact congrArg Prod.snd (transitionOver same)
  · exact congrArg Prod.snd (transitionOver same)
  · split
    · exact congrArg Prod.snd (transitionOver same)
    · exact converseOver same _ _ _
  · exact greetOver same _ _ _

theorem settleNames (C : Capability κ) (d : Dialogue κ) :
    (d.settle C).address = d.connection.address ∧ (d.settle C).port = d.connection.port := by
  unfold settle greet
  dsimp only
  split
  · exact transitionNames C _ _ _
  · exact transitionNames C _ _ _
  · split
    · exact transitionNames C _ _ _
    · exact converseNames C _ _ _ _
  · split
    · have named := meetNames C d.link.room .writable d.connection.undated
      have further := converseNames C d.link.room (d.connection.undated.meet C d.link.room .writable).1
        (d.link.unread + (d.connection.undated.meet C d.link.room .writable).2) (ahead d.link)
      exact ⟨further.1.trans named.1, further.2.trans named.2⟩
    · exact converseNames C _ _ _ _

structure Fit (d : Dialogue κ) : Prop where
  filled : ∀ data ∈ d.link.inbox, data ≠ []
  asked : ∀ peer, d.link.stage = .asked peer → d.connection.wantsWrite = true ∧ d.link.inbox = []
  unheard : d.connection.wantsWrite = true → d.link.unread = 0 ∧
    ∀ deeds, d.link.stage = .asked (.accepting deeds) ∨ d.link.stage = .joined deeds → Peer.hears deeds = true

theorem greetRead {c : Connection κ} (met : c.wantsWrite = false) {room unread : Nat} {held : List Bytes}
    {rest : List Deed} : greet C room c (unread + 1) (held.map .write ++ .read :: rest) =
      greet C room c unread (held.map .write ++ rest) := by
  simp only [greet, met, Bool.false_eq_true, if_false, converseRead]

theorem greetClose {c : Connection κ} {room unread : Nat} {held : List Bytes} {rest : List Deed} :
    greet C room c unread (held.map .write ++ .close :: rest) =
      greet C room c unread (held.map .write ++ [.close]) := by
  simp only [greet, converseClose rest]

theorem greetWrite {c : Connection κ} {room unread : Nat} {held : List Bytes} {data : Bytes} {rest : List Deed} :
    greet C room c unread ((if data.isEmpty then held else held ++ [data]).map .write ++ rest) =
      greet C room c unread (held.map .write ++ .write data :: rest) := by
  cases empty : data.isEmpty with
  | true =>
    have skipped (c : Connection κ) (unread : Nat) : c.converse C room unread (held.map .write ++ rest) =
        c.converse C room unread (held.map .write ++ .write data :: rest) :=
      converseHeld fun c sent => by rw [converse, if_pos empty]
    simp only [greet, if_true, skipped]
  | false => simp

theorem Fit.sentMet (fit : d.Fit) (sent : d.link.unread ≠ 0) : d.connection.wantsWrite = false := by
  cases waits : d.connection.wantsWrite with
  | false => rfl
  | true => exact absurd (fit.unheard waits).1 sent

theorem Fit.resetMet (fit : d.Fit) (rest : List Deed) (resets : d.link.stage = .joined (.reset :: rest)) :
    d.connection.wantsWrite = false := by
  cases waits : d.connection.wantsWrite with
  | false => rfl
  | true => exact absurd ((fit.unheard waits).2 _ (.inr resets)) (by simp [Peer.hears])

theorem actFit (fit : d.Fit) {after : Link} (acted : d.link.act = some after) :
    ({ d with link := after } : Dialogue κ).Fit := by
  have sent := fit.sentMet
  have resets := fit.resetMet
  obtain ⟨c, address, room, stage, unread, inbox⟩ := d
  obtain ⟨filled, asked, unheard⟩ := fit
  match stage with
  | .asked .silent | .joined [] | .broken => simp [Link.act] at acted
  | .asked .refusing =>
    cases acted
    exact ⟨filled, nofun, fun waits => ⟨(unheard waits).1, by simp⟩⟩
  | .asked (.accepting deeds) =>
    cases acted
    exact ⟨filled, nofun, fun waits => ⟨(unheard waits).1, by simpa using (unheard waits).2⟩⟩
  | .joined (.reset :: rest) =>
    cases acted
    exact ⟨filled, nofun, fun waits => absurd waits (by simp [resets rest rfl])⟩
  | .joined (.read :: rest) | .closed =>
    cases unread with
    | zero => simp [Link.act] at acted
    | succ n =>
      cases acted
      exact ⟨filled, nofun, fun waits => absurd waits (by simp [sent])⟩
  | .joined (.write data :: rest) =>
    cases acted
    refine ⟨fun piece mem => ?_, nofun, fun waits => ⟨(unheard waits).1, ?_⟩⟩
    · simp only at mem
      split at mem
      · exact filled piece mem
      · rename_i some
        rcases List.mem_append.mp mem with old | new
        · exact filled piece old
        · simpa [List.mem_singleton.mp new] using some
    · have heard := (unheard waits).2 _ (.inr rfl)
      simpa [Peer.hears] using heard
  | .joined (.close :: rest) =>
    cases acted
    cases unread <;> exact ⟨filled, nofun, fun waits => ⟨(unheard waits).1, by simp⟩⟩

theorem actSettles (fit : d.Fit) {after : Link} (acted : d.link.act = some after) :
    ({ d with link := after } : Dialogue κ).settle C = d.settle C := by
  have sent := fit.sentMet
  have resets := fit.resetMet
  obtain ⟨c, address, room, stage, unread, inbox⟩ := d
  match stage with
  | .asked .silent | .joined [] | .broken => simp [Link.act] at acted
  | .asked .refusing =>
    cases acted
    have same : c.undated.wantsWrite = true := (fit.asked _ rfl).1
    simp [settle, same]
  | .asked (.accepting deeds) =>
    cases acted
    obtain rfl : inbox = [] := (fit.asked _ rfl).2
    rfl
  | .joined (.reset :: rest) =>
    cases acted
    have heard : c.undated.wantsWrite = false := resets rest rfl
    simp only [settle, greet, ahead, heard, Bool.false_eq_true, if_false, converseReset rest]
  | .joined (.read :: rest) =>
    cases unread with
    | zero => simp [Link.act] at acted
    | succ n =>
      cases acted
      have heard : c.undated.wantsWrite = false := sent n.succ_ne_zero
      exact (greetRead heard).symm
  | .joined (.write data :: rest) =>
    cases acted
    exact greetWrite
  | .joined (.close :: rest) =>
    cases acted
    cases unread with
    | zero => exact greetClose.symm
    | succ n =>
      have heard : c.undated.wantsWrite = false := sent n.succ_ne_zero
      simp only [settle, greet, ahead, heard, Bool.false_eq_true, if_false, converseClose rest, converseLeft heard,
        Nat.add_one_ne_zero]
  | .closed =>
    cases unread with
    | zero => simp [Link.act] at acted
    | succ n =>
      cases acted
      have heard : c.undated.wantsWrite = false := sent n.succ_ne_zero
      simp only [settle, greet, ahead, heard, Bool.false_eq_true, if_false, converseLeft heard]

theorem arriveSettles (fit : d.Fit) (n : Nat) :
    ({ d with link := d.link.arrive n } : Dialogue κ).settle C = d.settle C ∧
    ({ d with link := d.link.arrive n } : Dialogue κ).Fit := by
  induction n generalizing d with
  | zero => exact ⟨rfl, fit⟩
  | succ n ih =>
    simp only [Link.arrive]
    split
    · exact ⟨rfl, fit⟩
    · rename_i after acted
      obtain ⟨same, last⟩ := ih (actFit fit acted)
      exact ⟨same.trans (actSettles fit acted), last⟩

/-! The near end's share: what it does in a round that is served. -/

def readiness (d : Dialogue κ) : Readiness := d.link.readiness d.connection.wantsWrite

theorem seenReadable (heard : d.connection.wantsWrite = false) (seen : d.readiness.isIdle = false) :
    d.readiness.readable = true := by
  unfold readiness Link.readiness at seen ⊢
  split <;> simp_all [Readiness.isIdle]

theorem actSeen (fit : d.Fit) (seen : d.readiness.isIdle = false) {after : Link} (acted : d.link.act = some after) :
    ({ d with link := after } : Dialogue κ).readiness.isIdle = false ∧
    (d.connection.wantsWrite = true → ({ d with link := after } : Dialogue κ).readiness = d.readiness) := by
  obtain ⟨c, address, room, stage, unread, inbox⟩ := d
  have same (waits : c.wantsWrite = true) :
      (⟨c, after⟩ : Dialogue κ).readiness = (⟨c, address, room, stage, unread, inbox⟩ : Dialogue κ).readiness := by
    obtain rfl : unread = 0 := (fit.unheard waits).1
    match stage with
    | .asked _ => simp [readiness, Link.readiness, Readiness.isIdle] at seen
    | .closed | .broken | .joined [] | .joined (.read :: _) => simp [Link.act] at acted
    | .joined (.write data :: rest) | .joined (.close :: rest) =>
      cases acted
      simp [readiness, Link.readiness, waits]
    | .joined (.reset :: rest) => exact absurd (fit.resetMet rest rfl) (by simp [waits])
  refine ⟨?_, same⟩
  cases waits : c.wantsWrite with
  | true => rw [same waits]; exact seen
  | false =>
    match stage with
    | .asked _ => simp [readiness, Link.readiness, Readiness.isIdle] at seen
    | .broken | .joined [] => simp [Link.act] at acted
    | .joined (.read :: _) =>
      cases unread with
      | zero => simp [Link.act] at acted
      | succ n =>
        cases acted
        simpa [readiness, Link.readiness, Readiness.isIdle, waits] using seen
    | .closed =>
      cases unread with
      | zero => simp [Link.act] at acted
      | succ n =>
        cases acted
        simp [readiness, Link.readiness, Readiness.isIdle, waits]
    | .joined (.write data :: rest) =>
      cases acted
      cases empty : data.isEmpty <;> simp_all [readiness, Link.readiness, Readiness.isIdle]
    | .joined (.close :: rest) | .joined (.reset :: rest) =>
      cases acted
      cases unread <;> simp [readiness, Link.readiness, Readiness.isIdle, waits]

theorem arriveSeen (fit : d.Fit) (seen : d.readiness.isIdle = false) (n : Nat) :
    ({ d with link := d.link.arrive n } : Dialogue κ).readiness.isIdle = false ∧
    (d.connection.wantsWrite = true → ({ d with link := d.link.arrive n } : Dialogue κ).readiness = d.readiness) := by
  induction n generalizing d with
  | zero => exact ⟨seen, fun _ => rfl⟩
  | succ n ih =>
    simp only [Link.arrive]
    split
    · exact ⟨seen, fun _ => rfl⟩
    · rename_i after acted
      obtain ⟨still, same⟩ := actSeen fit seen acted
      obtain ⟨last, kept⟩ := ih (actFit fit acted) still
      exact ⟨last, fun waits => (kept waits).trans (same waits)⟩

/- What the poll has seen still holds when it is acted on. -/
theorem handleSeen (C : Capability κ) (fit : d.Fit) (seen : d.readiness.isIdle = false) (n now : Nat) :
    let e : Dialogue κ := { d with link := d.link.arrive n }
    e.handle C d.readiness now = e.handle C e.readiness now := by
  intro e
  obtain ⟨still, same⟩ := arriveSeen fit seen n
  have still : e.readiness.isIdle = false := still
  cases waits : d.connection.wantsWrite with
  | true => rw [same waits]
  | false =>
    have heard : e.connection.wantsWrite = false := waits
    have before := seenReadable waits seen
    have after := seenReadable heard still
    simp only [handle, seen, still, heard, readEvent, before, after, Bool.true_or, Bool.not_true, Bool.false_eq_true, if_false]

def AtRest (d : Dialogue κ) : Prop := d.link.act = none ∧ d.readiness.isIdle = true

instance (d : Dialogue κ) : Decidable d.AtRest := inferInstanceAs (Decidable (_ ∧ _))

/- One write at most is read at a time, and a deadline passes at rest only. -/
structure Served (C : Capability κ) (r : Readiness) (now : Nat) (d : Dialogue κ) : Prop where
  single : d.connection.wantsWrite = false → d.link.inbox.length ≤ 1
  patient : (d.handle C r now).connection.isTerminal = false →
    (d.handle C r now).connection.timeout < now - (d.handle C r now).connection.changedAt → (d.handle C r now).AtRest

instance (C : Capability κ) (r : Readiness) (now : Nat) (d : Dialogue κ) : Decidable (d.Served C r now) :=
  decidable_of_iff (_ ∧ _) ⟨fun both => ⟨both.1, both.2⟩, fun served => ⟨served.single, served.patient⟩⟩

def meeting (C : Capability κ) (event : Event) (now : Nat) (d : Dialogue κ) : Dialogue κ :=
  (d.step C event now).2.apply C (d.step C event now).1 now

theorem meetingMeets (C : Capability κ) (event : Event) (timely : event ≠ .tick) (now : Nat) (d : Dialogue κ)
    (up : d.link.stage ≠ .broken) :
    (d.meeting C event now).connection.undated = (d.connection.undated.meet C d.link.room event).1 ∧
    (d.meeting C event now).link =
      { d.link with unread := d.link.unread + (d.connection.undated.meet C d.link.room event).2 } := by
  have same := transitionUndated C d.connection event timely now
  unfold meeting step meet
  rw [same]
  cases d.connection.transition C event now with
  | mk action c =>
    cases action with
    | none | close => exact ⟨rfl, rfl⟩
    | send data =>
      have failed := transitionUndated C c .sendFailed (by simp) now
      simp only [apply, Link.send, up, false_or]
      by_cases long : d.link.room < data.length
      · simp [long, step, failed]
      · simp [long]

theorem meetingLeaves {event : Event} (leaves : event = .hangup ∨ event = .error) (d : Dialogue κ) (now : Nat) :
    d.meeting C event now = (d.step C event now).2 := by
  have silent : ∀ data, (d.step C event now).1 ≠ .send data := by
    intro data
    obtain ⟨spoken, move⟩ := transitionMoves C d.connection event now
    change (d.connection.transition C event now).1 ≠ .send data
    generalize d.connection.transition C event now = after at move
    rcases leaves with rfl | rfl <;> cases move <;> simp [finish]
  unfold meeting
  cases answer : (d.step C event now).1 with
  | none | close => rfl
  | send data => exact absurd answer (silent data)

theorem meetLeaves {c : Connection κ} (waits : c.wantsWrite = true) (room : Nat) :
    (c.meet C room .writable).1.wantsWrite = false := by
  have left := writableLeaves C (c := c) (by simpa [wantsWrite] using waits) 0
  unfold meet
  split <;> rename_i answer <;> rw [answer] at left
  · split
    · exact wantsWriteOnce left 0
    · exact left
  · exact left

theorem settleMet (met : d.connection.wantsWrite = false) (deeds : List Deed) (whole : ahead d.link = deeds)
    (joined : ∀ peer, d.link.stage ≠ .asked peer) :
    d.settle C = d.connection.undated.converse C d.link.room d.link.unread deeds := by
  have same : d.connection.undated.wantsWrite = false := met
  unfold settle greet
  rw [whole]
  dsimp only
  split
  · rename_i stage; exact absurd stage (joined _)
  · rename_i stage; exact absurd stage (joined _)
  · rw [if_neg (by simp [same])]
  · rw [if_neg (by simp [same])]

theorem writableSettles (fit : d.Fit) (waits : d.connection.wantsWrite = true)
    (up : (∃ deeds, d.link.stage = .joined deeds) ∨ d.link.stage = .closed) (now : Nat) :
    (d.meeting C .writable now).settle C = d.settle C ∧ (d.meeting C .writable now).Fit := by
  have whole : d.link.stage ≠ .broken := by rcases up with ⟨deeds, stage⟩ | stage <;> simp [stage]
  have joined : ∀ peer, d.link.stage ≠ .asked peer := by rcases up with ⟨deeds, stage⟩ | stage <;> simp [stage]
  obtain ⟨connection, link⟩ := meetingMeets C .writable (by simp) now d whole
  have same : d.connection.undated.wantsWrite = true := waits
  have left : (d.meeting C .writable now).connection.wantsWrite = false := by
    have gone := meetLeaves (C := C) same d.link.room
    rw [← connection] at gone
    exact gone
  refine ⟨?_, ?_, ?_, fun again => absurd again (by simp [left])⟩
  · rw [settleMet left (ahead d.link) (by rw [link]; rfl) (by rw [link]; exact joined), connection, link]
    unfold settle greet
    dsimp only
    split
    · rename_i stage; exact absurd stage (joined _)
    · rename_i stage; exact absurd stage (joined _)
    · rename_i stage; exact absurd stage whole
    · rw [if_pos same]
  · rw [link]; exact fit.filled
  · rw [link]; exact fun peer stage => absurd stage (joined peer)

theorem applyOver (ended : d.connection.isTerminal = true) (action : Action) (now : Nat) :
    (d.apply C action now).connection = d.connection := by
  cases action with
  | none | close => rfl
  | send data =>
    simp only [apply]
    split
    · rfl
    · simp only [step, transitionOver ended]

theorem meetingStays (heard : d.connection.wantsWrite = false) (event : Event) (now : Nat) :
    (d.meeting C event now).connection.wantsWrite = false := by
  have first : (d.connection.transition C event now).2.wantsWrite = false := wantsWriteOnce heard now
  simp only [meeting, step]
  generalize d.connection.transition C event now = after at first
  obtain ⟨action, c⟩ := after
  cases action with
  | none | close => exact first
  | send data =>
    simp only [apply]
    split
    · exact first
    · simp only [step]
      exact wantsWriteOnce first now

theorem brokenMeets {c : Connection κ} (running : c.isTerminal = false) (heard : c.wantsWrite = false) {data : Bytes}
    (filled : data ≠ []) {l : Link} (broken : l.stage = .broken) (now : Nat) :
    (((⟨c, l⟩ : Dialogue κ).meeting C (.readable data) now).connection.transition C .error now).2.undated =
      ((c.undated.meet C l.room (.readable data)).1.transition C .error 0).2 := by
  have same := transitionUndated C c (.readable data) (by simp) now
  have unsent := unsentLeaves (C := C) running heard filled now
  have error (c : Connection κ) : (c.undated.transition C .error 0).2 = (c.transition C .error now).2.undated :=
    congrArg Prod.snd (transitionUndated C c _ (by simp) now)
  have failed (c : Connection κ) : (c.undated.transition C .sendFailed 0).2 = (c.transition C .sendFailed now).2.undated :=
    congrArg Prod.snd (transitionUndated C c _ (by simp) now)
  simp only [meeting, step, meet, same]
  generalize c.transition C (.readable data) now = after at unsent
  obtain ⟨action, c⟩ := after
  cases action with
  | none | close => exact (error c).symm
  | send out =>
    simp only [apply, Link.send, broken, true_or, if_true, step]
    split
    · rw [failed, error]
    · rw [error, ← unsent]

section Leaving
variable {c : Connection κ} (address : UInt32) (room unread : Nat) {data : Bytes}
  (running : c.isTerminal = false) (heard : c.wantsWrite = false) (filled : data ≠ [])

include heard filled in
theorem joinedSettles (deeds : List Deed) (now : Nat) :
    let d : Dialogue κ := ⟨c, address, room, .joined deeds, unread, [data]⟩
    let e := (⟨c, address, room, .joined deeds, unread, []⟩ : Dialogue κ).meeting C (.readable data) now
    e.settle C = d.settle C ∧ e.Fit := by
  intro d e
  obtain ⟨connection, link⟩ := meetingMeets C (.readable data) (by simp) now
    (⟨c, address, room, .joined deeds, unread, []⟩ : Dialogue κ) (by simp)
  have connection : e.connection.undated = (c.undated.meet C room (.readable data)).1 := connection
  have link : e.link = ⟨address, room, .joined deeds, unread + (c.undated.meet C room (.readable data)).2, []⟩ := link
  have left : e.connection.wantsWrite = false :=
    (congrArg wantsWrite connection).trans (meetStays (c := c.undated) heard (.readable data))
  refine ⟨?_, by simp [link], by simp [link], fun again => absurd again (by simp [left])⟩
  rw [settleMet left deeds (by simp [link, ahead]) (by simp [link]),
    settleMet (d := d) heard (.write data :: deeds) rfl (by simp [d]), converse,
    if_neg (by simpa using filled), connection, link]

include running heard

theorem leftBare {stage : Link.Stage} (left : stage = .closed ∨ stage = .broken) (now : Nat) :
    let d : Dialogue κ := ⟨c, address, room, stage, unread, []⟩
    let e := (d.readEvent C d.readiness now).2.apply C (d.readEvent C d.readiness now).1 now
    e.settle C = d.settle C ∧ e.connection.isTerminal = true := by
  intro d e
  rcases left with rfl | rfl
  · have answer : e = (d.step C .hangup now).2 := by
      rw [← meetingLeaves (.inl rfl) d now]
      simp [e, d, readEvent, readiness, heard, Link.readiness, Link.read, running, apply, meeting]
    have spent : e.connection.isTerminal = true := answer ▸ leavingEnds heard (.inl rfl) now
    refine ⟨?_, spent⟩
    rw [settleOver spent, answer, settleMet (d := d) heard [.close] rfl (by simp [d]), converse]
    exact (congrArg Prod.snd (transitionUndated C c _ (by simp) now)).symm
  · have answer : e = (d.step C .error now).2 := by
      rw [← meetingLeaves (.inr rfl) d now]
      simp [e, d, readEvent, readiness, heard, Link.readiness, Link.read, meeting]
    have spent : e.connection.isTerminal = true := answer ▸ leavingEnds heard (.inr rfl) now
    refine ⟨?_, spent⟩
    rw [settleOver spent, answer, settleMet (d := d) heard [.reset] rfl (by simp [d]), converse]
    exact (congrArg Prod.snd (transitionUndated C c _ (by simp) now)).symm

include filled

theorem leftRead {stage : Link.Stage} (left : stage = .closed ∨ stage = .broken) (now : Nat) :
    let d : Dialogue κ := ⟨c, address, room, stage, unread, [data]⟩
    let e := (d.readEvent C d.readiness now).2.apply C (d.readEvent C d.readiness now).1 now
    e.settle C = d.settle C ∧ e.connection.isTerminal = true := by
  intro d e
  let m := (⟨c, address, room, stage, unread, []⟩ : Dialogue κ).meeting C (.readable data) now
  have met : m.connection.wantsWrite = false := meetingStays heard _ now
  have told (event : Event) (leaves : event = .hangup ∨ event = .error)
      (answer : d.readEvent C d.readiness now = if (c.transition C (.readable data) now).2.isTerminal then
        (⟨c, address, room, stage, unread, []⟩ : Dialogue κ).step C (.readable data) now else m.step C event now) :
      e.connection = (m.connection.transition C event now).2 := by
    simp only [e, answer]
    split
    · rename_i spent
      have same : m.connection = (c.transition C (.readable data) now).2 := applyOver spent _ now
      rw [same, transitionOver spent]
      exact same
    · exact congrArg connection (meetingLeaves leaves m now)
  rcases left with rfl | rfl
  · have answer := told .hangup (.inl rfl) (by
      simp [d, readEvent, readiness, heard, Link.readiness, Link.read, filled, m, meeting, step])
    have spent : e.connection.isTerminal = true := answer ▸ leavingEnds met (.inl rfl) now
    have connection := (meetingMeets C (.readable data) (by simp) now
      (⟨c, address, room, .closed, unread, []⟩ : Dialogue κ) (by simp)).1
    have gone := congrArg Prod.snd (transitionUndated C m.connection .hangup (by simp) now)
    refine ⟨?_, spent⟩
    rw [settleOver spent, answer, settleMet (d := d) heard [.write data, .close] rfl (by simp [d])]
    simp only [converse, if_neg (mt List.isEmpty_iff.mp filled)]
    exact gone.symm.trans (by rw [show m.connection.undated = _ from connection])
  · have answer := told .error (.inr rfl) (by
      simp [d, readEvent, readiness, heard, Link.readiness, Link.read, filled, m, meeting, step])
    have spent : e.connection.isTerminal = true := answer ▸ leavingEnds met (.inr rfl) now
    refine ⟨?_, spent⟩
    rw [settleOver spent, answer, settleMet (d := d) heard [.write data, .reset] rfl (by simp [d])]
    simp only [converse, if_neg (mt List.isEmpty_iff.mp filled)]
    exact brokenMeets running heard filled rfl now

end Leaving

theorem connectSettles (fit : d.Fit) (waits : d.connection.wantsWrite = true)
    (seen : d.readiness.isIdle = false) (now : Nat) :
    let e := (d.connectEvent C d.readiness now).2.apply C (d.connectEvent C d.readiness now).1 now
    e.settle C = d.settle C ∧ (e.connection.isTerminal = false → e.Fit) := by
  intro e
  have writable (up : (∃ deeds, d.link.stage = .joined deeds) ∨ d.link.stage = .closed) : e = d.meeting C .writable now := by
    rcases up with ⟨deeds, stage⟩ | stage <;>
      simp [e, connectEvent, readiness, Link.readiness, Link.takeError, stage, waits, meeting]
  cases stage : d.link.stage with
  | asked peer => simp [readiness, Link.readiness, stage, Readiness.isIdle] at seen
  | joined deeds =>
    rw [writable (.inl ⟨deeds, stage⟩)]
    exact (writableSettles fit waits (.inl ⟨deeds, stage⟩) now).imp_right fun fit _ => fit
  | closed =>
    rw [writable (.inr stage)]
    exact (writableSettles fit waits (.inr stage) now).imp_right fun fit _ => fit
  | broken =>
    have answer : e = (d.step C .error now).2 := by
      rw [← meetingLeaves (.inr rfl) d now]
      simp [e, connectEvent, readiness, Link.readiness, stage, meeting]
    have connecting : d.connection.phase = .connecting := by simpa [wantsWrite] using waits
    have spent : e.connection.isTerminal = true := by
      rw [answer]
      simp [step, transition, connecting, finish, isTerminal, Phase.isTerminal]
    have same : d.connection.undated.wantsWrite = true := waits
    have settled : d.settle C = (d.connection.undated.transition C .error 0).2 := by simp [settle, stage, same]
    refine ⟨?_, fun still => absurd spent (by simp [still])⟩
    rw [settleOver spent, answer, settled]
    exact (congrArg Prod.snd (transitionUndated C d.connection _ (by simp) now)).symm

theorem readSettles (fit : d.Fit) (running : d.connection.isTerminal = false) (heard : d.connection.wantsWrite = false)
    (single : d.link.inbox.length ≤ 1) (seen : d.readiness.isIdle = false) (now : Nat) :
    let e := (d.readEvent C d.readiness now).2.apply C (d.readEvent C d.readiness now).1 now
    e.settle C = d.settle C ∧ (e.connection.isTerminal = false → e.Fit) := by
  obtain ⟨c, address, room, stage, unread, inbox⟩ := d
  obtain ⟨filled, asked, -⟩ := fit
  dsimp only at running heard single filled asked
  have left (gone : stage = .closed ∨ stage = .broken) :
      let d : Dialogue κ := ⟨c, address, room, stage, unread, inbox⟩
      let e := (d.readEvent C d.readiness now).2.apply C (d.readEvent C d.readiness now).1 now
      e.settle C = d.settle C ∧ (e.connection.isTerminal = false → e.Fit) := by
    match inbox, single with
    | [], _ =>
      obtain ⟨same, spent⟩ := leftBare (C := C) address room unread running heard gone now
      exact ⟨same, fun still => absurd spent (by simp [still])⟩
    | [data], _ =>
      obtain ⟨same, spent⟩ := leftRead (C := C) address room unread running heard
        (filled data (by simp)) gone now
      exact ⟨same, fun still => absurd spent (by simp [still])⟩
  cases stage with
  | asked peer => exact absurd (asked peer rfl).1 (by simp [heard])
  | closed => exact left (.inl rfl)
  | broken => exact left (.inr rfl)
  | joined deeds =>
    match inbox, single with
    | [], _ => simp [readiness, Link.readiness, heard, Readiness.isIdle] at seen
    | [data], _ =>
      have some := filled data (by simp)
      have joined := joinedSettles (C := C) address room unread heard some deeds now
      have answer : (⟨c, address, room, .joined deeds, unread, [data]⟩ : Dialogue κ).readEvent C
          (readiness ⟨c, address, room, .joined deeds, unread, [data]⟩) now =
          (⟨c, address, room, .joined deeds, unread, []⟩ : Dialogue κ).step C (.readable data) now := by
        simp [readEvent, readiness, Link.readiness, Link.read, heard, some]
      rw [answer]
      exact joined.imp_right fun fit _ => fit

theorem handleSettles (fit : d.Fit) (running : d.connection.isTerminal = false)
    (single : d.connection.wantsWrite = false → d.link.inbox.length ≤ 1) {r : Readiness}
    {now : Nat} (polled : r.isIdle = true ∨ d.handle C r now = d.handle C d.readiness now) :
    (d.handle C r now).settle C = d.settle C ∧ ((d.handle C r now).connection.isTerminal = false → (d.handle C r now).Fit) := by
  have untouched {r : Readiness} (idle : r.isIdle = true) : (d.handle C r now).settle C = d.settle C ∧
      ((d.handle C r now).connection.isTerminal = false → (d.handle C r now).Fit) := by
    rw [handle, if_pos idle]
    exact ⟨rfl, fun _ => fit⟩
  rcases polled with idle | same
  · exact untouched idle
  rw [same]
  cases idle : d.readiness.isIdle with
  | true => exact untouched idle
  | false =>
    simp only [handle, idle, Bool.false_eq_true, if_false]
    cases waits : d.connection.wantsWrite with
    | true => simpa using connectSettles fit waits idle now
    | false => simpa using readSettles fit running waits (single waits) idle now

theorem restLate (fit : d.Fit) (rests : d.AtRest) : d.settle C = d.connection.undated.late C := by
  obtain ⟨idle, unseen⟩ := rests
  obtain ⟨c, address, room, stage, unread, inbox⟩ := d
  cases stage with
  | asked peer => cases peer <;> simp_all [Link.act, settle]
  | closed | broken => cases waits : c.wantsWrite <;> simp [readiness, Link.readiness, Readiness.isIdle, waits] at unseen
  | joined deeds =>
    cases waits : c.wantsWrite with
    | true => simp [readiness, Link.readiness, Readiness.isIdle, waits] at unseen
    | false =>
      obtain rfl : inbox = [] := by simpa [readiness, Link.readiness, Readiness.isIdle, waits] using unseen
      rw [settleMet waits deeds rfl (by simp)]
      match deeds, unread with
      | [], _ | .read :: _, 0 => rw [converse]
      | .read :: _, _ + 1 | .write _ :: _, _ | .close :: _, _ | .reset :: _, _ => simp [Link.act] at idle

theorem driveSettles (fit : d.Fit) (running : d.connection.isTerminal = false) {r : Readiness}
    (polled : r.isIdle = true ∨ d.handle C r now = d.handle C d.readiness now) (served : d.Served C r now) :
    (d.drive C r now).settle C = d.settle C ∧ ((d.drive C r now).connection.isTerminal = false → (d.drive C r now).Fit) := by
  obtain ⟨same, still⟩ := handleSettles (C := C) fit running served.single polled
  simp only [drive, step]
  cases spent : (d.handle C r now).connection.isTerminal with
  | true =>
    rw [transitionOver spent]
    exact ⟨same, fun runs => absurd spent (by simp [runs])⟩
  | false =>
    by_cases late : (d.handle C r now).connection.timeout < now - (d.handle C r now).connection.changedAt
    · have ended := lateEnds C (d.handle C r now).connection
      rw [tickOverdue late]
      refine ⟨?_, fun runs => absurd ended (by simp [runs])⟩
      rw [settleOver ended, ← lateUndated, ← same, restLate (still spent) (served.patient spent late)]
    · rw [tickInTime C spent (by omega)]
      exact ⟨same, still⟩

end Dialogue

namespace Worker.Setting
open Connection
variable {κ : Type} {E F : Setting κ}

/- A dialogue that has settled has a result; the default is never read. -/
def settled (E : Setting κ) (d : Dialogue κ) : Outcome :=
  let last := d.settle E.handshake
  ⟨last.address, last.port, last.result.getD .tlsError, last.raw, E.finishedAt last.address⟩

def outcome (E : Setting κ) (address : UInt32) : Outcome :=
  match E.start address with
  | .error outcome => outcome
  | .ok (k, link) => E.settled ⟨.new address E.port k E.timeout 0, link⟩

theorem settledTaken {d : Dialogue κ} (ended : d.connection.isTerminal = true) (told : d.connection.result.isSome = true) :
    (d.connection.takeOutcome (E.finishedAt d.connection.address)).1 = some (E.settled d) := by
  obtain ⟨code, found⟩ := Option.isSome_iff_exists.mp told
  rw [settled, Dialogue.settleOver ended]
  simp only [takeOutcome, ended, found, undated, Option.getD_some]

theorem startSpec {address : UInt32} {k : κ} {link : Link} (started : E.start address = .ok (k, link)) :
    link = ⟨address, E.room address, .asked (E.peer address), 0, []⟩ := by
  unfold start at started
  split at started
  · contradiction
  · split at started <;> cases started
    rfl

theorem startFailed {address : UInt32} {o : Outcome} (failed : E.start address = .error o) :
    o.address = address ∧ o.result ≠ .tcpTimeout := by
  unfold start at failed
  split at failed
  · cases failed
    exact ⟨rfl, nofun⟩
  · split at failed <;> cases failed
    exact ⟨rfl, nofun⟩

theorem outcomeAddress (E : Setting κ) (address : UInt32) : (E.outcome address).address = address := by
  unfold outcome
  split
  · exact (startFailed ‹_›).1
  · exact (Dialogue.settleNames E.handshake _).1

structure Alike (E F : Setting κ) (address : UInt32) : Prop where
  handshake : E.handshake = F.handshake
  setUp : E.setUp address = F.setUp address
  reached : E.reached address = F.reached address
  port : E.port = F.port
  timeout : E.timeout = F.timeout
  peer : E.peer address = F.peer address
  room : E.room address = F.room address

theorem outcomeAlike {address : UInt32} (alike : E.Alike F address) :
    (E.outcome address).timeless = (F.outcome address).timeless := by
  unfold outcome start
  rw [← alike.setUp, ← alike.reached, ← alike.port, ← alike.timeout, ← alike.peer, ← alike.room]
  cases E.setUp address with
  | none => rfl
  | some k =>
    cases E.reached address with
    | false => rfl
    | true => simp only [if_true, settled, ← alike.handshake, Outcome.timeless]

end Worker.Setting
end TlsCensus
