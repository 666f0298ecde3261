import TlsCensus.Probe.Peer
import TlsCensus.Proofs.Deadlines
import TlsCensus.Proofs.History

/-! A conversation in which each deed of the host is met as soon as it is done, and the near end
waits for a host that holds. No time passes in it but the deadline of a host that holds. -/
namespace TlsCensus

namespace Connection
variable {κ : Type} {C : Capability κ} {c : Connection κ} {now : Nat} {event : Event}

theorem moveResult {event spoken after} (move : Move C c now event spoken after) (runs : c.isTerminal = false)
    (ended : after.2.isTerminal = true) : after.2.result.isSome = true := by
  cases move with
  | spent terminal => simp [runs] at terminal
  | early | idle | inTime => simp [runs] at ended
  | greeted => contradiction
  | listened handshaking | replied handshaking =>
    simp [isTerminal, handshaking, Phase.isTerminal] at ended
  | _ => rfl

def undated (c : Connection κ) : Connection κ := { c with changedAt := 0 }

def late (C : Capability κ) (c : Connection κ) : Connection κ :=
  (c.transition C .tick (c.changedAt + c.timeout + 1)).2

theorem transitionOver (ended : c.isTerminal = true) : c.transition C event now = (.none, c) := by
  rw [transition.eq_def, if_pos ended]

theorem runResult {events : List (Event × Nat)} (runs : c.isTerminal = false)
    (ended : (c.run C events).isTerminal = true) : (c.run C events).result.isSome = true := by
  induction events using List.reverseRecOn with
  | nil => rw [run, List.foldl_nil, runs] at ended; contradiction
  | append_singleton events step ih =>
    have last : c.run C (events ++ [step]) = ((c.run C events).transition C step.1 step.2).2 := runAppend C c events [step]
    rw [last] at ended ⊢
    cases earlier : (c.run C events).isTerminal with
    | true => rw [transitionOver earlier]; exact ih earlier
    | false =>
      obtain ⟨spoken, move⟩ := transitionMoves C (c.run C events) step.1 step.2
      exact moveResult move earlier ended

theorem transitionUndated (C : Capability κ) (c : Connection κ) (event : Event) (timely : event ≠ .tick) (now : Nat) :
    c.undated.transition C event 0 = ((c.transition C event now).1, (c.transition C event now).2.undated) := by
  cases ended : c.isTerminal with
  | true =>
    have same : c.undated.isTerminal = true := ended
    rw [transitionOver ended, transitionOver same]
  | false =>
    have running : c.undated.isTerminal = false := ended
    rw [transition.eq_def, transition.eq_def C event now, running, ended]
    rcases runningCases ended with phase | phase <;> cases event <;>
      simp only [undated, phase, Bool.false_eq_true, if_false, finish, reduceCtorEq, not_true_eq_false, ne_eq] at timely ⊢
    · unfold startHandshake
      dsimp only
      split
      · rfl
      · split
        · rfl
        · split <;> rfl
    · unfold absorb
      dsimp only
      split
      · rfl
      · rfl
      · split <;> simp only [phase]

theorem lateUndated (C : Capability κ) (c : Connection κ) : c.undated.late C = (c.late C).undated := by
  cases ended : c.isTerminal with
  | true =>
    have same : c.undated.isTerminal = true := ended
    rw [late, late, transitionOver ended, transitionOver same]
  | false =>
    have running : c.undated.isTerminal = false := ended
    have overdue (c : Connection κ) : c.timeout < c.changedAt + c.timeout + 1 - c.changedAt := by omega
    rw [late, late, transition.eq_def, transition.eq_def C, running, ended]
    simp only [Bool.false_eq_true, if_false, expire, if_pos (overdue _)]
    rfl

theorem lateEnds (C : Capability κ) (c : Connection κ) : (c.late C).isTerminal = true := by
  cases ended : c.isTerminal with
  | true => rw [late, transitionOver ended, ended]
  | false =>
    have overdue : c.timeout < c.changedAt + c.timeout + 1 - c.changedAt := by omega
    rw [late, transition.eq_def, ended]
    simp only [Bool.false_eq_true, if_false, expire, if_pos overdue]
    rfl

theorem tickOverdue (overdue : c.timeout < now - c.changedAt) : (c.transition C .tick now).2 = c.late C := by
  have sure : c.timeout < c.changedAt + c.timeout + 1 - c.changedAt := by omega
  unfold late transition
  split
  · rfl
  · simp [expire, overdue, sure]

theorem writableLeaves (C : Capability κ) (connecting : c.phase = .connecting) (now : Nat) :
    (c.transition C .writable now).2.wantsWrite = false := by
  rw [writableStarts connecting]
  obtain ⟨spoken, move⟩ : ∃ spoken, Move C c now .writable spoken (c.startHandshake C now) := startMoves C connecting
  generalize c.startHandshake C now = after at move
  cases move with
  | spent terminal => simp [isTerminal, connecting, Phase.isTerminal] at terminal
  | idle handshaking => simp [connecting] at handshaking
  | refused _ lost | broken _ lost => rcases lost with lost | lost <;> contradiction
  | _ => rfl

theorem wantsWriteOnce (met : c.wantsWrite = false) (now : Nat) : (c.transition C event now).2.wantsWrite = false := by
  have before := (c.transitionDates C event now).2.1
  cases again : (c.transition C event now).2.wantsWrite with
  | false => rfl
  | true => rw [before again] at met; contradiction

theorem transitionNames (C : Capability κ) (c : Connection κ) (event : Event) (now : Nat) :
    (c.transition C event now).2.address = c.address ∧ (c.transition C event now).2.port = c.port := by
  obtain ⟨spoken, move⟩ := transitionMoves C c event now
  exact (moveTakes move).2.2

def meet (C : Capability κ) (room : Nat) (event : Event) (c : Connection κ) : Connection κ × Nat :=
  match c.transition C event 0 with
  | (.send data, c) => if room < data.length then ((c.transition C .sendFailed 0).2, 0) else (c, 1)
  | (_, c) => (c, 0)

def converse (C : Capability κ) (room : Nat) : Connection κ → Nat → List Deed → Connection κ
  | c, _, [] | c, 0, .read :: _ => c.late C
  | c, unread + 1, .read :: rest => converse C room c unread rest
  | c, unread, .write data :: rest =>
    if data.isEmpty then converse C room c unread rest
    else
      let (c, sent) := c.meet C room (.readable data)
      converse C room c (unread + sent) rest
  | c, _, .close :: _ => (c.transition C .hangup 0).2
  | c, _, .reset :: _ => (c.transition C .error 0).2

theorem meetOver (ended : c.isTerminal = true) (room : Nat) : c.meet C room event = (c, 0) := by
  rw [meet, transitionOver ended]

theorem converseOver (ended : c.isTerminal = true) (room unread : Nat) (deeds : List Deed) :
    c.converse C room unread deeds = c := by
  fun_induction converse C room c unread deeds with
  | case1 | case2 | case6 | case7 => exact congrArg Prod.snd (transitionOver ended)
  | case3 c unread rest ih | case4 c unread data rest empty ih => exact ih ended
  | case5 c unread data rest filled after sent met ih =>
    rw [meetOver ended] at met
    cases met
    exact ih ended

theorem meetNames (C : Capability κ) (room : Nat) (event : Event) (c : Connection κ) :
    (c.meet C room event).1.address = c.address ∧ (c.meet C room event).1.port = c.port := by
  have named := transitionNames C c event 0
  unfold meet
  split <;> rename_i after met <;> rw [met] at named
  · split
    · have further := transitionNames C after .sendFailed 0
      exact ⟨further.1.trans named.1, further.2.trans named.2⟩
    · exact named
  · exact named

theorem converseNames (C : Capability κ) (room : Nat) (c : Connection κ) (unread : Nat) (deeds : List Deed) :
    (c.converse C room unread deeds).address = c.address ∧ (c.converse C room unread deeds).port = c.port := by
  fun_induction converse C room c unread deeds with
  | case1 | case2 | case6 | case7 => exact transitionNames C _ _ _
  | case3 c unread rest ih | case4 c unread data rest empty ih => exact ih
  | case5 c unread data rest filled after sent met ih =>
    have named := meetNames C room (.readable data) c
    rw [met] at named
    exact ⟨ih.1.trans named.1, ih.2.trans named.2⟩

section Held
variable {room unread : Nat} {held : List Bytes} {rest : List Deed}

theorem converseHeld {deeds others : List Deed} {m n : Nat}
    (alike : ∀ (c : Connection κ) sent, c.converse C room (m + sent) deeds = c.converse C room (n + sent) others) :
    c.converse C room m (held.map .write ++ deeds) = c.converse C room n (held.map .write ++ others) := by
  induction held generalizing c m n with
  | nil => exact alike c 0
  | cons data held ih =>
    simp only [List.map_cons, List.cons_append, converse]
    split
    · exact ih alike
    · refine ih fun c sent => ?_
      rw [Nat.add_assoc, Nat.add_assoc]
      exact alike c _

/- A read may be done before what was written ahead of it has been seen. -/
theorem converseRead : c.converse C room (unread + 1) (held.map .write ++ .read :: rest) =
    c.converse C room unread (held.map .write ++ rest) :=
  converseHeld fun c sent => by rw [Nat.add_right_comm, converse]

theorem converseClose (rest : List Deed) : c.converse C room unread (held.map .write ++ .close :: rest) =
    c.converse C room unread (held.map .write ++ [.close]) :=
  converseHeld fun c sent => by rw [converse, converse]

theorem converseReset (rest : List Deed) : c.converse C room unread (held.map .write ++ .reset :: rest) =
    c.converse C room unread (held.map .write ++ [.reset]) :=
  converseHeld fun c sent => by rw [converse, converse]

theorem hangupAsError (met : c.wantsWrite = false) (now : Nat) :
    c.transition C .hangup now = c.transition C .error now := by
  unfold transition
  cases phase : c.phase <;> simp_all [wantsWrite]

theorem meetStays (met : c.wantsWrite = false) (event : Event) : (c.meet C room event).1.wantsWrite = false := by
  have first : (c.transition C event 0).2.wantsWrite = false := wantsWriteOnce met 0
  unfold meet
  split <;> rename_i answer <;> rw [answer] at first
  · split
    · exact wantsWriteOnce first 0
    · exact first
  · exact first

theorem converseLeft (met : c.wantsWrite = false) : c.converse C room unread (held.map .write ++ [.close]) =
    c.converse C room unread (held.map .write ++ [.reset]) := by
  induction held generalizing c unread with
  | nil => simp only [List.map_nil, List.nil_append, converse, hangupAsError met]
  | cons data held ih =>
    simp only [List.map_cons, List.cons_append, converse]
    split
    · exact ih met
    · exact ih (meetStays met _)

end Held

section Leaving
variable (running : c.isTerminal = false) (heard : c.wantsWrite = false)

include running in
theorem unsentEnds (some : c.raw ≠ []) (now : Nat) : c.transition C .sendFailed now = c.finish .tlsError := by
  simp [transition, running, some]

include running heard

theorem errorEnds (now : Nat) : c.transition C .error now = c.finish .tlsError := by
  rcases runningCases running with phase | phase
  · simp [wantsWrite, phase] at heard
  · simp [transition, running, phase]

theorem hangupEnds (now : Nat) : c.transition C .hangup now = c.finish .tlsError := by
  rw [hangupAsError heard, errorEnds running heard]

theorem readSpec {data : Bytes} (filled : data ≠ []) (now : Nat) :
    let after := (c.transition C (.readable data) now).2
    after.wantsWrite = false ∧ after.raw ≠ [] := by
  have phase : c.phase = .handshaking := by
    rcases runningCases running with phase | phase
    · simp [wantsWrite, phase] at heard
    · exact phase
  obtain ⟨spoken, move⟩ := transitionMoves C c (.readable data) now
  refine ⟨wantsWriteOnce heard now, ?_⟩
  rw [(moveTakes move).2.1, takes, if_pos phase]
  simp [filled]

theorem unsentLeaves {data : Bytes} (filled : data ≠ []) (now : Nat) :
    let after := (c.transition C (.readable data) now).2
    ((after.transition C .sendFailed now).2.transition C .error now).2 = (after.transition C .error now).2 := by
  intro after
  obtain ⟨left, raw⟩ := readSpec (C := C) running heard filled now
  cases runs : after.isTerminal with
  | true => rw [transitionOver runs]
  | false =>
    have spent : (after.finish .tlsError).2.isTerminal = true := rfl
    rw [unsentEnds runs raw, errorEnds runs left, transitionOver spent]

end Leaving

theorem leavingEnds {c : Connection κ} (heard : c.wantsWrite = false) {event : Event}
    (leaves : event = .hangup ∨ event = .error) (now : Nat) : (c.transition C event now).2.isTerminal = true := by
  cases running : c.isTerminal with
  | true => rw [transitionOver running]; exact running
  | false =>
    rcases leaves with rfl | rfl
    · rw [hangupEnds running heard]; rfl
    · rw [errorEnds running heard]; rfl

end Connection

end TlsCensus
