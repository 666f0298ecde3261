import TlsCensus.Outcome
import TlsCensus.Probe.Capability

/-! One probe: connect, send the hello, capture the reply. The machine owns no socket;
it is stepped by events and times and answers what is to be done next. Its deadline runs
from the last sending. -/
namespace TlsCensus

inductive Phase where
  | connecting
  | handshaking
  | complete
  | timedOut
  deriving DecidableEq, Repr

def Phase.isTerminal : Phase → Bool
  | .complete | .timedOut => true
  | _ => false

inductive Event where
  | tick
  | writable
  | readable (data : Bytes)
  | hangup
  | error
  | sendFailed
  deriving DecidableEq, Repr

inductive Action where
  | none
  | send (data : Bytes)
  | close
  deriving DecidableEq, Repr

structure Connection (κ : Type) where
  address : UInt32
  port : UInt16
  phase : Phase
  raw : Bytes
  changedAt : Nat
  timeout : Nat
  result : Option ResultCode
  capability : κ
  deriving Repr

namespace Connection
variable {κ : Type}

def new (address : UInt32) (port : UInt16) (capability : κ) (timeout now : Nat) : Connection κ :=
  ⟨address, port, .connecting, [], now, timeout, none, capability⟩

def isTerminal (c : Connection κ) : Bool := c.phase.isTerminal

def wantsWrite (c : Connection κ) : Bool := c.phase = .connecting

def finish (c : Connection κ) (code : ResultCode) : Action × Connection κ :=
  (.close, { c with phase := .complete, result := some code })

def startHandshake (C : Capability κ) (now : Nat) (c : Connection κ) : Action × Connection κ :=
  match C.initiate c.capability with
  | (.error _, k) => { c with capability := k }.finish .tlsError
  | (.ok (), k) =>
    match C.step k with
    | (.failed, k) => { c with capability := k }.finish .tlsError
    | (_, k) =>
      match C.output k with
      | ([], k) => { c with capability := k }.finish .tlsError
      | (hello, k) =>
        (.send hello, { c with capability := k, phase := .handshaking, changedAt := now })

def absorb (C : Capability κ) (data : Bytes) (now : Nat) (c : Connection κ) : Action × Connection κ :=
  let c := { c with raw := c.raw ++ data, capability := C.feed data c.capability }
  match C.step c.capability with
  | (.done, k) => { c with capability := k }.finish .tlsCompleted
  | (.failed, k) => { c with capability := k }.finish .tlsError
  | (.awaiting, k) =>
    match C.output k with
    | ([], k) => (.none, { c with capability := k })
    | (out, k) => (.send out, { c with capability := k, changedAt := now })

def expire (now : Nat) (c : Connection κ) : Action × Connection κ :=
  if c.timeout < now - c.changedAt then
    let code := if c.phase = .connecting then ResultCode.tcpTimeout else .tlsTimeout
    (.close, { c with phase := .timedOut, result := some code })
  else (.none, c)

def transition (C : Capability κ) (event : Event) (now : Nat) (c : Connection κ) :
    Action × Connection κ :=
  if c.isTerminal then (.none, c)
  else
    match c.phase, event with
    | _, .tick => c.expire now
    | _, .sendFailed => c.finish (if c.raw.isEmpty then .connectFailed else .tlsError)
    | .connecting, .writable => c.startHandshake C now
    | .connecting, .error | .connecting, .hangup => c.finish .connectFailed
    | .handshaking, .readable data => c.absorb C data now
    | .handshaking, .error | .handshaking, .hangup => c.finish .tlsError
    | _, _ => (.none, c)

theorem transitionDates (C : Capability κ) (c : Connection κ) (event : Event) (now : Nat) :
    let after := (c.transition C event now).2
    after.timeout = c.timeout ∧ (after.wantsWrite = true → c.wantsWrite = true) ∧
    (after.changedAt = c.changedAt ∨ (c.wantsWrite = true ∧ after.wantsWrite = false) ∨ ∃ data, event = .readable data) := by
  unfold transition
  split
  · exact ⟨rfl, id, .inl rfl⟩
  · split
    · unfold expire
      split
      · exact ⟨rfl, by simp [wantsWrite], .inl rfl⟩
      · exact ⟨rfl, id, .inl rfl⟩
    · exact ⟨rfl, by simp [wantsWrite, finish], .inl rfl⟩
    · rename_i connecting
      unfold startHandshake
      split
      · exact ⟨rfl, by simp [wantsWrite, finish], .inl rfl⟩
      · split
        · exact ⟨rfl, by simp [wantsWrite, finish], .inl rfl⟩
        · split
          · exact ⟨rfl, by simp [wantsWrite, finish], .inl rfl⟩
          · exact ⟨rfl, by simp [wantsWrite], .inr (.inl (by simp [wantsWrite, connecting]))⟩
    · exact ⟨rfl, by simp [wantsWrite, finish], .inl rfl⟩
    · exact ⟨rfl, by simp [wantsWrite, finish], .inl rfl⟩
    · rename_i data handshaking
      refine ⟨?_, ?_, .inr (.inr ⟨data, rfl⟩)⟩ <;> unfold absorb <;> dsimp only <;>
        split <;> try split
      all_goals simp [wantsWrite, finish, handshaking]
    · exact ⟨rfl, by simp [wantsWrite, finish], .inl rfl⟩
    · exact ⟨rfl, by simp [wantsWrite, finish], .inl rfl⟩
    · exact ⟨rfl, id, .inl rfl⟩

def takeOutcome (fetchedAt : UInt64) (c : Connection κ) : Option Outcome × Connection κ :=
  match c.isTerminal, c.result with
  | true, some code =>
    (some ⟨c.address, c.port, code, c.raw, fetchedAt⟩, { c with result := none, raw := [] })
  | _, _ => (none, c)

end Connection
end TlsCensus
