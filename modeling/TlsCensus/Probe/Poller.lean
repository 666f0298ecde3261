import TlsCensus.Probe.Peer

/-! The open sockets by descriptor, and the poller that asks for the readiness of several at a
time. What the poller is asked it answers by the place of the asking, not by descriptor. -/
namespace TlsCensus

abbrev Sockets := List (Option Link)

namespace Sockets

def link (s : Sockets) (descriptor : Nat) : Link := s[descriptor]?.join.getD .gone

def connect (l : Link) : Sockets → Nat × Sockets
  | [] => (0, [some l])
  | none :: rest => (0, some l :: rest)
  | some other :: rest =>
    let (descriptor, rest) := connect l rest
    (descriptor + 1, some other :: rest)

def put (descriptor : Nat) (l : Link) (s : Sockets) : Sockets := s.set descriptor (some l)

def close (descriptor : Nat) (s : Sockets) : Sockets := s.set descriptor none

def arrive (deeds : UInt32 → Nat) (s : Sockets) : Sockets :=
  s.map (Option.map fun l => l.arrive (deeds l.address))

def load : Sockets → Nat
  | [] => 0
  | none :: rest => load rest
  | some l :: rest => l.load + load rest

theorem putLoad (s : Sockets) (descriptor : Nat) (l : Link) :
    (s.put descriptor l).load + (s.link descriptor).load ≤ s.load + l.load := by
  have gone : Link.gone.load = 0 := rfl
  induction s generalizing descriptor with
  | nil => simp [put, link, gone]
  | cons entry rest ih =>
    cases descriptor with
    | zero => cases entry <;> simp [put, load, link, gone] <;> omega
    | succ descriptor =>
      have here := ih descriptor
      simp only [put, link] at here
      cases entry <;> simp [put, load, link] <;> omega

theorem closeLoad (s : Sockets) (descriptor : Nat) : (s.close descriptor).load ≤ s.load := by
  induction s generalizing descriptor with
  | nil => simp [close, load]
  | cons entry rest ih =>
    cases descriptor with
    | zero => cases entry <;> simp [close, load]
    | succ descriptor =>
      have here := ih descriptor
      simp only [close] at here
      cases entry <;> simp [close, load] <;> omega

theorem arriveLoad (deeds : UInt32 → Nat) (s : Sockets) : (s.arrive deeds).load ≤ s.load := by
  induction s with
  | nil => exact Nat.le_refl _
  | cons entry rest ih =>
    simp only [arrive] at ih
    cases entry with
    | none => simpa [arrive, load] using ih
    | some l =>
      have here := l.arriveLoad (deeds l.address)
      simp [arrive, load]
      omega

end Sockets

structure PollEntry where
  descriptor : Nat
  wantWrite : Bool
  revents : Readiness
  deriving DecidableEq, Repr

abbrev Poller := List PollEntry

namespace Poller

def register (descriptor : Nat) (wantWrite : Bool) (p : Poller) : Nat × Poller :=
  (p.length, p ++ [⟨descriptor, wantWrite, {}⟩])

def wait (interrupted : Bool) (s : Sockets) (p : Poller) : Poller :=
  p.map fun e =>
    { e with revents := if interrupted then {} else (s.link e.descriptor).readiness e.wantWrite }

def readiness (index : Nat) (p : Poller) : Readiness := (p[index]?.map (·.revents)).getD {}

end Poller
end TlsCensus
