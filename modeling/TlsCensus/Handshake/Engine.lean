import TlsCensus.Probe.Capability

/-! A client handshake driven through byte buffers alone. What the peer sent waits in an
inbox and is offered from there to a TLS engine, which reads as much of it as it likes. -/
namespace TlsCensus

structure Engine (ε : Type) where
  read : Bytes → ε → Option Nat × ε
  process : ε → Bool × ε
  write : ε → Bytes × ε
  certified : ε → Bool
  handshaking : ε → Bool

structure Handshake (ε : Type) where
  engine : ε
  inbox : Bytes
  initiated : Bool
  failed : Bool
  deriving DecidableEq, Repr

def Handshake.new {ε : Type} (engine : ε) : Handshake ε := ⟨engine, [], false, false⟩

structure Drained (ε : Type) where
  well : Bool
  engine : ε
  inbox : Bytes
  deriving DecidableEq, Repr

namespace Engine
variable {ε : Type}

def verdict (E : Engine ε) (e : ε) : Verdict :=
  if E.certified e || !E.handshaking e then .done else .awaiting

/-- Offers the inbox until it is empty, the engine reads no more of it or an error occurs.
What has been read is worked off before more is offered. -/
def drain (E : Engine ε) (e : ε) : Bytes → Drained ε
  | [] => ⟨true, e, []⟩
  | octet :: rest =>
    match E.read (octet :: rest) e with
    | (none, e) => ⟨false, e, octet :: rest⟩
    | (some 0, e) => ⟨true, e, octet :: rest⟩
    | (some (more + 1), e) =>
      match E.process e with
      | (false, e) => ⟨false, e, rest.drop more⟩
      | (true, e) => drain E e (rest.drop more)
  termination_by inbox => inbox.length
  decreasing_by
    simp only [List.length_drop, List.length_cons]
    omega

def step (E : Engine ε) (h : Handshake ε) : Verdict × Handshake ε :=
  if h.failed then (.failed, h)
  else
    match E.drain h.engine h.inbox with
    | ⟨true, engine, inbox⟩ => (E.verdict engine, { h with engine := engine, inbox := inbox })
    | ⟨false, engine, inbox⟩ => (.failed, { h with engine := engine, inbox := inbox, failed := true })

def output (E : Engine ε) (h : Handshake ε) : Bytes × Handshake ε :=
  let (out, engine) := E.write h.engine
  (out, { h with engine := engine })

/-- The hello waits to be written from the start, so that to initiate does no more than
to be noted. -/
def capability (E : Engine ε) : Capability (Handshake ε) where
  initiate h := if h.initiated then (.error .alreadyInitiated, h) else (.ok (), { h with initiated := true })
  step := E.step
  output := E.output
  feed data h := { h with inbox := h.inbox ++ data }

end Engine
end TlsCensus
