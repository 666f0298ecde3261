import TlsCensus.Handshake.Engine
import TlsCensus.Handshake.ServerFlight

/-! The probing side of a TLS 1.2 handshake. It offers elliptic-curve suites only, so the
server's certificate comes in the clear, and goes no further than its key share. Random
octets and key share are given from outside. -/
namespace TlsCensus

/-- The engine's state. `unread` has come without making up a record yet; there is no
flight any more once it failed. -/
structure Client where
  random : Bytes
  share : Bytes
  flight : Option ServerFlight.Progress
  unread : Bytes
  helloSent : Bool
  replySent : Bool
  deriving DecidableEq, Repr

namespace Client

def new (random share : Bytes) : Client := ⟨random, share, some .start, [], false, false⟩

def sized (width : Nat) (body : Bytes) : Bytes :=
  (Bytes.littleEndian width body.length).reverse ++ body

def uint16 (n : Nat) : Bytes := (Bytes.littleEndian 2 n).reverse

def message (type : UInt8) (body : Bytes) : Bytes := type :: sized 3 body

def record (version : UInt8) (content : Bytes) : Bytes := [22, 3, version] ++ sized 2 content

def extension (kind : Nat) (body : Bytes) : Bytes := uint16 kind ++ sized 2 body

def schemes : List Nat := [0x0603, 0x0503, 0x0403, 0x0807, 0x0806, 0x0805, 0x0804, 0x0601, 0x0501, 0x0401]

def extensions : Bytes :=
  extension 43 (sized 1 (uint16 0x0303)) ++ extension 11 (sized 1 [0]) ++
  extension 10 (sized 2 (ServerFlight.groups.flatMap fun g => uint16 g.1)) ++
  extension 13 (sized 2 (schemes.flatMap uint16)) ++ extension 23 [] ++
  extension 5 ([1] ++ sized 2 [] ++ sized 2 []) ++ extension 35 []

def hello (c : Client) : Bytes :=
  record 1 (message 1 ([3, 3] ++ c.random ++ sized 1 [] ++
    sized 2 ((ServerFlight.suites ++ [0xFF]).flatMap uint16) ++ sized 1 [0] ++ sized 2 extensions))

def reply (c : Client) (asked : Bool) : Bytes :=
  (if asked then record 3 (message 11 (sized 3 [])) else []) ++ record 3 (message 16 (sized 1 c.share))

def finished (c : Client) : Option Bool := c.flight.bind fun p => p.stage.finished

def readSize : Nat := 4096

def read (offer : Bytes) (c : Client) : Option Nat × Client :=
  if c.flight.any fun p => p.closed then (some 0, c)
  else (some (min readSize offer.length), { c with unread := c.unread ++ offer.take readSize })

def process (c : Client) : Bool × Client :=
  match c.flight.bind fun p => ServerFlight.run p c.unread with
  | none => (false, { c with flight := none, unread := [] })
  | some (p, rest) => (true, { c with flight := some p, unread := rest })

def write (c : Client) : Bytes × Client :=
  let due := if c.replySent then none else c.finished
  ((if c.helloSent then [] else c.hello) ++ (due.map c.reply).getD [],
    { c with helloSent := true, replySent := c.replySent || due.isSome })

def engine : Engine Client where
  read := read
  process := process
  write := write
  certified c := c.finished.isSome
  handshaking _ := true

end Client

abbrev ClientHandshake := Handshake Client

namespace ClientHandshake

def new (random share : Bytes) : ClientHandshake := Handshake.new (Client.new random share)

def capability : Capability ClientHandshake := Client.engine.capability

end ClientHandshake
end TlsCensus
