import TlsCensus.Certificate.PublicKey
import TlsCensus.Harvest
import TlsCensus.Store

/-! A harvest from one store into another. It begins with no digest seen, whatever the
receiving store holds. A row that cannot be read ends it, and what was not committed by
then is lost. -/
namespace TlsCensus.Harvest

def setting (clock : Nat → Nat) : Harvester.Setting Store StoreError :=
  ⟨Certificate.classify, Store.sink, clock⟩

def visit (E : Harvester.Setting Store StoreError) (row : RawRow) (state : Seen × Harvester Store) :
    Except Empty Unit × Seen × Harvester Store :=
  (.ok (), Harvester.processResponse E state row.response)

def transfer (clock : Nat → Nat) (maxAge : Nat) (raw certs : Store) :
    Except StoreError HarvestStats × Store :=
  let E := setting clock
  match raw.forEachRaw (visit E) (.empty, .new certs maxAge) with
  | (.error (.store e), _, h) => (.error e, .ofTables h.window.sink.closed)
  | (.ok _, _, h) =>
    match h.finish E with
    | .ok (stats, certs) => (.ok stats, certs)
    | .error e => (.error e, .ofTables h.window.sink.closed)

end TlsCensus.Harvest
