import TlsCensus.Harvest.Transfer
import TlsCensus.Proofs.FirstSights
import TlsCensus.Proofs.RowStreams

/-! Harvests into one store, one after another. A harvest that succeeds adds what it gathers
from its raw rows behind what the certificates table holds, and it gathers each certificate
once. It knows of nothing that was there before, so the next one over the same rows adds the
same certificates again. -/
namespace TlsCensus

section Kept
variable {σ ε : Type} {kept : σ → Prop}

namespace Harvester

theorem finishOutside {E : Setting σ ε} {outside inside : σ → Prop}
    (obeys : E.sink.Obeys (fun _ => false) outside inside) {h : Harvester (σ × List Ask)}
    (settled : h.window.Settled outside inside) {stats : HarvestStats} {last : σ} {log : List Ask}
    (finished : h.finish E.logged = .ok (stats, last, log)) : outside last := by
  obtain ⟨-, left, -⟩ := Window.flushObeyed obeys settled
  unfold finish at finished
  rw [show E.logged.sink = E.sink.logged from rfl] at finished
  split at finished <;> rename_i asked
  · obtain ⟨-, same⟩ := Prod.mk.inj (Except.ok.inj finished)
    rwa [asked, same] at left
  · contradiction

variable {E : Setting σ ε} (keeps : E.sink.Keeps kept)
include keeps

theorem keepKeeps {h : Harvester σ} (start : kept h.window.sink) (der : Bytes) : kept (h.keep E der).window.sink := by
  cases classified : E.classify der with
  | error e =>
    rw [keepUnclassified E h classified]
    exact start
  | ok info =>
    rw [keepClassified E h classified]
    exact Window.storeCertificateKeeps keeps (E.clock h.readings) start ⟨info.keyType, info.bitLength, der⟩

theorem offersKeeps (state : Seen × Harvester σ) (start : kept state.2.window.sink) (blobs : List Bytes) :
    kept (blobs.foldl (offer E) state).2.window.sink := by
  induction blobs generalizing state with
  | nil => exact start
  | cons der rest ih =>
    refine ih _ ?_
    unfold offer
    dsimp only
    split
    · exact start
    · exact keepKeeps keeps (h := state.2.sighted) start der

theorem processAllKeeps (state : Seen × Harvester σ) (start : kept state.2.window.sink) (responses : List Bytes) :
    kept (processAll E state responses).2.window.sink := by
  induction responses generalizing state with
  | nil => exact start
  | cons response rest ih =>
    refine ih _ ?_
    exact offersKeeps keeps (state.1, { state.2 with stats := state.2.stats.countResponse response }) start _

theorem finishKeeps {h : Harvester σ} (start : kept h.window.sink) {stats : HarvestStats} {last : σ}
    (finished : h.finish E = .ok (stats, last)) : kept last := by
  have flushed := Window.flushKeeps keeps start
  unfold finish at finished
  split at finished <;> rename_i asked
  · cases finished
    rwa [asked] at flushed
  · contradiction

end Harvester

end Kept

namespace Harvest

def responsesOf (raw : Tables) : List Bytes := raw.raw.toList.map (·.response.octets)

def gathered (raw : Tables) : List CertificateRecord :=
  Harvester.recordsOf Certificate.classify (Harvester.blobsOf (responsesOf raw))

theorem recordsDers (classify : Classifier) (blobs : List Bytes) :
    ((Harvester.recordsOf classify blobs).map (·.der)).Sublist (firstSights blobs) := by
  rw [Harvester.recordsOf]
  induction firstSights blobs with
  | nil => exact .slnil
  | cons der rest ih =>
    rw [List.filterMap_cons, Harvester.recordOf?]
    cases classify der with
    | error e => exact ih.cons der
    | ok info => exact ih.cons_cons der

theorem gatheredOnce (raw : Tables) : ((gathered raw).map (·.der)).Nodup := by
  have distinct := (sightsDigests (Harvester.blobsOf (responsesOf raw))).1.of_map
  exact distinct.sublist (recordsDers Certificate.classify _)

theorem readResponse {cells : RawCells} {fields : RawCells.Fields} (read : cells.read = .ok fields) :
    fields.toRow.response = cells.response.octets := by
  simp only [RawCells.read, bindOk] at read
  obtain ⟨_, -, _, -, _, -, _, -, same⟩ := read
  cases same
  rfl

theorem visitProcesses (E : Harvester.Setting Store StoreError) {rows : List RawCells} {n m : Nat}
    {state last : Seen × Harvester Store} (visited : Store.visit (visit E) n rows state = (.ok m, last)) :
    last = Harvester.processAll E state (rows.map (·.response.octets)) := by
  obtain ⟨fields, readable, -, rfl⟩ := (Store.visitCalm fun _ _ => rfl).mp visited
  clear visited
  induction readable generalizing state with
  | nil => rfl
  | cons read _ ih =>
    rw [List.map_cons, List.foldl_cons, ih, List.map_cons, ← readResponse read]
    rfl

theorem harvestFills {certs : Store} (idle : certs.saved = none) (clock : Nat → Nat) (maxAge : Nat)
    (responses : List Bytes) : ∃ stats last,
    (Harvester.processAll (setting clock) (.empty, .new certs maxAge) responses).2.finish (setting clock) =
      .ok (stats, last) ∧
    last.saved = none ∧
    last.tables.certificates.toList = certs.tables.certificates.toList ++
      (Harvester.recordsOf Certificate.classify (Harvester.blobsOf responses)).map .ofRecord := by
  have harvested := Harvester.processAllHarvested (E := setting clock) Store.sinkObeys idle maxAge responses
  obtain ⟨last, log, ends, -, rows⟩ := Harvester.finishHarvested Store.sinkObeys harvested
  have closed := Harvester.finishOutside Store.sinkObeys harvested.settled ends
  have follows := Harvester.finishKeeps (E := (setting clock).logged)
    (Store.sinkFollows certs.tables) (Harvester.processAllKeeps (Store.sinkFollows _)
      (.empty, .new (certs, []) maxAge) (Store.followsStart certs) responses) ends
  refine ⟨_, last, Harvester.finishPlainly ends, closed, follows.certificates.trans ?_⟩
  rw [rows, List.filterMap_map, ← List.filterMap_eq_map]
  rfl

theorem transferFills {certs : Store} (idle : certs.saved = none) {clock : Nat → Nat} {maxAge : Nat} (raw : Store)
    (reads : (raw.forEachRaw (visit (setting clock)) (.empty, .new certs maxAge)).1.isOk) : ∃ stats last,
    transfer clock maxAge raw certs = (.ok stats, last) ∧ last.saved = none ∧
    last.tables.certificates.toList = certs.tables.certificates.toList ++ (gathered raw.tables).map .ofRecord := by
  cases visited : raw.forEachRaw (visit (setting clock)) (.empty, .new certs maxAge) with
  | mk answer state =>
    rw [visited] at reads
    cases answer with
    | error e => contradiction
    | ok count =>
      obtain ⟨stats, last, finished, closed, grown⟩ := harvestFills idle clock maxAge (responsesOf raw.tables)
      rw [responsesOf, ← visitProcesses _ visited] at finished
      refine ⟨stats, last, ?_, closed, grown⟩
      simp only [transfer, visited, finished]

theorem transferAppends {certs last : Store} (idle : certs.saved = none) {clock : Nat → Nat} {maxAge : Nat} {raw : Store}
    {stats : HarvestStats} (succeeded : transfer clock maxAge raw certs = (.ok stats, last)) :
    last.saved = none ∧ last.tables.certificates.toList =
      certs.tables.certificates.toList ++ (gathered raw.tables).map .ofRecord := by
  have reads : (raw.forEachRaw (visit (setting clock)) (.empty, .new certs maxAge)).1.isOk := by
    cases visited : raw.forEachRaw (visit (setting clock)) (.empty, .new certs maxAge) with
    | mk answer state =>
      cases answer with
      | ok count => rfl
      | error e =>
        simp only [transfer, visited] at succeeded
        cases e with
        | store e => cases (Prod.mk.inj succeeded).1
        | visitor e => cases e
  obtain ⟨_, _, filled, closed, grown⟩ := transferFills idle raw reads
  obtain ⟨-, rfl⟩ := Prod.mk.inj (filled.symm.trans succeeded)
  exact ⟨closed, grown⟩

theorem visitReads (E : Harvester.Setting Store StoreError) {rows : List RawCells}
    (readable : ∀ cells ∈ rows, cells.read.isOk) (n : Nat) (state : Seen × Harvester Store) :
    (Store.visit (visit E) n rows state).1.isOk := by
  obtain ⟨fields, read⟩ := Store.readableAll readable
  rw [(Store.visitCalm fun _ _ => rfl).mpr ⟨fields, read, rfl, rfl⟩]
  rfl

structure Pass where
  clock : Nat → Nat
  maxAge : Nat
  raw : Tables

/- The receiving tables after harvests that all succeed, each of which opens its stores anew. -/
def afterAll : List Pass → Tables → Option Tables
  | [], tables => some tables
  | pass :: rest, tables =>
    match transfer pass.clock pass.maxAge (.ofTables pass.raw) (.ofTables tables) with
    | (.ok _, certs) => afterAll rest certs.closed
    | (.error _, _) => none

theorem afterAllAppends {passes : List Pass} {first last : Tables} (ended : afterAll passes first = some last) :
    last.certificates.toList = first.certificates.toList ++
      passes.flatMap fun pass => (gathered pass.raw).map CertificateCells.ofRecord := by
  induction passes generalizing first with
  | nil =>
    cases ended
    exact (List.append_nil _).symm
  | cons pass rest ih =>
    rw [afterAll] at ended
    cases done : transfer pass.clock pass.maxAge (.ofTables pass.raw) (.ofTables first) with
    | mk answer certs =>
      rw [done] at ended
      cases answer with
      | error e => contradiction
      | ok stats =>
        obtain ⟨closed, grown⟩ := transferAppends rfl done
        have same : certs.closed = certs.tables := by rw [Store.closed, closed]; rfl
        rw [ih ended, same, grown, List.flatMap_cons, List.append_assoc]
        rfl

theorem afterAllEnds {passes : List Pass} (readable : ∀ pass ∈ passes, ∀ cells ∈ pass.raw.raw.toList, cells.read.isOk)
    (first : Tables) : ∃ last, afterAll passes first = some last := by
  induction passes generalizing first with
  | nil => exact ⟨first, rfl⟩
  | cons pass rest ih =>
    have idle : (Store.ofTables first).saved = none := rfl
    have reads := visitReads (setting pass.clock) (readable pass List.mem_cons_self) 0
      (.empty, .new (.ofTables first) pass.maxAge)
    obtain ⟨_, _, filled, -⟩ := transferFills idle (.ofTables pass.raw) reads
    simp only [afterAll, filled]
    exact ih (fun _ mem => readable _ (List.mem_cons_of_mem _ mem)) _

theorem gatheredCount (raw : Tables) (der : Bytes) :
    (((gathered raw).map CertificateCells.ofRecord).map (·.data)).count (.blob der) =
      if der ∈ (gathered raw).map (·.der) then 1 else 0 := by
  have blobs : Function.Injective Value.blob := fun _ _ => Value.blob.inj
  have data : ((gathered raw).map CertificateCells.ofRecord).map (·.data) =
      ((gathered raw).map (·.der)).map Value.blob := by
    rw [List.map_map, List.map_map]
    rfl
  rw [data, List.count_map_of_injective _ _ blobs, (gatheredOnce raw).count]

theorem storedPerPass (passes : List Pass) (der : Bytes) :
    ((passes.flatMap fun pass => (gathered pass.raw).map CertificateCells.ofRecord).map (·.data)).count (.blob der) =
      passes.countP fun pass => der ∈ (gathered pass.raw).map (·.der) := by
  induction passes with
  | nil => rfl
  | cons pass rest ih =>
    rw [List.flatMap_cons, List.map_append, List.count_append, gatheredCount, ih, List.countP_cons, Nat.add_comm]
    simp only [decide_eq_true_eq]

section OneRow

def element (tag : UInt8) (content : Bytes) : Bytes := tag :: content.length.toUInt8 :: content

def fourBits : Bytes :=
  let signing := element 48 (element 6 [42, 134, 72, 134, 247, 13, 1, 1, 11] ++ element 5 [])
  let name := element 48 (element 49 (element 48 (element 6 [85, 4, 3] ++ element 12 [116])))
  let newYear (decade : UInt8) := element 23 [decade, 48, 48, 49, 48, 49, 48, 48, 48, 48, 48, 48, 90]
  let key := element 48 (element 6 [42, 134, 72, 206, 62, 2, 1]) ++ element 3 [0, 2, 129, 1, 15]
  let signed := element 160 (element 2 [2]) ++ element 2 [5] ++ signing ++ name ++
    element 48 (newYear 50 ++ newYear 51) ++ name ++ element 48 key
  element 48 (element 48 signed ++ signing ++ element 3 [0, 1, 2, 3])

def captured (der : Bytes) : Bytes :=
  let n := der.length.toUInt8
  [22, 3, 3, 0, n + 10, 11, 0, 0, n + 6, 0, 0, n + 3, 0, 0, n] ++ der

def rawRow (response : Bytes) : RawCells := ⟨.integer 16843009, .integer 443, .integer 1, .integer 2, .blob response⟩

def oneRow : Tables := ⟨#[rawRow (captured fourBits)], #[], #[]⟩

theorem oneRowReadable : ∀ cells ∈ oneRow.raw.toList, cells.read.isOk := by decide +kernel

theorem oneRowGathered : gathered oneRow = [⟨.dh, 4, fourBits⟩] := by decide +kernel

end OneRow

theorem everyPassStoresAgain {passes : List Pass} {first last : Tables} (bare : first.certificates = #[])
    (ended : afterAll passes first = some last) :
    let stored (der : Bytes) : Nat := (last.certificates.toList.map (·.data)).count (.blob der)
    last.certificates.toList = (passes.flatMap fun pass => (gathered pass.raw).map CertificateCells.ofRecord) ∧
    (∀ der, stored der = passes.countP fun pass => der ∈ (gathered pass.raw).map (·.der)) ∧
    ∀ raw, (∀ pass ∈ passes, pass.raw = raw) →
      ∀ der, stored der = if der ∈ (gathered raw).map (·.der) then passes.length else 0 := by
  intro stored
  have rows := afterAllAppends ended
  rw [bare, Array.toList_empty, List.nil_append] at rows
  have counts (der : Bytes) : stored der = passes.countP fun pass => der ∈ (gathered pass.raw).map (·.der) := by
    simp only [stored, rows, storedPerPass]
  refine ⟨rows, counts, fun raw same der => ?_⟩
  rw [counts]
  split <;> rename_i mem
  · refine List.countP_eq_length.mpr fun pass among => ?_
    rwa [same pass among, decide_eq_true_eq]
  · refine List.countP_eq_zero.mpr fun pass among => ?_
    rwa [same pass among, decide_eq_true_eq]

theorem threeHarvestsHoldTwo :
    let run : Pass := ⟨id, 5000, oneRow⟩
    Tables.empty.certificates = #[] ∧ ∃ last, afterAll [⟨id, 5000, .empty⟩, run, run] .empty = some last ∧
      (last.certificates.toList.map (·.data)).count (.blob fourBits) = 2 := by
  intro run
  have readable : ∀ pass ∈ [⟨id, 5000, .empty⟩, run, run], ∀ cells ∈ pass.raw.raw.toList, cells.read.isOk := by
    intro pass among
    simp only [List.mem_cons, List.not_mem_nil, or_false] at among
    rcases among with rfl | rfl | rfl
    · exact fun _ mem => absurd mem List.not_mem_nil
    · exact oneRowReadable
    · exact oneRowReadable
  obtain ⟨last, ended⟩ := afterAllEnds readable .empty
  obtain ⟨-, counts, -⟩ := everyPassStoresAgain rfl ended
  refine ⟨rfl, last, ended, (counts fourBits).trans ?_⟩
  decide +kernel

theorem secondHarvestStoresAgain :
    let run : Pass := ⟨id, 5000, oneRow⟩
    let cells : CertificateCells := ⟨.integer 3, .integer 4, .blob fourBits⟩
    ∃ once twice, afterAll [run] .empty = some once ∧ afterAll [run] once = some twice ∧
      once.certificates.toList = [cells] ∧ twice.certificates.toList = [cells, cells] := by
  intro run cells
  have readable : ∀ pass ∈ [run], ∀ row ∈ pass.raw.raw.toList, row.read.isOk := fun pass among =>
    List.mem_singleton.mp among ▸ oneRowReadable
  obtain ⟨once, first⟩ := afterAllEnds readable .empty
  obtain ⟨twice, second⟩ := afterAllEnds readable once
  have added : ([run].flatMap fun pass => (gathered pass.raw).map CertificateCells.ofRecord) = [cells] := by
    rw [List.flatMap_singleton, oneRowGathered]
    rfl
  have one := afterAllAppends first
  have two := afterAllAppends second
  rw [added] at one two
  exact ⟨once, twice, first, second, one, two.trans (congrArg (· ++ [cells]) one)⟩

end Harvest
end TlsCensus
