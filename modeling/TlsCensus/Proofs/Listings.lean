import TlsCensus.Harvest.Transfer
import TlsCensus.Proofs.HarvestCounters
import TlsCensus.Proofs.ListingText
import TlsCensus.Proofs.RepeatedTransfers

/-! Listings of stored replies and the counts of their kinds. A harvest over the same rows counts
the same, and the listing holds each row once, in the order of the table. -/
namespace TlsCensus

namespace Triage.Totals

def countAll (t : Totals) (responses : List Bytes) : Totals :=
  responses.foldl (fun totals response => totals.count (.of response)) t

theorem countSums (t : Totals) (kind : Capture.ResponseKind) :
    (t.count kind).rows = t.rows + 1 ∧
      (t.count kind).valid + (t.count kind).error + (t.count kind).invalid = t.valid + t.error + t.invalid + 1 := by
  cases kind <;> exact ⟨rfl, by simp only [count]; omega⟩

theorem countAllSums (t : Totals) (responses : List Bytes) :
    (t.countAll responses).rows = t.rows + responses.length ∧
      (t.countAll responses).valid + (t.countAll responses).error + (t.countAll responses).invalid =
        t.valid + t.error + t.invalid + responses.length := by
  induction responses generalizing t with
  | nil => exact ⟨rfl, rfl⟩
  | cons response rest ih =>
    obtain ⟨rows, kinds⟩ := ih (t.count (.of response))
    obtain ⟨row, kind⟩ := countSums t (.of response)
    rw [countAll, List.foldl_cons, ← countAll, List.length_cons]
    omega

end Triage.Totals

section Kinds
variable {σ ε : Type}

def HarvestStats.kinds (s : HarvestStats) : Triage.Totals := ⟨s.rows, s.handshake, s.other, s.empty⟩

theorem HarvestStats.responseKinds (s : HarvestStats) (response : Bytes) :
    (s.countResponse response).kinds = s.kinds.count (.of response) := by
  rw [responseCounted]
  cases Capture.ResponseKind.of response <;> rfl

namespace Harvester

theorem keepKinds (E : Setting σ ε) (h : Harvester σ) (der : Bytes) : (h.keep E der).stats.kinds = h.stats.kinds := by
  obtain ⟨_, _, _, -, counted⟩ := keepCounts E h der
  rw [counted]
  rfl

theorem offersKinds (E : Setting σ ε) (state : Seen × Harvester σ) (blobs : List Bytes) :
    (blobs.foldl (offer E) state).2.stats.kinds = state.2.stats.kinds := by
  induction blobs generalizing state with
  | nil => rfl
  | cons der rest ih =>
    refine (ih _).trans ?_
    unfold offer
    dsimp only
    split
    · rfl
    -- What is kept was counted as new first, and that is no kind either.
    · exact keepKinds E state.2.sighted der

theorem processAllKinds (E : Setting σ ε) (state : Seen × Harvester σ) (responses : List Bytes) :
    (processAll E state responses).2.stats.kinds = state.2.stats.kinds.countAll responses := by
  induction responses generalizing state with
  | nil => rfl
  | cons response rest ih =>
    refine (ih _).trans ?_
    rw [processResponse, offersKinds, HarvestStats.responseKinds]
    rfl

theorem finishStats {E : Setting σ ε} {h : Harvester σ} {stats : HarvestStats} {last : σ}
    (finished : h.finish E = .ok (stats, last)) : stats = h.stats := by
  unfold finish at finished
  split at finished
  · cases finished
    rfl
  · contradiction

end Harvester

theorem Harvest.transferKinds {clock : Nat → Nat} {maxAge : Nat} {raw certs last : Store} {stats : HarvestStats}
    (succeeded : transfer clock maxAge raw certs = (.ok stats, last)) :
    stats.kinds = Triage.Totals.zero.countAll (responsesOf raw.tables) := by
  unfold transfer at succeeded
  dsimp only at succeeded
  split at succeeded
  · cases succeeded
  · rename_i visited
    split at succeeded
    · rename_i finished
      cases succeeded
      have processed := congrArg Prod.snd (visitProcesses _ visited)
      dsimp only at processed
      rw [Harvester.finishStats finished, processed]
      exact Harvester.processAllKinds _ _ _
    · cases succeeded

end Kinds

namespace Triage

theorem visitFold (rows : List RawRow) (t : Totals) (entries : Array Entry) :
    rows.foldl (fun state row => (visit row state).2) (t, entries) =
      (t.countAll (rows.map RawRow.response), entries ++ (rows.map Entry.ofRow).toArray) := by
  induction rows generalizing t entries with
  | nil => simp [Totals.countAll]
  | cons row rest ih =>
    rw [List.foldl_cons, visit, ih]
    simp [Totals.countAll]

theorem collectFold (rows seen : List RawRow) : rows.foldl (fun t row => (Store.collect row t).2) seen = seen ++ rows := by
  induction rows generalizing seen with
  | nil => exact (List.append_nil seen).symm
  | cons row rest ih => exact (ih _).trans (by simp [Store.collect])

theorem responsesRead {cells : List RawCells} {fields : List RawCells.Fields} (readable : Store.Readable cells fields) :
    cells.map (·.response.octets) = (fields.map RawCells.Fields.toRow).map RawRow.response := by
  induction readable with
  | nil => rfl
  | cons read _ ih => rw [List.map_cons, ih, ← Harvest.readResponse read, List.map_cons, List.map_cons]

structure Entry.Tells (e : Entry) (row : RawRow) : Prop where
  address : e.address = row.address
  port : e.port = row.port
  fetchedAt : e.fetchedAt = row.fetchedAt
  result : e.result = row.result
  kind : e.kind = .of row.response
  responseLength : e.responseLength = row.response.length

theorem tellsRow {e : Entry} {row : RawRow} : e.Tells row ↔ e = .ofRow row := by
  constructor
  · rintro ⟨address, port, fetchedAt, result, kind, responseLength⟩
    rw [Entry.ofRow, ← address, ← port, ← fetchedAt, ← result, ← kind, ← responseLength]
  · rintro rfl
    exact ⟨rfl, rfl, rfl, rfl, rfl, rfl⟩

theorem tellsRows {entries : List Entry} {rows : List RawRow} :
    List.Forall₂ Entry.Tells entries rows ↔ entries = rows.map Entry.ofRow := by
  rw [← List.forall₂_eq_eq_eq, List.forall₂_map_right_iff]
  exact ⟨fun told => told.imp fun _ _ => tellsRow.mp, fun same => same.imp fun _ _ => tellsRow.mpr⟩

theorem storedRowsListed {s : Store} {n : Nat} {rows : List RawRow}
    (streamed : s.forEachRaw Store.collect [] = (.ok n, rows)) :
    List.Forall₂ (fun cells row => ∃ fields, cells.read = .ok fields ∧ row = fields.toRow) s.tables.raw.toList rows ∧
    ∃ (totals : Totals) (entries : List Entry), run s = (.ok totals, entries) ∧ List.Forall₂ Entry.Tells entries rows ∧
      s.countRows "raw_data" = .ok totals.rows ∧ totals.rows = totals.valid + totals.error + totals.invalid ∧
      (∀ (σ ε : Type) (E : Harvester.Setting σ ε) (seen : Seen) (sink : σ) (maxAge : Nat),
        (Harvester.processAll E (seen, .new sink maxAge) (rows.map RawRow.response)).2.stats.kinds = totals) ∧
      (∀ (clock : Nat → Nat) (maxAge : Nat) (certs : Store), certs.saved = none → ∃ stats last,
        Harvest.transfer clock maxAge s certs = (.ok stats, last) ∧ stats.kinds = totals) ∧
      (∀ format : Format,
        lines (format.text entries) = (format.heading entries ++ entries.map format.record).map String.toList) ∧
      ∃ records, (∀ format : Format, format.records? (format.text entries) = some records) ∧
        records.mapM Entry.ofFields? = some entries ∧ ∀ fields ∈ records, ∀ field ∈ fields, Text.Plain field.2 := by
  obtain ⟨fields, readable, size, given⟩ := (Store.streamCalm fun _ _ => rfl).mp streamed
  rw [collectFold, List.nil_append] at given
  have order : List.Forall₂ (fun cells row => ∃ fields, cells.read = .ok fields ∧ row = fields.toRow)
      s.tables.raw.toList rows := by
    rw [given, List.forall₂_map_right_iff]
    exact readable.imp fun cells found read => ⟨found, read, rfl⟩
  let totals := Totals.zero.countAll (rows.map RawRow.response)
  let entries := rows.map Entry.ofRow
  have counted : run s = (.ok totals, entries) := by
    have visited : s.forEachRaw visit (.zero, #[]) = (.ok n, totals, entries.toArray) :=
      (Store.streamCalm fun _ _ => rfl).mpr ⟨fields, readable, size, by rw [← given, visitFold, Array.empty_append]⟩
    rw [run, visited]
  obtain ⟨length, kinds⟩ := Totals.zero.countAllSums (rows.map RawRow.response)
  refine ⟨order, totals, entries, counted, tellsRows.mpr rfl, ?_, length.trans kinds.symm,
    fun _ _ E seen sink maxAge => ?_, fun clock maxAge certs idle => ?_, fun format => textLines format entries,
    entries.map Entry.fields, fun format => recordsRead format entries, ?_, ?_⟩
  · have all : totals.rows = s.tables.raw.size := by
      rw [length, List.length_map, ← order.length_eq, Array.length_toList]
      exact Nat.zero_add _
    rw [all]
    rfl
  · exact Harvester.processAllKinds E _ _
  · have reads : (s.forEachRaw (Harvest.visit (Harvest.setting clock)) (.empty, .new certs maxAge)).1.isOk := by
      rw [(Store.streamCalm fun _ _ => rfl).mpr ⟨fields, readable, size, rfl⟩]
      rfl
    obtain ⟨stats, last, succeeded, -⟩ := Harvest.transferFills idle s reads
    refine ⟨stats, last, succeeded, (Harvest.transferKinds succeeded).trans ?_⟩
    rw [Harvest.responsesOf, responsesRead readable, ← given]
  · exact (mapMEach fun e _ => Entry.fieldsRead e).trans (congrArg some (List.map_id entries))
  · exact List.forall_mem_map.mpr fun e _ field here => Entry.barePlain e _ (List.of_mem_zip here).2

theorem oddRowsListed :
    let s : Store := .ofTables { Tables.empty with raw := #[
      ⟨.integer 3221225985, .integer 443, .null, .integer 9, .blob [22, 3]⟩,
      ⟨.integer 1, .integer 25, .integer (-1), .null, .null⟩] }
    let rows : List RawRow := [⟨3221225985, 443, 0, 9, [22, 3]⟩, ⟨1, 25, 18446744073709551615, -1, []⟩]
    let listed : List Entry := [⟨3221225985, 443, 0, 9, .handshake, 2⟩, ⟨1, 25, 18446744073709551615, -1, .empty, 0⟩]
    s.forEachRaw Store.collect [] = (.ok 2, rows) ∧ Store.empty.saved = none ∧ run s = (.ok ⟨2, 1, 0, 1⟩, listed) ∧
      (∃ stats last, Harvest.transfer id 5 s .empty = (.ok stats, last) ∧ stats.kinds = ⟨2, 1, 0, 1⟩) ∧
      (lines (Format.csv.text listed)).length = 3 ∧ (lines (Format.jsonLines.text listed)).length = 2 ∧
      ∀ format : Format, (format.records? (format.text listed)).bind (·.mapM Entry.ofFields?) = some listed := by
  intro s rows listed
  have streamed : s.forEachRaw Store.collect [] = (.ok 2, rows) := by decide +kernel
  obtain ⟨-, totals, entries, counted, told, -, -, -, harvested, lined, records, read, decoded, -⟩ := storedRowsListed streamed
  have same : entries = listed := (tellsRows.mp told).trans (by decide +kernel)
  subst same
  have kinds : totals = ⟨2, 1, 0, 1⟩ := by
    have ran : (run s).1 = .ok ⟨2, 1, 0, 1⟩ := by decide +kernel
    rw [counted] at ran
    exact Except.ok.inj ran
  rw [lined .csv, lined .jsonLines]
  exact ⟨streamed, rfl, kinds ▸ counted, kinds ▸ harvested id 5 .empty rfl, rfl, rfl,
    fun format => by rw [read format]; exact decoded⟩

end Triage
end TlsCensus
