import TlsCensus.Proofs.FirstSights
import Mathlib

/-! A harvest by what its responses are and not by their order. With a sink that refuses nothing
each counter is that of a survey of the responses. Where no two blobs share a digest, the first
sights are the blobs themselves without repeats, so that neither the counters nor the records
stored depend on which occurrence came first. -/
namespace TlsCensus

section Sights

theorem sightsInside {blobs : List Bytes} {der : Bytes} (kept : der ∈ firstSights blobs) : der ∈ blobs := by
  induction blobs using List.reverseRecOn with
  | nil => cases kept
  | append_singleton blobs last ih =>
    rw [sightsLast, List.mem_append] at kept
    rw [List.mem_append]
    refine kept.imp ih fun new => ?_
    split at new
    · cases new
    · exact new

variable {blobs : List Bytes} (apart : ∀ a ∈ blobs, ∀ b ∈ blobs, Digest.ofBytes a = Digest.ofBytes b → a = b)
include apart

theorem memSights {der : Bytes} : der ∈ firstSights blobs ↔ der ∈ blobs := by
  refine ⟨sightsInside, fun inside => ?_⟩
  have met := ((sightsDigests blobs).2 (.ofBytes der)).mpr (List.mem_map_of_mem inside)
  obtain ⟨first, kept, same⟩ := List.mem_map.mp met
  rwa [← apart first (sightsInside kept) der inside same]

theorem sightsPerm {others : List Bytes} (same : blobs.Perm others) :
    (firstSights blobs).Perm (firstSights others) := by
  have apart' : ∀ a ∈ others, ∀ b ∈ others, Digest.ofBytes a = Digest.ofBytes b → a = b :=
    fun a here b there => apart a (same.mem_iff.mpr here) b (same.mem_iff.mpr there)
  refine (List.perm_ext_iff_of_nodup (sightsDigests blobs).1.of_map (sightsDigests others).1.of_map).mpr fun der => ?_
  rw [memSights apart, memSights apart', same.mem_iff]

end Sights

namespace HarvestStats

def ofReading (s : HarvestStats) : HarvestStats :=
  { s with unique := 0, duplicates := 0, unclassified := 0, stored := 0 }

def seeing (n : Nat) (s : HarvestStats) : HarvestStats := { s with certificatesSeen := s.certificatesSeen + n }

theorem seeingTwice (m n : Nat) (s : HarvestStats) : (s.seeing m).seeing n = s.seeing (m + n) := by
  simp [seeing, Nat.add_assoc]

theorem ofCounters {s t : HarvestStats} (reading : s.ofReading = t.ofReading) (unique : s.unique = t.unique)
    (duplicates : s.duplicates = t.duplicates) (unclassified : s.unclassified = t.unclassified)
    (stored : s.stored = t.stored) : s = t := by
  cases s
  cases t
  simp_all [ofReading]

theorem countedReading (s : HarvestStats) (response : Bytes) :
    (s.countResponse response).ofReading = s.ofReading.countResponse response := by
  rw [responseCounted, responseCounted]
  rfl

end HarvestStats

namespace Harvester
variable {σ ε : Type}

def issuesOf (responses : List Bytes) : List Capture.Issue :=
  responses.flatMap fun response => (Capture.extract response).issues

def kindsOf (responses : List Bytes) : List Capture.ResponseKind := responses.map Capture.ResponseKind.of

def survey (classify : Classifier) (responses : List Bytes) : HarvestStats where
  rows := responses.length
  empty := (kindsOf responses).count .empty
  handshake := (kindsOf responses).count .handshake
  other := (kindsOf responses).count .other
  records := (responses.map fun response => (Capture.extract response).records).sum
  certificatesSeen := (blobsOf responses).length
  unique := (firstSights (blobsOf responses)).length
  duplicates := (blobsOf responses).length - (firstSights (blobsOf responses)).length
  unclassified := (firstSights (blobsOf responses)).countP fun der => (recordOf? classify der).isNone
  stored := (recordsOf classify (blobsOf responses)).length
  storeFailures := 0
  truncatedRecords := (issuesOf responses).countP (·.inRecord)
  truncatedMessages := (issuesOf responses).countP (·.inMessage)
  truncatedContainers := (issuesOf responses).countP (·.inCertificates)

theorem surveyLast (classify : Classifier) (responses : List Bytes) (response : Bytes) :
    (survey classify (responses ++ [response])).ofReading =
      ((survey classify responses).ofReading.countResponse response).seeing
        (Capture.extract response).certificates.length := by
  rw [HarvestStats.responseCounted]
  simp [survey, HarvestStats.ofReading, HarvestStats.seeing, kindsOf, issuesOf, blobsOf]

section Reading
variable {E : Setting σ ε} {outside inside : σ → Prop} (obeys : E.sink.Obeys (fun _ => false) outside inside)
include obeys

theorem keepReading {h : Harvester (σ × List Ask)} (settled : h.window.Settled outside inside) (der : Bytes) :
    (h.keep E.logged der).stats.ofReading = h.stats.ofReading := by
  cases classified : E.classify der with
  | error e =>
    rw [keepUnclassified E.logged h classified]
    rfl
  | ok info =>
    have answered := (Window.storeCertificateObeyed (E.clock h.readings) obeys settled
      ⟨info.keyType, info.bitLength, der⟩).1
    rw [keepClassified E.logged h classified]
    simp only [Setting.logged, answered]
    rfl

theorem offerReading {seen : Seen} {h : Harvester (σ × List Ask)} (settled : h.window.Settled outside inside)
    (der : Bytes) : (offer E.logged (seen, h) der).2.stats.ofReading = h.stats.ofReading.seeing 1 := by
  simp only [offer]
  cases seen.observe (.ofBytes der) with
  | mk observed after =>
    cases observed with
    | duplicate => rfl
    | first => exact keepReading obeys (h := h.sighted) settled der

theorem offersReading {blobs : List Bytes} {state : Seen × Harvester (σ × List Ask)}
    (harvested : Harvested E outside inside blobs state) (ders : List Bytes) :
    (ders.foldl (offer E.logged) state).2.stats.ofReading = state.2.stats.ofReading.seeing ders.length := by
  induction ders using List.reverseRecOn with
  | nil => rfl
  | append_singleton ders der ih =>
    have settled := (offersHarvested obeys harvested ders).settled
    rw [List.foldl_append, List.length_append, ← HarvestStats.seeingTwice, ← ih]
    exact offerReading obeys settled der

theorem processAllReading {s : σ} (start : outside s) (maxAge : Nat) (responses : List Bytes) :
    (processAll E.logged (.empty, .new (s, []) maxAge) responses).2.stats.ofReading =
      (survey E.classify responses).ofReading := by
  induction responses using List.reverseRecOn with
  | nil => rfl
  | append_singleton responses response ih =>
    have harvested := countHarvested (processAllHarvested obeys start maxAge responses) response
    rw [surveyLast, ← ih, ← HarvestStats.countedReading, processAll, List.foldl_append]
    exact offersReading obeys harvested _

theorem processAllSurveyed {s : σ} (start : outside s) (maxAge : Nat) (responses : List Bytes) :
    (processAll E.logged (.empty, .new (s, []) maxAge) responses).2.stats = survey E.classify responses := by
  have harvested := processAllHarvested obeys start maxAge responses
  refine HarvestStats.ofCounters (processAllReading obeys start maxAge responses) harvested.unique ?_
    harvested.unclassified harvested.stored
  have all := harvested.duplicates
  rw [harvested.unique] at all
  exact Nat.eq_sub_of_add_eq' all

end Reading

section Order
variable (classify : Classifier) {blobs others : List Bytes} (same : blobs.Perm others)
  (apart : ∀ a ∈ blobs, ∀ b ∈ blobs, Digest.ofBytes a = Digest.ofBytes b → a = b)
include same apart

theorem recordsPerm : (recordsOf classify blobs).Perm (recordsOf classify others) := (sightsPerm apart same).filterMap _

end Order

theorem surveyPerm (classify : Classifier) {responses others : List Bytes} (same : responses.Perm others)
    (apart : ∀ a ∈ blobsOf responses, ∀ b ∈ blobsOf responses, Digest.ofBytes a = Digest.ofBytes b → a = b) :
    survey classify responses = survey classify others := by
  have blobs : (blobsOf responses).Perm (blobsOf others) := same.flatMap_right _
  have issues : (issuesOf responses).Perm (issuesOf others) := same.flatMap_right _
  have kinds : (kindsOf responses).Perm (kindsOf others) := same.map _
  have sights := sightsPerm apart blobs
  have records := recordsPerm classify blobs apart
  simp only [survey, same.length_eq, kinds.count_eq, (same.map _).sum_nat, blobs.length_eq, sights.length_eq,
    sights.countP_eq, records.length_eq, issues.countP_eq]

theorem harvestSurveyed {E : Setting σ ε} {outside inside : σ → Prop}
    (obeys : E.sink.Obeys (fun _ => false) outside inside) {s : σ} (start : outside s) (maxAge : Nat)
    (responses : List Bytes) : ∃ last log,
      (processAll E.logged (.empty, .new (s, []) maxAge) responses).2.finish E.logged =
        .ok (survey E.classify responses, last, log) ∧
      (processAll E (.empty, .new s maxAge) responses).2.finish E = .ok (survey E.classify responses, last) ∧
      rowsOf (Ask.allGranted log) = (recordsOf E.classify (blobsOf responses)).map .certificate := by
  obtain ⟨last, log, ends, -, rows⟩ := finishHarvested obeys (processAllHarvested obeys start maxAge responses)
  rw [processAllSurveyed obeys start maxAge responses] at ends
  exact ⟨last, log, ends, finishPlainly ends, rows⟩

theorem harvestIgnoresOrder {τ η : Type} {S : Sink σ ε} {T : Sink τ η} {outside inside : σ → Prop}
    {outside' inside' : τ → Prop} (obeys : S.Obeys (fun _ => false) outside inside)
    (obeys' : T.Obeys (fun _ => false) outside' inside') {s : σ} {t : τ} (start : outside s) (start' : outside' t)
    (classify : Classifier) (clock clock' : Nat → Nat) (maxAge maxAge' : Nat) {rows rows' : List RawRow}
    (same : (rows.map RawRow.response).Perm (rows'.map RawRow.response))
    (apart : ∀ a ∈ blobsOf (rows.map RawRow.response), ∀ b ∈ blobsOf (rows.map RawRow.response),
      Digest.ofBytes a = Digest.ofBytes b → a = b) :
    let E : Setting σ ε := ⟨classify, S, clock⟩
    let F : Setting τ η := ⟨classify, T, clock'⟩
    let stats := survey classify (rows.map RawRow.response)
    ∃ last log last' log', ∃ records records' : List CertificateRecord,
      (processAll E.logged (.empty, .new (s, []) maxAge) (rows.map RawRow.response)).2.finish E.logged =
        .ok (stats, last, log) ∧
      (processAll F.logged (.empty, .new (t, []) maxAge') (rows'.map RawRow.response)).2.finish F.logged =
        .ok (stats, last', log') ∧
      (processAll E (.empty, .new s maxAge) (rows.map RawRow.response)).2.finish E = .ok (stats, last) ∧
      (processAll F (.empty, .new t maxAge') (rows'.map RawRow.response)).2.finish F = .ok (stats, last') ∧
      rowsOf (Ask.allGranted log) = records.map .certificate ∧
      rowsOf (Ask.allGranted log') = records'.map .certificate ∧ records.Perm records' := by
  intro E F stats
  obtain ⟨last, log, ends, plainly, stored⟩ :=
    harvestSurveyed (E := E) obeys start maxAge (rows.map RawRow.response)
  obtain ⟨last', log', ends', plainly', stored'⟩ :=
    harvestSurveyed (E := F) obeys' start' maxAge' (rows'.map RawRow.response)
  have surveys := surveyPerm classify same apart
  rw [show F.classify = classify from rfl, ← surveys] at ends' plainly'
  have blobs : (blobsOf (rows.map RawRow.response)).Perm (blobsOf (rows'.map RawRow.response)) := same.flatMap_right _
  exact ⟨last, log, last', log', _, _, ends, ends', plainly, plainly', stored, stored',
    recordsPerm classify blobs apart⟩

theorem capturesReordered :
    let classify : Classifier := fun der => if der = [120] then .error .undecodable else .ok ⟨.rsa, 8⟩
    let one : Bytes := [22, 3, 3, 0, 15, 11, 0, 0, 11, 0, 0, 8, 0, 0, 1, 7, 0, 0, 1, 9]
    let two : Bytes := [22, 3, 3, 0, 15, 11, 0, 0, 11, 0, 0, 8, 0, 0, 1, 9, 0, 0, 1, 120]
    let rows : List RawRow := [⟨1, 443, 5, 2, one⟩, ⟨2, 443, 5, 2, two⟩, ⟨3, 443, 6, 4, []⟩]
    let rows' : List RawRow := [⟨9, 25, 8, -1, []⟩, ⟨8, 25, 8, 0, two⟩, ⟨7, 25, 9, 0, one⟩]
    let E : Setting Recorder Refusal := ⟨classify, Recorder.sink, id⟩
    let fresh : Recorder := ⟨0, 0, [], [], []⟩
    let stats : HarvestStats := ⟨3, 1, 2, 0, 2, 4, 3, 1, 1, 2, 0, 0, 0, 0⟩
    (rows.map RawRow.response).Perm (rows'.map RawRow.response) ∧ ∃ last last',
      (processAll E (.empty, .new fresh 5) (rows.map RawRow.response)).2.finish E = .ok (stats, last) ∧
      (processAll E (.empty, .new fresh 1) (rows'.map RawRow.response)).2.finish E = .ok (stats, last') := by
  intro classify one two rows rows' E fresh stats
  have same : (rows.map RawRow.response).Perm (rows'.map RawRow.response) := by decide +kernel
  have apart : ∀ a ∈ blobsOf (rows.map RawRow.response), ∀ b ∈ blobsOf (rows.map RawRow.response),
      Digest.ofBytes a = Digest.ofBytes b → a = b := by decide +kernel
  have counted : survey classify (rows.map RawRow.response) = stats := by decide +kernel
  obtain ⟨last, -, last', -, -, -, -, -, ends, ends', -, -, -⟩ :=
    harvestIgnoresOrder recorderGrants recorderGrants (s := fresh) (t := fresh) ⟨rfl, rfl, rfl, rfl⟩
      ⟨rfl, rfl, rfl, rfl⟩ classify id id 5 1 same apart
  rw [counted] at ends ends'
  exact ⟨same, last, last', ends, ends'⟩

end Harvester
end TlsCensus
