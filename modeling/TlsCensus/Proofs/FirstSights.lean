import TlsCensus.Harvest
import TlsCensus.Proofs.Deposits
import Mathlib.Data.Finset.Card

/-! A harvest against its reference: all blobs in order, of each digest the first, and of
those the ones that can be classified. The digests seen and the counters say of the blobs
so far what the reference says of them, so with a sink that refuses nothing the records
stored are the reference, and after the last commit all of them are safe. -/
namespace TlsCensus

section Sights

def firstSights (blobs : List Bytes) : List Bytes :=
  blobs.eraseDupsBy fun a b => Digest.ofBytes a == Digest.ofBytes b

theorem eraseLoopAppend {α : Type} (same : α → α → Bool) (xs ys kept : List α) :
    List.eraseDupsBy.loop same (xs ++ ys) kept =
      List.eraseDupsBy.loop same ys (List.eraseDupsBy.loop same xs kept).reverse := by
  induction xs generalizing kept with
  | nil => simp [List.eraseDupsBy.loop]
  | cons x rest ih =>
    simp only [List.cons_append, List.eraseDupsBy.loop]
    split <;> exact ih _

theorem sightsLast (blobs : List Bytes) (der : Bytes) :
    firstSights (blobs ++ [der]) = firstSights blobs ++
      if Digest.ofBytes der ∈ (firstSights blobs).map Digest.ofBytes then [] else [der] := by
  rw [firstSights, List.eraseDupsBy, eraseLoopAppend, ← List.eraseDupsBy, ← firstSights]
  by_cases old : Digest.ofBytes der ∈ (firstSights blobs).map Digest.ofBytes
  · have met : (firstSights blobs).reverse.any (fun b => Digest.ofBytes der == Digest.ofBytes b) = true := by
      obtain ⟨b, mem, same⟩ := List.mem_map.mp old
      exact List.any_eq_true.mpr ⟨b, List.mem_reverse.mpr mem, beq_iff_eq.mpr same.symm⟩
    rw [if_pos old, List.append_nil, List.eraseDupsBy.loop, met, List.eraseDupsBy.loop, List.reverse_reverse]
  · have unmet : (firstSights blobs).reverse.any (fun b => Digest.ofBytes der == Digest.ofBytes b) = false := by
      refine List.any_eq_false.mpr fun b mem same => old ?_
      exact List.mem_map.mpr ⟨b, List.mem_reverse.mp mem, (beq_iff_eq.mp same).symm⟩
    rw [if_neg old, List.eraseDupsBy.loop, unmet]
    simp only [List.eraseDupsBy.loop, List.reverse_cons, List.reverse_reverse]

theorem sightsDigests (blobs : List Bytes) : ((firstSights blobs).map Digest.ofBytes).Nodup ∧
    ∀ d, d ∈ (firstSights blobs).map Digest.ofBytes ↔ d ∈ blobs.map Digest.ofBytes := by
  induction blobs using List.reverseRecOn with
  | nil => exact ⟨.nil, fun d => Iff.rfl⟩
  | append_singleton blobs der ih =>
    obtain ⟨distinct, same⟩ := ih
    rw [sightsLast]
    by_cases old : Digest.ofBytes der ∈ (firstSights blobs).map Digest.ofBytes
    · rw [if_pos old, List.append_nil]
      refine ⟨distinct, fun d => ?_⟩
      rw [List.map_append, List.mem_append, ← same, List.map_singleton, List.mem_singleton]
      exact ⟨.inl, Or.rec id fun last => last ▸ old⟩
    · rw [if_neg old, List.map_append, List.map_append]
      refine ⟨?_, fun d => by rw [List.mem_append, List.mem_append, same]⟩
      refine List.nodup_append.mpr ⟨distinct, List.nodup_singleton _, ?_⟩
      rintro d mem _ last rfl
      exact old (List.mem_singleton.mp last ▸ mem)

theorem sightsCount (blobs : List Bytes) :
    (firstSights blobs).length = (blobs.map Digest.ofBytes).toFinset.card := by
  obtain ⟨distinct, same⟩ := sightsDigests blobs
  have sets : (blobs.map Digest.ofBytes).toFinset = ((firstSights blobs).map Digest.ofBytes).toFinset := by
    ext d
    rw [List.mem_toFinset, List.mem_toFinset, same]
  rw [sets, List.toFinset_card_of_nodup distinct, List.length_map]

theorem observeCases {seen : Seen} {blobs : List Bytes}
    (met : ∀ d, seen.contains d = true ↔ d ∈ (firstSights blobs).map Digest.ofBytes) (der : Bytes) :
    (firstSights (blobs ++ [der]) = firstSights blobs ∧
      seen.observe (.ofBytes der) = (.duplicate, seen)) ∨
    (firstSights (blobs ++ [der]) = firstSights blobs ++ [der] ∧
      ∃ after : Seen, seen.observe (.ofBytes der) = (.first, after) ∧
        ∀ d, after.contains d = true ↔ d ∈ (firstSights blobs ++ [der]).map Digest.ofBytes) := by
  rw [sightsLast]
  cases known : seen.contains (.ofBytes der) with
  | true =>
    rw [if_pos ((met _).mp known), List.append_nil]
    exact .inl ⟨rfl, by rw [Seen.observe, known, if_pos rfl]⟩
  | false =>
    have new : Digest.ofBytes der ∉ (firstSights blobs).map Digest.ofBytes := fun old => by
      rw [(met _).mpr old] at known
      contradiction
    rw [if_neg new]
    refine .inr ⟨rfl, ⟨seen.digests.insert (.ofBytes der)⟩, by rw [Seen.observe, known]; rfl, fun d => ?_⟩
    rw [List.map_append, List.mem_append, ← met, List.map_singleton, List.mem_singleton, Seen.contains,
      Std.HashSet.contains_insert, Bool.or_eq_true, beq_iff_eq, or_comm, eq_comm (a := d)]
    rfl

end Sights

namespace Capture.Issue

def inRecord : Issue → Bool
  | .record _ => true
  | _ => false

def inMessage : Issue → Bool
  | .message _ => true
  | _ => false

def inCertificates : Issue → Bool
  | .certificates _ => true
  | _ => false

end Capture.Issue

namespace HarvestStats

theorem issuesCounted (found : List Capture.Issue) (s : HarvestStats) : found.foldl countIssue s = { s with
    truncatedRecords := s.truncatedRecords + found.countP (·.inRecord)
    truncatedMessages := s.truncatedMessages + found.countP (·.inMessage)
    truncatedContainers := s.truncatedContainers + found.countP (·.inCertificates) } := by
  induction found generalizing s with
  | nil => rfl
  | cons issue rest ih =>
    rw [List.foldl_cons, ih]
    cases issue <;>
      simp [countIssue, Capture.Issue.inRecord, Capture.Issue.inMessage, Capture.Issue.inCertificates,
        Nat.add_assoc, Nat.add_comm 1]

theorem responseCounted (s : HarvestStats) (response : Bytes) : s.countResponse response = { s with
    rows := s.rows + 1
    empty := s.empty + [Capture.ResponseKind.of response].count .empty
    handshake := s.handshake + [Capture.ResponseKind.of response].count .handshake
    other := s.other + [Capture.ResponseKind.of response].count .other
    records := s.records + (Capture.extract response).records
    truncatedRecords := s.truncatedRecords + (Capture.extract response).issues.countP (·.inRecord)
    truncatedMessages := s.truncatedMessages + (Capture.extract response).issues.countP (·.inMessage)
    truncatedContainers :=
      s.truncatedContainers + (Capture.extract response).issues.countP (·.inCertificates) } := by
  rw [countResponse, issuesCounted]
  cases Capture.ResponseKind.of response <;> rfl

def answered (s : HarvestStats) (ok : Bool) : HarvestStats :=
  { s with stored := s.stored + ok.toNat, storeFailures := s.storeFailures + (!ok).toNat }

end HarvestStats

namespace Harvester
variable {σ ε : Type}

def recordOf? (classify : Classifier) (der : Bytes) : Option CertificateRecord :=
  match classify der with
  | .ok info => some ⟨info.keyType, info.bitLength, der⟩
  | .error _ => none

def blobsOf (responses : List Bytes) : List Bytes :=
  responses.flatMap fun response => (Capture.extract response).certificates

def recordsOf (classify : Classifier) (blobs : List Bytes) : List CertificateRecord :=
  (firstSights blobs).filterMap (recordOf? classify)

theorem recordsLast (classify : Classifier) {blobs : List Bytes} {der : Bytes}
    (grown : firstSights (blobs ++ [der]) = firstSights blobs ++ [der]) :
    recordsOf classify (blobs ++ [der]) = recordsOf classify blobs ++ (recordOf? classify der).toList := by
  rw [recordsOf, grown, List.filterMap_append, ← recordsOf]
  cases found : recordOf? classify der <;> simp [found]

def repeated (h : Harvester σ) : Harvester σ :=
  { h with stats := { h.stats with
      certificatesSeen := h.stats.certificatesSeen + 1, duplicates := h.stats.duplicates + 1 } }

def sighted (h : Harvester σ) : Harvester σ :=
  { h with stats := { h.stats with
      certificatesSeen := h.stats.certificatesSeen + 1, unique := h.stats.unique + 1 } }

theorem offerCases (E : Setting σ ε) {state : Seen × Harvester σ} {blobs : List Bytes}
    (met : ∀ d, state.1.contains d = true ↔ d ∈ (firstSights blobs).map Digest.ofBytes) (der : Bytes) :
    (firstSights (blobs ++ [der]) = firstSights blobs ∧ offer E state der = (state.1, state.2.repeated)) ∨
    (firstSights (blobs ++ [der]) = firstSights blobs ++ [der] ∧
      ∃ after : Seen, offer E state der = (after, keep E der state.2.sighted) ∧
        ∀ d, after.contains d = true ↔ d ∈ (firstSights blobs ++ [der]).map Digest.ofBytes) := by
  unfold offer
  rcases observeCases met der with ⟨same, observed⟩ | ⟨grown, after, observed, knows⟩
  · exact .inl ⟨same, by simp only [observed]; rfl⟩
  · exact .inr ⟨grown, after, by simp only [observed]; rfl, knows⟩

theorem keepUnclassified (E : Setting σ ε) (h : Harvester σ) {der : Bytes} {e : ClassifyError}
    (refused : E.classify der = .error e) :
    h.keep E der = { h with stats := { h.stats with unclassified := h.stats.unclassified + 1 } } := by
  rw [keep, refused]

theorem keepClassified (E : Setting σ ε) (h : Harvester σ) {der : Bytes} {info : KeyInfo}
    (classified : E.classify der = .ok info) : h.keep E der =
      ⟨(h.window.storeCertificate E.sink ⟨info.keyType, info.bitLength, der⟩ (E.clock h.readings)).2,
        h.stats.answered (h.window.storeCertificate E.sink ⟨info.keyType, info.bitLength, der⟩ (E.clock h.readings)).1.isOk,
        h.readings + 1⟩ := by
  rw [keep, classified]
  dsimp only
  split <;> rename_i stored <;> rw [stored] <;> rfl

theorem keepCounts (E : Setting σ ε) (h : Harvester σ) (der : Bytes) : ∃ unclassified stored lost,
    unclassified + stored + lost = 1 ∧ (h.keep E der).stats = { h.stats with
      unclassified := h.stats.unclassified + unclassified
      stored := h.stats.stored + stored
      storeFailures := h.stats.storeFailures + lost } := by
  cases classified : E.classify der with
  | error e =>
    rw [keepUnclassified E h classified]
    exact ⟨1, 0, 0, rfl, rfl⟩
  | ok info =>
    have one (ok : Bool) : 0 + ok.toNat + (!ok).toNat = 1 := by cases ok <;> rfl
    rw [keepClassified E h classified]
    exact ⟨0, _, _, one _, rfl⟩

def Setting.logged (E : Setting σ ε) : Setting (σ × List Ask) ε := ⟨E.classify, E.sink.logged, E.clock⟩

section Unlogged

def unlogged (h : Harvester (σ × List Ask)) : Harvester σ := ⟨h.window.unlogged, h.stats, h.readings⟩

variable (E : Setting σ ε)

theorem keepUnlogged (h : Harvester (σ × List Ask)) (der : Bytes) :
    h.unlogged.keep E der = (h.keep E.logged der).unlogged := by
  cases classified : E.classify der with
  | error e =>
    rw [keepUnclassified E _ classified, keepUnclassified E.logged _ classified]
    rfl
  | ok info =>
    have stored := h.window.storeCertificateUnlogged E.sink ⟨info.keyType, info.bitLength, der⟩ (E.clock h.readings)
    rw [keepClassified E _ classified, keepClassified E.logged _ classified]
    simp only [unlogged, stored]
    rfl

theorem offerUnlogged (seen : Seen) (h : Harvester (σ × List Ask)) (der : Bytes) :
    offer E (seen, h.unlogged) der =
      ((offer E.logged (seen, h) der).1, (offer E.logged (seen, h) der).2.unlogged) := by
  simp only [offer]
  cases seen.observe (.ofBytes der) with
  | mk observed after =>
    cases observed with
    | duplicate => rfl
    | first => exact congrArg (Prod.mk after) (keepUnlogged E h.sighted der)

theorem offersUnlogged (ders : List Bytes) (seen : Seen) (h : Harvester (σ × List Ask)) :
    ders.foldl (offer E) (seen, h.unlogged) =
      ((ders.foldl (offer E.logged) (seen, h)).1, (ders.foldl (offer E.logged) (seen, h)).2.unlogged) := by
  induction ders generalizing seen h with
  | nil => rfl
  | cons der rest ih =>
    rw [List.foldl_cons, offerUnlogged]
    exact ih _ _

theorem processAllUnlogged (responses : List Bytes) (seen : Seen) (h : Harvester (σ × List Ask)) :
    processAll E (seen, h.unlogged) responses =
      ((processAll E.logged (seen, h) responses).1, (processAll E.logged (seen, h) responses).2.unlogged) := by
  induction responses generalizing seen h with
  | nil => rfl
  | cons response rest ih =>
    have step := offersUnlogged E (Capture.extract response).certificates seen
      { h with stats := h.stats.countResponse response }
    rw [processAll, List.foldl_cons, processResponse]
    simp only [unlogged] at step ⊢
    rw [step]
    exact ih _ _

theorem finishUnlogged (h : Harvester (σ × List Ask)) :
    h.unlogged.finish E = (h.finish E.logged).map fun last => (last.1, last.2.1) := by
  have flushed := h.window.flushUnlogged E.sink
  simp only [finish, unlogged, Setting.logged, flushed]
  cases h.window.flush E.sink.logged with
  | mk answer w => cases answer <;> rfl

theorem finishPlainly {E : Setting σ ε} {s : σ} {maxAge : Nat} {responses : List Bytes} {stats : HarvestStats}
    {last : σ} {log : List Ask}
    (ends : (processAll E.logged (.empty, .new (s, []) maxAge) responses).2.finish E.logged = .ok (stats, last, log)) :
    (processAll E (.empty, .new s maxAge) responses).2.finish E = .ok (stats, last) := by
  have plainly := finishUnlogged E (processAll E.logged (.empty, .new (s, []) maxAge) responses).2
  rw [ends] at plainly
  rw [show (.new s maxAge : Harvester σ) = (Harvester.new (s, []) maxAge).unlogged from rfl, processAllUnlogged]
  exact plainly

end Unlogged

section Reference
variable {E : Setting σ ε} {outside inside : σ → Prop} {blobs : List Bytes}

structure Harvested (E : Setting σ ε) (outside inside : σ → Prop) (blobs : List Bytes)
    (state : Seen × Harvester (σ × List Ask)) : Prop where
  seen : ∀ d, state.1.contains d = true ↔ d ∈ (firstSights blobs).map Digest.ofBytes
  unique : state.2.stats.unique = (firstSights blobs).length
  duplicates : state.2.stats.unique + state.2.stats.duplicates = blobs.length
  unclassified : state.2.stats.unclassified =
    (firstSights blobs).countP fun der => (recordOf? E.classify der).isNone
  stored : state.2.stats.stored = (recordsOf E.classify blobs).length
  rows : state.2.window.stored = (recordsOf E.classify blobs).map .certificate
  settled : state.2.window.Settled outside inside
  inOrder : state.2.window.InOrder

theorem keepStores (obeys : E.sink.Obeys (fun _ => false) outside inside) {h : Harvester (σ × List Ask)}
    (settled : h.window.Settled outside inside) (inOrder : h.window.InOrder) (der : Bytes) :
    (h.keep E.logged der).window.Settled outside inside ∧ (h.keep E.logged der).window.InOrder ∧
    (h.keep E.logged der).window.stored =
      h.window.stored ++ (recordOf? E.classify der).toList.map .certificate ∧
    (h.keep E.logged der).stats.unique = h.stats.unique ∧
    (h.keep E.logged der).stats.duplicates = h.stats.duplicates ∧
    (h.keep E.logged der).stats.unclassified =
      h.stats.unclassified + (if (recordOf? E.classify der).isNone then 1 else 0) ∧
    (h.keep E.logged der).stats.stored = h.stats.stored + (recordOf? E.classify der).toList.length := by
  unfold recordOf?
  cases classified : E.classify der with
  | error e =>
    rw [keepUnclassified E.logged h classified]
    exact ⟨settled, inOrder, (List.append_nil _).symm, rfl, rfl, rfl, rfl⟩
  | ok info =>
    obtain ⟨answered, still, grown⟩ := Window.storeCertificateObeyed (E.clock h.readings) obeys settled
      ⟨info.keyType, info.bitLength, der⟩
    have ordered := Window.orderlyStoreCertificate (S := E.sink) (E.clock h.readings) inOrder
      ⟨info.keyType, info.bitLength, der⟩
    rw [keepClassified E.logged h classified]
    exact ⟨still, ordered, grown, rfl, rfl, rfl, congrArg (h.stats.stored + Bool.toNat ·) answered⟩

theorem offerHarvested (obeys : E.sink.Obeys (fun _ => false) outside inside)
    {state : Seen × Harvester (σ × List Ask)} (harvested : Harvested E outside inside blobs state) (der : Bytes) :
    Harvested E outside inside (blobs ++ [der]) (offer E.logged state der) := by
  obtain ⟨met, unique, duplicates, unclassified, stored, rows, settled, inOrder⟩ := harvested
  have length : (blobs ++ [der]).length = blobs.length + 1 := List.length_append
  rcases offerCases E.logged met der with ⟨same, offered⟩ | ⟨grown, after, offered, knows⟩
  · have records : recordsOf E.classify (blobs ++ [der]) = recordsOf E.classify blobs := by
      rw [recordsOf, same, ← recordsOf]
    rw [offered]
    refine ⟨?_, ?_, ?_, ?_, ?_, ?_, settled, inOrder⟩
    · rwa [same]
    · rwa [same]
    · rw [length, ← duplicates]
      exact (Nat.add_assoc _ _ _).symm
    · rwa [same]
    · rwa [records]
    · rwa [records]
  · have records := recordsLast E.classify grown
    obtain ⟨still, ordered, stores, first, again, failed, kept⟩ :=
      keepStores obeys (h := state.2.sighted) settled inOrder der
    rw [offered]
    refine ⟨?_, ?_, ?_, ?_, ?_, ?_, still, ordered⟩
    · rwa [grown]
    · rw [first, grown, List.length_append, List.length_singleton, ← unique]
      rfl
    · rw [first, again, length, ← duplicates]
      exact Nat.add_right_comm _ _ _
    · rw [failed, grown, List.countP_append, List.countP_singleton, ← unclassified]
      rfl
    · rw [kept, records, List.length_append, ← stored]
      rfl
    · rw [stores, records, List.map_append, ← rows]
      rfl

theorem offersHarvested (obeys : E.sink.Obeys (fun _ => false) outside inside)
    {state : Seen × Harvester (σ × List Ask)} (harvested : Harvested E outside inside blobs state)
    (ders : List Bytes) : Harvested E outside inside (blobs ++ ders) (ders.foldl (offer E.logged) state) := by
  induction ders using List.reverseRecOn with
  | nil =>
    rw [List.append_nil]
    exact harvested
  | append_singleton ders der ih =>
    rw [List.foldl_append, ← List.append_assoc]
    exact offerHarvested obeys ih der

theorem countResponseBlobs (stats : HarvestStats) (response : Bytes) :
    (stats.countResponse response).unique = stats.unique ∧
    (stats.countResponse response).duplicates = stats.duplicates ∧
    (stats.countResponse response).unclassified = stats.unclassified ∧
    (stats.countResponse response).stored = stats.stored := by
  rw [HarvestStats.responseCounted]
  exact ⟨rfl, rfl, rfl, rfl⟩

theorem countHarvested {state : Seen × Harvester (σ × List Ask)}
    (harvested : Harvested E outside inside blobs state) (response : Bytes) :
    Harvested E outside inside blobs
      (state.1, { state.2 with stats := state.2.stats.countResponse response }) := by
  obtain ⟨unique, duplicates, unclassified, stored⟩ := countResponseBlobs state.2.stats response
  exact ⟨harvested.seen, unique.trans harvested.unique,
    (congrArg₂ _ unique duplicates).trans harvested.duplicates, unclassified.trans harvested.unclassified,
    stored.trans harvested.stored, harvested.rows, harvested.settled, harvested.inOrder⟩

theorem processHarvested (obeys : E.sink.Obeys (fun _ => false) outside inside)
    {state : Seen × Harvester (σ × List Ask)} (harvested : Harvested E outside inside blobs state)
    (response : Bytes) :
    Harvested E outside inside (blobs ++ (Capture.extract response).certificates)
      (processResponse E.logged state response) :=
  offersHarvested obeys (countHarvested harvested response) _

theorem processAllHarvested (obeys : E.sink.Obeys (fun _ => false) outside inside) {s : σ} (start : outside s)
    (maxAge : Nat) (responses : List Bytes) :
    Harvested E outside inside (blobsOf responses)
      (processAll E.logged (.empty, .new (s, []) maxAge) responses) := by
  induction responses using List.reverseRecOn with
  | nil =>
    refine ⟨fun d => ?_, rfl, rfl, rfl, rfl, rfl, start, Window.orderlyNew s maxAge⟩
    simp [processAll, Seen.empty, Seen.contains, blobsOf, firstSights]
  | append_singleton responses response ih =>
    rw [processAll, List.foldl_append, blobsOf, List.flatMap_append, List.flatMap_singleton]
    exact processHarvested obeys ih response

theorem finishHarvested (obeys : E.sink.Obeys (fun _ => false) outside inside)
    {state : Seen × Harvester (σ × List Ask)} (harvested : Harvested E outside inside blobs state) :
    ∃ last log, state.2.finish E.logged = .ok (state.2.stats, last, log) ∧ Orderly log false ∧
      rowsOf (Ask.allGranted log) = (recordsOf E.classify blobs).map .certificate := by
  obtain ⟨flushed, -, closed⟩ := Window.flushObeyed obeys harvested.settled
  have ordered := (Window.orderlyFlush (S := E.sink) harvested.inOrder).1
  have grown := Window.flushStored (S := E.sink) (w := state.2.window)
  unfold finish
  rw [show E.logged.sink = E.sink.logged from rfl]
  cases asked : state.2.window.flush E.sink.logged with
  | mk answer w =>
    rw [asked] at flushed closed ordered grown
    cases flushed
    rw [Window.InOrder, closed] at ordered
    exact ⟨w.sink.1, w.log, rfl, ordered, grown.trans harvested.rows⟩

theorem harvestStoresFirstSights {S : Sink σ ε} (obeys : S.Obeys (fun _ => false) outside inside) {s : σ}
    (start : outside s) (classify : Classifier) (clock : Nat → Nat) (maxAge : Nat) (responses : List Bytes) :
    let plain : Setting σ ε := ⟨classify, S, clock⟩
    let blobs := blobsOf responses
    let distinct := (blobs.map Digest.ofBytes).toFinset.card
    ∃ stats last log whole,
      (processAll plain (.empty, .new s maxAge) responses).2.finish plain = .ok (stats, last) ∧
      (processAll plain.logged (.empty, .new (s, []) maxAge) responses).2.finish plain.logged =
        .ok (stats, last, log) ∧
      Ask.allGranted log = ledger whole none ∧
      whole.flatten = (recordsOf classify blobs).map .certificate ∧
      stats.unique = distinct ∧ stats.duplicates = blobs.length - distinct ∧
      stats.unclassified = ((firstSights blobs).filter fun der => (recordOf? classify der).isNone).length ∧
      stats.stored = (recordsOf classify blobs).length := by
  intro plain blobs distinct
  have harvested := processAllHarvested (E := plain) obeys start maxAge responses
  have unlogged := processAllUnlogged plain responses .empty (.new (s, []) maxAge)
  obtain ⟨last, log, ends, ordered, rows⟩ := finishHarvested obeys harvested
  obtain ⟨whole, word, flat⟩ := ordered.wholeTransactions
  have unique : _ = distinct := harvested.unique.trans (sightsCount blobs)
  refine ⟨_, last, log, whole, ?_, ends, word, flat.trans rows, unique, ?_, ?_, harvested.stored⟩
  · have plainly := finishUnlogged plain (processAll plain.logged (.empty, .new (s, []) maxAge) responses).2
    rw [ends] at plainly
    rw [show (.new s maxAge : Harvester σ) = (Harvester.new (s, []) maxAge).unlogged from rfl, unlogged]
    exact plainly
  · rw [← harvested.duplicates, ← unique, Nat.add_sub_cancel_left]
  · rw [harvested.unclassified, List.countP_eq_length_filter]

end Reference

theorem twoCapturesLeaveTwoRecords :
    let classify : Classifier := fun der => if der = [120] then .error .undecodable else .ok ⟨.rsa, 8⟩
    let plain : Setting Recorder Refusal := ⟨classify, Recorder.sink, id⟩
    let captures := [[22, 3, 3, 0, 15, 11, 0, 0, 11, 0, 0, 8, 0, 0, 1, 7, 0, 0, 1, 9],
      [22, 3, 3, 0, 15, 11, 0, 0, 11, 0, 0, 8, 0, 0, 1, 9, 0, 0, 1, 120]]
    Recorder.sink.Obeys (fun _ => false) (Recorder.Willing [] []) (Recorder.Willing [] []) ∧
    Recorder.Willing [] [] ⟨0, 0, [], [], []⟩ ∧ ∃ stats last log whole,
      (processAll plain.logged (.empty, .new (⟨0, 0, [], [], []⟩, []) 5) captures).2.finish plain.logged =
        .ok (stats, last, log) ∧
      Ask.allGranted log = ledger whole none ∧
      whole.flatten = [.certificate ⟨.rsa, 8, [7]⟩, .certificate ⟨.rsa, 8, [9]⟩] ∧
      stats.unique = 3 ∧ stats.duplicates = 1 ∧ stats.unclassified = 1 ∧ stats.stored = 2 := by
  intro classify plain captures
  have willing : Recorder.Willing [] [] ⟨0, 0, [], [], []⟩ := ⟨rfl, rfl, rfl, rfl⟩
  obtain ⟨stats, last, log, whole, -, ends, word, rows, unique, duplicates, unclassified, stored⟩ :=
    harvestStoresFirstSights recorderGrants willing classify id 5 captures
  refine ⟨recorderGrants, willing, stats, last, log, whole, ends, word, rows.trans ?_, unique.trans ?_,
    duplicates.trans ?_, unclassified.trans ?_, stored.trans ?_⟩ <;> decide +kernel

end Harvester
end TlsCensus
