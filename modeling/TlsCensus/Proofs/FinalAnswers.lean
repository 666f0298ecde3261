import TlsCensus.Proofs.FirstSights

/-! What a harvest asks of a sink that may refuse anything at any time. A certificate is
handed over at the first sight of its digest and never again, so the answer it gets then is
final: a granted one is held once, and one that was refused is lost, however often it is met
once the sink is well again. -/
namespace TlsCensus

def SinkCall.bears (d : Digest) : SinkCall → Bool
  | .inserted (.certificate record) => Digest.ofBytes record.der == d
  | _ => false

namespace Seen
variable {s : Seen} {d e : Digest}

def insert (s : Seen) (d : Digest) : Seen := ⟨s.digests.insert d⟩

theorem containsInsert : (s.insert e).contains d = true ↔ d = e ∨ s.contains d = true := by
  rw [insert, contains, Std.HashSet.contains_insert, Bool.or_eq_true, beq_iff_eq, eq_comm]
  rfl

theorem observeKnown (known : s.contains d = true) : s.observe d = (.duplicate, s) := by
  rw [observe, known, if_pos rfl]

theorem observeNew (new : s.contains d = false) : s.observe d = (.first, s.insert d) := by
  rw [observe, new]
  rfl

end Seen

namespace Window
variable {σ ε : Type} {S : Sink σ ε} {w : Window (σ × List Ask)} {d : Digest}

def bearing (d : Digest) (w : Window (σ × List Ask)) : List Ask := w.log.filter (·.call.bears d)

theorem bearingView : w.bearing d = w.log.filterMap (Option.guard (·.call.bears d)) := by
  rw [List.filterMap_eq_filter]
  rfl

theorem bearingBlind : Blind (Option.guard (·.call.bears d)) := by
  intro call ok bare
  cases call with
  | inserted row => contradiction
  | _ => rfl

theorem grantedBearing (d : Digest) (log : List Ask) :
    (Ask.allGranted log).filter (·.bears d) = Ask.allGranted (log.filter (·.call.bears d)) := by
  induction log with
  | nil => rfl
  | cons ask rest ih =>
    obtain ⟨call, ok⟩ := ask
    cases bears : call.bears d <;> cases ok <;> simpa [Ask.allGranted, Ask.granted?, bears] using ih

theorem storeCertificateBearing (record : CertificateRecord) (now : Nat) : ∃ asks : List Ask,
    (w.storeCertificate S.logged record now).2.bearing d = w.bearing d ++ asks.filter (·.call.bears d) ∧
    ((asks = [] ∧ (w.storeCertificate S.logged record now).1.isOk = false) ∨
      asks = [⟨.inserted (.certificate record), (w.storeCertificate S.logged record now).1.isOk⟩]) := by
  simp only [bearingView, ← List.filterMap_eq_filter]
  exact storeCertificateAsks now bearingBlind record

end Window

namespace Harvester
variable {σ ε : Type}

def opened (state : Seen × Harvester σ) (response : Bytes) : Seen × Harvester σ :=
  (state.1, { state.2 with stats := state.2.stats.countResponse response })

section Offers
variable (E : Setting σ ε) {seen : Seen} {h : Harvester σ} {der : Bytes} (state : Seen × Harvester σ)

theorem offerKnown (known : seen.contains (.ofBytes der) = true) : offer E (seen, h) der = (seen, h.repeated) := by
  simp only [offer, Seen.observeKnown known]
  rfl

theorem offerNew (new : seen.contains (.ofBytes der) = false) :
    offer E (seen, h) der = (seen.insert (.ofBytes der), keep E der h.sighted) := by
  simp only [offer, Seen.observeNew new]
  rfl

theorem offerSeen (d : Digest) :
    (offer E state der).1.contains d = true ↔ d = .ofBytes der ∨ state.1.contains d = true := by
  obtain ⟨seen, h⟩ := state
  cases known : seen.contains (.ofBytes der) with
  | true =>
    rw [offerKnown E known]
    exact ⟨.inr, Or.rec (fun same => same ▸ known) id⟩
  | false =>
    rw [offerNew E known]
    exact Seen.containsInsert

theorem offersSeen (blobs : List Bytes) (d : Digest) :
    (blobs.foldl (offer E) state).1.contains d = true ↔ d ∈ blobs.map Digest.ofBytes ∨ state.1.contains d = true := by
  induction blobs generalizing state with
  | nil => simp
  | cons der rest ih =>
    rw [List.foldl_cons, ih, offerSeen, List.map_cons, List.mem_cons, or_left_comm, or_assoc]

theorem processAllSeen (responses : List Bytes) (d : Digest) :
    (processAll E state responses).1.contains d = true ↔
      d ∈ (blobsOf responses).map Digest.ofBytes ∨ state.1.contains d = true := by
  induction responses generalizing state with
  | nil => simp [processAll, blobsOf]
  | cons response rest ih =>
    have step := ih (processResponse E state response)
    have blobs : blobsOf (response :: rest) = (Capture.extract response).certificates ++ blobsOf rest := List.flatMap_cons
    rw [processAll, List.foldl_cons, ← processAll, step, processResponse, offersSeen, blobs, List.map_append,
      List.mem_append, or_left_comm, or_assoc]

end Offers

section Asked
variable (E : Setting σ ε) {h : Harvester (σ × List Ask)} (state : Seen × Harvester (σ × List Ask))
  {der : Bytes} {d : Digest}

theorem keepHands (h : Harvester (σ × List Ask)) (der : Bytes) (d : Digest) : ∃ asks : List Ask,
    (h.keep E.logged der).window.bearing d = h.window.bearing d ++ asks ∧
    asks.length ≤ (if d = .ofBytes der then 1 else 0) ∧
    (d = .ofBytes der → ∀ info, E.classify der = .ok info →
      let record : CertificateRecord := ⟨info.keyType, info.bitLength, der⟩
      Ask.allGranted asks =
        if (h.window.storeCertificate E.logged.sink record (E.clock h.readings)).1.isOk then
          [.inserted (.certificate record)] else []) := by
  cases classified : E.classify der with
  | error e =>
    rw [keepUnclassified E.logged h classified]
    exact ⟨[], (List.append_nil _).symm, Nat.zero_le _, fun _ _ => nofun⟩
  | ok info =>
    obtain ⟨asks, grown, said⟩ := Window.storeCertificateBearing (S := E.sink) (w := h.window) (d := d)
      ⟨info.keyType, info.bitLength, der⟩ (E.clock h.readings)
    refine ⟨asks.filter (·.call.bears d), ?_, ?_, ?_⟩
    · rw [keepClassified E.logged h classified]
      exact grown
    · rcases said with ⟨rfl, -⟩ | rfl
      · exact Nat.zero_le _
      · rw [List.filter_cons]
        split <;> rename_i bears
        · rw [if_pos (beq_iff_eq.mp bears).symm]
          exact Nat.le_refl 1
        · exact Nat.zero_le _
    · rintro rfl _ same record
      cases same
      rw [show E.logged.sink = E.sink.logged from rfl]
      rcases said with ⟨rfl, refused⟩ | rfl
      · rw [refused]
        rfl
      · have bears : SinkCall.bears (.ofBytes der) (.inserted (.certificate record)) = true := beq_self_eq_true _
        rw [List.filter_cons, if_pos bears]
        cases (h.window.storeCertificate E.sink.logged record (E.clock h.readings)).1.isOk <;> rfl

def Unasked (state : Seen × Harvester (σ × List Ask)) : Prop :=
  ∀ d, state.1.contains d = false → state.2.window.bearing d = []

theorem offerAsked (state : Seen × Harvester (σ × List Ask)) (der : Bytes) (d : Digest)
    (other : d = .ofBytes der → state.1.contains d = true) :
    (offer E.logged state der).2.window.bearing d = state.2.window.bearing d := by
  obtain ⟨seen, h⟩ := state
  cases known : seen.contains (.ofBytes der) with
  | true =>
    rw [offerKnown _ known]
    rfl
  | false =>
    have different : d ≠ .ofBytes der := fun same => by
      rw [same] at other
      exact Bool.false_ne_true (known.symm.trans (other rfl))
    obtain ⟨asks, grown, few, -⟩ := keepHands E h.sighted der d
    rw [if_neg different, Nat.le_zero, List.length_eq_zero_iff] at few
    rw [few, List.append_nil] at grown
    rw [offerNew _ known]
    exact grown

theorem offerUnasked (unasked : Unasked state) (der : Bytes) : Unasked (offer E.logged state der) := by
  intro d unmet
  have before : ¬ (d = .ofBytes der ∨ state.1.contains d = true) := fun met => by
    rw [(offerSeen E.logged _ d).mpr met] at unmet
    contradiction
  rw [offerAsked E state der d fun same => absurd (.inl same) before]
  exact unasked d (Bool.eq_false_iff.mpr fun met => before (.inr met))

theorem offersUnasked (unasked : Unasked state) (blobs : List Bytes) :
    Unasked (blobs.foldl (offer E.logged) state) := by
  induction blobs generalizing state with
  | nil => exact unasked
  | cons der rest ih => exact ih _ (offerUnasked E state unasked der)

theorem processAllUnasked (unasked : Unasked state) (responses : List Bytes) :
    Unasked (processAll E.logged state responses) := by
  induction responses generalizing state with
  | nil => exact unasked
  | cons response rest ih => exact ih _ (offersUnasked E (opened state response) unasked _)

theorem offersSettled (met : state.1.contains d = true) (blobs : List Bytes) :
    (blobs.foldl (offer E.logged) state).2.window.bearing d = state.2.window.bearing d := by
  induction blobs generalizing state with
  | nil => rfl
  | cons der rest ih =>
    rw [List.foldl_cons, ih _ ((offerSeen E.logged _ d).mpr (.inr met))]
    exact offerAsked E state der d fun _ => met

theorem processAllSettled (met : state.1.contains d = true) (responses : List Bytes) :
    (processAll E.logged state responses).2.window.bearing d = state.2.window.bearing d := by
  induction responses generalizing state with
  | nil => rfl
  | cons response rest ih =>
    have step := ih (processResponse E.logged state response) ((offersSeen E.logged _ _ d).mpr (.inr met))
    have here := offersSettled E (opened state response) met (Capture.extract response).certificates
    exact step.trans here

end Asked

section Order
variable (E : Setting σ ε) {h : Harvester (σ × List Ask)} (state : Seen × Harvester (σ × List Ask))

theorem keepInOrder (orderly : h.window.InOrder) (der : Bytes) : (h.keep E.logged der).window.InOrder := by
  cases classified : E.classify der with
  | error e =>
    rw [keepUnclassified E.logged h classified]
    exact orderly
  | ok info =>
    rw [keepClassified E.logged h classified]
    exact Window.orderlyStoreCertificate (E.clock h.readings) orderly ⟨info.keyType, info.bitLength, der⟩

theorem offersInOrder (orderly : state.2.window.InOrder) (blobs : List Bytes) :
    (blobs.foldl (offer E.logged) state).2.window.InOrder := by
  induction blobs generalizing state with
  | nil => exact orderly
  | cons der rest ih =>
    obtain ⟨seen, h⟩ := state
    refine ih _ ?_
    cases known : seen.contains (.ofBytes der) with
    | true =>
      rw [offerKnown _ known]
      exact orderly
    | false =>
      rw [offerNew _ known]
      exact keepInOrder E (h := h.sighted) orderly der

theorem processAllInOrder (orderly : state.2.window.InOrder) (responses : List Bytes) :
    (processAll E.logged state responses).2.window.InOrder := by
  induction responses generalizing state with
  | nil => exact orderly
  | cons response rest ih => exact ih _ (offersInOrder E (opened state response) orderly _)

theorem finishWhole (orderly : h.window.InOrder) {stats : HarvestStats} {last : σ} {log : List Ask}
    (finished : h.finish E.logged = .ok (stats, last, log)) :
    (∃ whole, Ask.allGranted log = ledger whole none) ∧
      ∀ d : Digest, log.filter (·.call.bears d) = h.window.bearing d := by
  have flushed (d : Digest) : (h.window.flush E.sink.logged).2.bearing d = h.window.bearing d := by
    rw [Window.bearingView, Window.bearingView, Window.flushView Window.bearingBlind]
  have whole := Window.flushedLedger (S := E.sink) orderly
  unfold finish at finished
  rw [show E.logged.sink = E.sink.logged from rfl] at finished
  cases asked : h.window.flush E.sink.logged with
  | mk answer w =>
    rw [asked] at finished flushed whole
    cases answer with
    | error e => contradiction
    | ok =>
      obtain ⟨-, same⟩ := Prod.mk.inj (Except.ok.inj finished)
      obtain ⟨rows, word, -⟩ := whole rfl
      rw [Window.log, same] at word
      refine ⟨⟨rows, word⟩, fun d => ?_⟩
      rw [← flushed, Window.bearing, Window.log, same]

end Order

theorem firstAnswerIsFinal (S : Sink σ ε) (s : σ) (classify : Classifier) (clock : Nat → Nat) (maxAge : Nat)
    (before after : List Bytes) {earlier later : List Bytes} {response der : Bytes} {info : KeyInfo}
    (cut : (Capture.extract response).certificates = earlier ++ der :: later)
    (new : Digest.ofBytes der ∉ (blobsOf before ++ earlier).map Digest.ofBytes)
    (accepted : classify der = .ok info) :
    let plain : Setting σ ε := ⟨classify, S, clock⟩
    let start : Seen × Harvester (σ × List Ask) := (.empty, .new (s, []) maxAge)
    let met := earlier.foldl (offer plain.logged) (opened (processAll plain.logged start before) response)
    let record : CertificateRecord := ⟨info.keyType, info.bitLength, der⟩
    let answer := (met.2.window.storeCertificate S.logged record (clock met.2.readings)).1
    let last := (processAll plain.logged start (before ++ response :: after)).2
    (processAll plain (.empty, .new s maxAge) (before ++ response :: after)).2 = last.unlogged ∧
    ∀ stats kept log, last.finish plain.logged = .ok (stats, kept, log) →
      (∃ whole, Ask.allGranted log = ledger whole none) ∧
      (Ask.allGranted log).filter (·.bears (.ofBytes der)) =
        if answer.isOk then [.inserted (.certificate record)] else [] := by
  intro plain start met record answer last
  have unmet : met.1.contains (.ofBytes der) = false := by
    rw [Bool.eq_false_iff, ne_eq, offersSeen, opened, processAllSeen]
    rw [List.map_append, List.mem_append] at new
    simp [start, Seen.empty, Seen.contains, not_or.mp new]
  have unasked : Unasked met := by
    have first := processAllUnasked plain start (fun _ _ => rfl) before
    exact offersUnasked plain (opened _ response) first earlier
  obtain ⟨asks, grown, -, said⟩ := keepHands plain met.2.sighted der (.ofBytes der)
  -- from the first sight on the asks about the digest are those of that moment
  have settled : last.window.bearing (.ofBytes der) = asks := by
    have turn := offerNew plain.logged (h := met.2) unmet
    have known : (offer plain.logged met der).1.contains (.ofBytes der) = true :=
      (offerSeen plain.logged _ _).mpr (.inl rfl)
    have whole : last = (processAll plain.logged (later.foldl (offer plain.logged) (offer plain.logged met der)) after).2 := by
      simp only [last, processAll, List.foldl_append, List.foldl_cons, processResponse, cut]
      rfl
    rw [whole, processAllSettled plain _ ((offersSeen plain.logged _ _ _).mpr (.inr known)),
      offersSettled plain _ known]
    rw [show (met.1, met.2) = met from rfl] at turn
    rw [turn]
    exact grown.trans (congrArg (· ++ asks) (unasked _ unmet))
  have plainly := processAllUnlogged plain (before ++ response :: after) .empty (.new (s, []) maxAge)
  refine ⟨congrArg Prod.snd plainly, fun stats kept log finished => ?_⟩
  have orderly : last.window.InOrder := processAllInOrder plain _ (Window.orderlyNew s maxAge) _
  obtain ⟨whole, same⟩ := finishWhole plain orderly finished
  refine ⟨whole, ?_⟩
  rw [Window.grantedBearing, same, settled]
  exact said rfl info accepted

section Listed
variable (E : Setting σ ε)

/- The harvest with the digests it has met in a list, so that its runs can be computed. -/
def offerListed (state : List Digest × Harvester σ) (der : Bytes) : List Digest × Harvester σ :=
  if Digest.ofBytes der ∈ state.1 then (state.1, state.2.repeated)
  else (.ofBytes der :: state.1, keep E der state.2.sighted)

def processListed (state : List Digest × Harvester σ) (response : Bytes) : List Digest × Harvester σ :=
  (Capture.extract response).certificates.foldl (offerListed E)
    (state.1, { state.2 with stats := state.2.stats.countResponse response })

variable {E} (state : Seen × Harvester σ) {met : List Digest}

theorem offersListed (known : ∀ d, state.1.contains d = true ↔ d ∈ met) (blobs : List Bytes) :
    (blobs.foldl (offer E) state).2 = (blobs.foldl (offerListed E) (met, state.2)).2 ∧
    ∀ d, (blobs.foldl (offer E) state).1.contains d = true ↔ d ∈ (blobs.foldl (offerListed E) (met, state.2)).1 := by
  induction blobs generalizing state met with
  | nil => exact ⟨rfl, known⟩
  | cons der rest ih =>
    obtain ⟨seen, h⟩ := state
    rw [List.foldl_cons, List.foldl_cons, offerListed]
    cases old : seen.contains (.ofBytes der) with
    | true =>
      rw [offerKnown E old, if_pos ((known _).mp old)]
      exact ih (seen, h.repeated) known
    | false =>
      have new : Digest.ofBytes der ∉ met := fun mem => by simp [(known _).mpr mem] at old
      rw [offerNew E old, if_neg new]
      refine ih (_, keep E der h.sighted) fun d => ?_
      rw [Seen.containsInsert, List.mem_cons, ← known]

theorem processAllListed (known : ∀ d, state.1.contains d = true ↔ d ∈ met) (responses : List Bytes) :
    (processAll E state responses).2 = (responses.foldl (processListed E) (met, state.2)).2 := by
  induction responses generalizing state met with
  | nil => rfl
  | cons response rest ih =>
    obtain ⟨same, knows⟩ := offersListed (E := E) (opened state response) known
      (Capture.extract response).certificates
    have later := ih (processResponse E state response) knows
    rw [show (processResponse E state response).2 = _ from same] at later
    exact later

theorem freshListed (h : Harvester σ) (responses : List Bytes) :
    (processAll E (.empty, h) responses).2 = (responses.foldl (processListed E) ([], h)).2 :=
  processAllListed (.empty, h) (fun d => by simp [Seen.empty, Seen.contains]) responses

end Listed

theorem secondCertificateIsHeld :
    let plain : Setting Recorder Refusal := ⟨fun _ => .ok ⟨.rsa, 8⟩, Recorder.sink, id⟩
    let one : Bytes := [22, 3, 3, 0, 11, 11, 0, 0, 7, 0, 0, 4, 0, 0, 1, 7]
    let both : Bytes := [22, 3, 3, 0, 15, 11, 0, 0, 11, 0, 0, 8, 0, 0, 1, 9, 0, 0, 1, 7]
    let start : Harvester (Recorder × List Ask) := .new (⟨1, 0, [], [], []⟩, []) 5
    let calls := [.begun, .inserted (.certificate ⟨.rsa, 8, [9]⟩), .committed]
    let log : List Ask := ⟨.begun, false⟩ :: calls.map (⟨·, true⟩)
    (Capture.extract both).certificates = [] ++ [9] :: [[7]] ∧
    Digest.ofBytes [9] ∉ (blobsOf [one] ++ []).map Digest.ofBytes ∧
    (processAll plain.logged (.empty, start) [one, both, both]).2.finish plain.logged =
      .ok (⟨3, 0, 3, 0, 3, 5, 2, 3, 0, 1, 1, 0, 0, 0⟩, ⟨0, 0, [], [], calls⟩, log) ∧
    (Ask.allGranted log).filter (·.bears (.ofBytes [9])) = [.inserted (.certificate ⟨.rsa, 8, [9]⟩)] := by
  intro plain one both start calls log
  have cut : (Capture.extract both).certificates = [] ++ [9] :: [[7]] := by decide +kernel
  have new : Digest.ofBytes [9] ∉ (blobsOf [one] ++ []).map Digest.ofBytes := by decide +kernel
  have ended : (processAll plain.logged (.empty, start) [one, both, both]).2.finish plain.logged =
      .ok (⟨3, 0, 3, 0, 3, 5, 2, 3, 0, 1, 1, 0, 0, 0⟩, ⟨0, 0, [], [], calls⟩, log) := by
    rw [freshListed]
    decide +kernel
  obtain ⟨-, final⟩ := firstAnswerIsFinal Recorder.sink ⟨1, 0, [], [], []⟩ plain.classify id 5
    [one] [both] cut new rfl
  refine ⟨cut, new, ended, (final _ _ _ ended).2.trans ?_⟩
  rw [List.foldl_nil, opened, freshListed]
  decide +kernel

theorem refusedBeginLosesCertificate :
    let E : Setting Recorder Refusal := ⟨fun _ => .ok ⟨.rsa, 8⟩, Recorder.sink, id⟩
    let capture : Bytes := [22, 3, 3, 0, 11, 11, 0, 0, 7, 0, 0, 4, 0, 0, 1, 7]
    let start : Seen × Harvester Recorder := (.empty, .new ⟨1, 0, [], [], []⟩ 5)
    (Capture.extract capture).certificates = [[7]] ∧
    (processAll E start [capture]).2.window.sink = ⟨0, 0, [], [], []⟩ ∧
    Recorder.Willing [] [] ⟨0, 0, [], [], []⟩ ∧
    (processAll E start [capture, capture]).2.finish E =
      .ok (⟨2, 0, 2, 0, 2, 2, 1, 1, 0, 0, 1, 0, 0, 0⟩, ⟨0, 0, [], [], []⟩) := by
  intro E capture start
  rw [freshListed, freshListed]
  exact ⟨by decide +kernel, by decide +kernel, ⟨rfl, rfl, rfl, rfl⟩, by decide +kernel⟩

end Harvester
end TlsCensus
