import TlsCensus.Proofs.CaptureGrowth
import TlsCensus.Proofs.CommitPolicy
import TlsCensus.Proofs.SharedSights

/-! The counters of a harvest against one another and against what the sink was asked. A response
is of one kind, a blob is new or met before, and a new one is unclassified, stored or lost. A walk
ends with the record that is cut off and a record with the message that is, so neither is counted
more often than there are captures or records. All of it holds whatever digests are found seen,
turn by turn, whatever the classifier says and the sink answers. -/
namespace TlsCensus

namespace Capture

theorem wholeUncounted {issues : List Issue} (whole : Whole issues) : issues.countP (·.inRecord) = 0 := by
  refine List.countP_eq_zero.mpr fun issue mem => ?_
  cases issue with
  | record offset => exact absurd mem (whole offset)
  | _ => exact Bool.false_ne_true

namespace Extraction

theorem messageUndamaged (m : Message) :
    (ofMessage m).records = 0 ∧ (ofMessage m).issues.countP (·.inMessage) = 0 := by
  refine ⟨?_, List.countP_eq_zero.mpr fun issue mem => ?_⟩
  · unfold ofMessage
    split <;> rfl
  · obtain ⟨offset, rfl⟩ := messageDamage mem
    exact Bool.false_ne_true

theorem fragmentDamages (base : Nat) (fragment : Bytes) :
    (ofFragment base fragment).records = 1 ∧ (ofFragment base fragment).issues.countP (·.inMessage) ≤ 1 := by
  induction base, fragment using messages.induct with
  | case1 base =>
    rw [fragmentNil]
    exact ⟨rfl, Nat.zero_le 1⟩
  | case2 base t a b c rest short =>
    rw [fragmentDamaged (messagesShort short)]
    exact ⟨rfl, Nat.le_refl 1⟩
  | case3 base t a b c rest payload after cut more issue read ih =>
    obtain ⟨uncut, undamaged⟩ := messageUndamaged ⟨base + 4, t, payload⟩
    rw [fragmentCut cut, append, List.countP_append, uncut, undamaged, Nat.zero_add, Nat.zero_add]
    exact ih
  | case4 base fragment filled few =>
    rw [fragmentDamaged (messagesFew filled few base)]
    exact ⟨rfl, Nat.le_refl 1⟩

theorem walkDamages (offset : Nat) (b : Bytes) :
    (walk offset b).issues.countP (·.inRecord) ≤ 1 ∧
    (walk offset b).issues.countP (·.inMessage) ≤ (walk offset b).records := by
  induction offset, b using walk.induct with
  | case1 offset =>
    rw [walk]
    exact ⟨Nat.zero_le 1, Nat.le_refl 0⟩
  | case2 offset rest short =>
    rw [walkTruncated short]
    exact ⟨Nat.le_refl 1, Nat.le_refl 0⟩
  | case3 offset rest r after read ih =>
    obtain ⟨counted, damaged⟩ := fragmentDamages (offset + 5) r.fragment
    rw [walkRecord read, append, List.countP_append, List.countP_append, counted,
      wholeUncounted (fragmentWhole _ _), Nat.zero_add]
    exact ⟨ih.1, Nat.add_le_add damaged ih.2⟩
  | case4 offset t rest different ih =>
    rw [walkStray different]
    exact ih

end Extraction

theorem cutsCounted (capture : Bytes) : (extract capture).issues.countP (·.inRecord) ≤
    [ResponseKind.of capture].count .handshake + [ResponseKind.of capture].count .other := by
  cases capture with
  | nil =>
    rw [extract, Extraction.walk]
    exact Nat.zero_le _
  | cons t rest =>
    refine (Extraction.walkDamages 0 (t :: rest)).1.trans ?_
    rw [ResponseKind.of]
    split <;> exact Nat.le_refl 1

end Capture

namespace Ask

def stores : Ask → Bool
  | ⟨.inserted (.certificate _), ok⟩ => ok
  | _ => false

def loses (ask : Ask) : Bool := ask.call ≠ .committed && !ask.granted

end Ask

namespace Window
variable {σ ε : Type} {S : Sink σ ε} {w after : Window (σ × List Ask)} {record : CertificateRecord}
  {now : Nat} {ok : Bool} {commit : Option Bool}

theorem storingCounted (storing : Storing S w [.certificate record] now [ok] commit after) :
    after.log.countP Ask.stores = w.log.countP Ask.stores + ok.toNat ∧
    after.log.countP Ask.loses = w.log.countP Ask.loses + (!ok).toNat := by
  generalize answers : [ok] = said at storing
  cases storing with
  | barred bar asked =>
    obtain rfl : ok = false := List.head_eq_of_cons_eq answers
    rw [asked, List.countP_append, List.countP_append]
    exact ⟨rfl, rfl⟩
  | offered opens each due asked left =>
    subst answers
    have begun : w.begins.countP Ask.stores = 0 ∧ w.begins.countP Ask.loses = 0 := by
      unfold begins
      split <;> exact ⟨rfl, rfl⟩
    have committed : (Ask.commits commit).countP Ask.stores = 0 ∧ (Ask.commits commit).countP Ask.loses = 0 := by
      cases commit <;> exact ⟨rfl, rfl⟩
    rw [asked]
    simp only [List.countP_append, begun, committed, Nat.zero_add, Nat.add_zero]
    cases ok <;> exact ⟨rfl, rfl⟩

end Window

namespace Harvester
variable {σ ε : Type}

structure Audited (h : Harvester (σ × List Ask)) : Prop where
  rows : h.stats.rows = h.stats.empty + h.stats.handshake + h.stats.other
  seen : h.stats.certificatesSeen = h.stats.unique + h.stats.duplicates
  unique : h.stats.unique = h.stats.unclassified + h.stats.stored + h.stats.storeFailures
  stored : h.stats.stored = h.window.log.countP Ask.stores
  lost : h.stats.storeFailures = h.window.log.countP Ask.loses
  records : h.stats.truncatedRecords ≤ h.stats.handshake + h.stats.other
  messages : h.stats.truncatedMessages ≤ h.stats.records

section Audit
variable (E : Setting σ ε) {h : Harvester (σ × List Ask)}

theorem keepAsked (h : Harvester (σ × List Ask)) (der : Bytes) :
    let after := h.keep E.logged der
    after.window.log.countP Ask.stores + h.stats.stored = h.window.log.countP Ask.stores + after.stats.stored ∧
    after.window.log.countP Ask.loses + h.stats.storeFailures =
      h.window.log.countP Ask.loses + after.stats.storeFailures := by
  intro after
  cases classified : E.classify der with
  | error e =>
    simp only [after, keepUnclassified E.logged h classified, and_self]
  | ok info =>
    obtain ⟨commit, storing⟩ := Window.storeCertificateStoring E.sink h.window
      ⟨info.keyType, info.bitLength, der⟩ (E.clock h.readings)
    obtain ⟨stores, loses⟩ := Window.storingCounted storing
    simp only [after, keepClassified E.logged h classified, HarvestStats.answered]
    have commute (a b c : Nat) : a + b + c = a + (c + b) := by omega
    exact ⟨(congrArg (· + _) stores).trans (commute _ _ _), (congrArg (· + _) loses).trans (commute _ _ _)⟩

theorem offerAudited (audited : h.Audited) (seen : Seen) (der : Bytes) :
    (offer E.logged (seen, h) der).2.Audited := by
  obtain ⟨rows, met, unique, stored, lost, records, messages⟩ := audited
  cases known : seen.contains (.ofBytes der) with
  | true =>
    rw [offerKnown _ known]
    exact ⟨rows, congrArg (· + 1) met, unique, stored, lost, records, messages⟩
  | false =>
    obtain ⟨u, s, l, one, stats⟩ := keepCounts E.logged h.sighted der
    obtain ⟨storing, losing⟩ := keepAsked E h.sighted der
    rw [stats] at storing losing
    rw [offerNew _ known]
    constructor <;> simp only [stats] <;> simp only [sighted] at storing losing ⊢ <;> omega

theorem openedAudited (audited : h.Audited) (seen : Seen) (response : Bytes) :
    (opened (seen, h) response).2.Audited := by
  obtain ⟨rows, met, unique, stored, lost, records, messages⟩ := audited
  have cuts := Capture.cutsCounted response
  have damage := (Capture.Extraction.walkDamages 0 response).2
  rw [← Capture.extract] at damage
  have kind : [Capture.ResponseKind.of response].count .empty + [Capture.ResponseKind.of response].count .handshake +
      [Capture.ResponseKind.of response].count .other = 1 := by
    cases Capture.ResponseKind.of response <;> rfl
  constructor <;> simp only [opened, HarvestStats.responseCounted] <;> omega

namespace Post

theorem turnAudited {p : Post (σ × List Ask)} (audited : p.harvester.Audited) (seen : Seen) :
    (turn E.logged (seen, p)).2.harvester.Audited := by
  obtain ⟨h, blobs, responses⟩ := p
  cases blobs with
  | cons der rest => exact offerAudited E audited seen der
  | nil =>
    cases responses with
    | nil => exact audited
    | cons response rest => exact openedAudited audited seen response

/- The digests that are found seen are set anew for every turn, as they are when others add theirs
between the turns. -/
def amid (E : Setting σ ε) (p : Post σ) (digests : List Seen) : Post σ :=
  digests.foldl (fun p seen => (turn E (seen, p)).2) p

theorem amidAudited {p : Post (σ × List Ask)} (audited : p.harvester.Audited) (digests : List Seen) :
    (p.amid E.logged digests).harvester.Audited := by
  induction digests generalizing p with
  | nil => exact audited
  | cons seen rest ih => exact ih (turnAudited E audited seen)

theorem amidUnlogged (p : Post (σ × List Ask)) (digests : List Seen) :
    p.unlogged.amid E digests = (p.amid E.logged digests).unlogged := by
  induction digests generalizing p with
  | nil => rfl
  | cons seen rest ih =>
    rw [amid, List.foldl_cons, turnUnlogged]
    exact ih _

end Post

theorem processAllAudited (audited : h.Audited) (seen : Seen) (responses : List Bytes) :
    (processAll E.logged (seen, h) responses).2.Audited := by
  obtain ⟨turns, ended⟩ := Post.turnsAlone E.logged seen ⟨h, [], responses⟩
  have last : ((Post.turn E.logged)^[turns] (seen, ⟨h, [], responses⟩)).2.harvester.Audited :=
    Function.Iterate.rec (fun state : Seen × Post (σ × List Ask) => state.2.harvester.Audited) audited
      (fun state audited => Post.turnAudited E audited state.1) turns
  rw [ended] at last
  exact last

theorem newAudited (s : σ) (maxAge : Nat) : (Harvester.new (s, []) maxAge).Audited :=
  ⟨rfl, rfl, rfl, rfl, rfl, Nat.le_refl 0, Nat.le_refl 0⟩

end Audit

def Setting.committing (E : Setting σ ε) (commit : σ → Except ε Unit × σ) : Setting σ ε :=
  { E with sink := E.sink.committing commit }

section Commits
variable (E : Setting σ ε) (commit : σ → Except ε Unit × σ)

theorem keepUncommitted (h : Harvester σ) (der : Bytes) :
    (h.keep (E.committing commit) der).stats = (h.keep E der).stats := by
  cases classified : E.classify der with
  | error e => rw [keepUnclassified E h classified, keepUnclassified (E.committing commit) h classified]
  | ok info =>
    have same := Window.certificateUncommitted E.sink commit h.window ⟨info.keyType, info.bitLength, der⟩
      (E.clock h.readings)
    rw [keepClassified E h classified, keepClassified (E.committing commit) h classified]
    exact congrArg (fun answer : Except ε Unit => h.stats.answered answer.isOk) same

theorem offerUncommitted (seen : Seen) (h : Harvester σ) (der : Bytes) :
    (offer (E.committing commit) (seen, h) der).1 = (offer E (seen, h) der).1 ∧
    (offer (E.committing commit) (seen, h) der).2.stats = (offer E (seen, h) der).2.stats := by
  cases known : seen.contains (.ofBytes der) with
  | true =>
    rw [offerKnown _ known, offerKnown _ known]
    exact ⟨rfl, rfl⟩
  | false =>
    rw [offerNew _ known, offerNew _ known]
    exact ⟨rfl, keepUncommitted E commit h.sighted der⟩

end Commits

theorem countersAgree (E : Setting σ ε) (s : σ) (maxAge : Nat) (responses : List Bytes) :
    (∀ seen, let last := (processAll E.logged (seen, .new (s, []) maxAge) responses).2
      (processAll E (seen, .new s maxAge) responses).2 = last.unlogged ∧ last.Audited) ∧
    (∀ digests, let last := (Post.fresh (s, []) maxAge responses).amid E.logged digests
      (Post.fresh s maxAge responses).amid E digests = last.unlogged ∧ last.harvester.Audited) ∧
    ∀ seen h der commit,
      (offer (E.committing commit) (seen, h) der).1 = (offer E (seen, h) der).1 ∧
      (offer (E.committing commit) (seen, h) der).2.stats = (offer E (seen, h) der).2.stats := by
  refine ⟨fun seen => ⟨?_, processAllAudited E (newAudited s maxAge) seen responses⟩,
    fun digests => ⟨?_, Post.amidAudited E (newAudited s maxAge) digests⟩,
    fun seen h der commit => offerUncommitted E commit seen h der⟩
  · exact congrArg Prod.snd (processAllUnlogged E responses seen (.new (s, []) maxAge))
  · exact Post.amidUnlogged E (.fresh (s, []) maxAge responses) digests

end Harvester
end TlsCensus
