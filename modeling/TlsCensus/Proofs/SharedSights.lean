import TlsCensus.Proofs.FinalAnswers
import Mathlib.Algebra.BigOperators.Group.Finset.Piecewise
import Mathlib.Algebra.Order.BigOperators.Group.Finset
import Mathlib.Data.Fin.VecNotation
import Mathlib.Data.List.FinRange

/-! Harvests that share the digests seen and nothing else. In its turn a harvest observes one
blob and keeps it or opens its next response, and whose turn it is is not settled. Of every
digest one harvest alone is the first to see it, counts it and may hand it over, whatever the
sinks answer and the classifiers say. -/
namespace TlsCensus

theorem Seen.sizeInsert {s : Seen} {d : Digest} (new : s.contains d = false) : (s.insert d).size = s.size + 1 := by
  have absent : d ∉ s.digests := fun mem => Bool.false_ne_true (new.symm.trans mem)
  rw [insert, size, Std.HashSet.size_insert, if_neg absent]
  rfl

namespace Harvester
variable {σ ε : Type}

structure Post (σ : Type) where
  harvester : Harvester σ
  blobs : List Bytes
  responses : List Bytes

namespace Post

def fresh (sink : σ) (maxAge : Nat) (responses : List Bytes) : Post σ := ⟨.new sink maxAge, [], responses⟩

def Done (p : Post σ) : Prop := p.blobs = [] ∧ p.responses = []

instance (p : Post σ) : Decidable p.Done := inferInstanceAs (Decidable (_ ∧ _))

def turn (E : Setting σ ε) (state : Seen × Post σ) : Seen × Post σ :=
  match state.2.blobs, state.2.responses with
  | der :: rest, responses =>
    let after := offer E (state.1, state.2.harvester) der
    (after.1, ⟨after.2, rest, responses⟩)
  | [], response :: rest =>
    let begun := opened (state.1, state.2.harvester) response
    (begun.1, ⟨begun.2, (Capture.extract response).certificates, rest⟩)
  | [], [] => state

def sight (state : Seen × Post σ) : Option Digest :=
  match state.2.blobs with
  | der :: _ => if state.1.contains (.ofBytes der) then none else some (.ofBytes der)
  | [] => none

def left (p : Post σ) : List Digest := (p.blobs ++ blobsOf p.responses).map Digest.ofBytes

theorem doneLeft {p : Post σ} (done : p.Done) : p.left = [] := by
  obtain ⟨blobs, responses⟩ := done
  rw [left, blobs, responses]
  rfl

theorem turnBlob (E : Setting σ ε) (seen : Seen) (h : Harvester σ) (der : Bytes) (rest responses : List Bytes) :
    turn E (seen, ⟨h, der :: rest, responses⟩) =
      ((offer E (seen, h) der).1, ⟨(offer E (seen, h) der).2, rest, responses⟩) := rfl

theorem turnsAlone (E : Setting σ ε) (seen : Seen) (p : Post σ) : ∃ turns,
    let last := processAll E (p.blobs.foldl (offer E) (seen, p.harvester)) p.responses
    (turn E)^[turns] (seen, p) = (last.1, ⟨last.2, [], []⟩) := by
  obtain ⟨h, blobs, responses⟩ := p
  induction responses generalizing seen h blobs with
  | nil =>
    induction blobs generalizing seen h with
    | nil => exact ⟨0, rfl⟩
    | cons der rest ih =>
      obtain ⟨turns, ended⟩ := ih (offer E (seen, h) der).1 (offer E (seen, h) der).2
      exact ⟨turns + 1, ended⟩
  | cons response others unopened =>
    induction blobs generalizing seen h with
    | nil =>
      obtain ⟨turns, ended⟩ := unopened seen (opened (seen, h) response).2 (Capture.extract response).certificates
      exact ⟨turns + 1, ended⟩
    | cons der rest ih =>
      obtain ⟨turns, ended⟩ := ih (offer E (seen, h) der).1 (offer E (seen, h) der).2
      exact ⟨turns + 1, ended⟩

end Post

theorem keepUnique (E : Setting σ ε) (h : Harvester σ) (der : Bytes) : (h.keep E der).stats.unique = h.stats.unique := by
  obtain ⟨_, _, _, -, counted⟩ := keepCounts E h der
  rw [counted]

namespace Post

structure Turned (before : Seen × Post (σ × List Ask)) (new : Option Digest) (after : Seen × Post (σ × List Ask)) :
    Prop where
  fresh : ∀ d ∈ new, before.1.contains d = false ∧ d ∈ before.2.left
  seen : ∀ d, after.1.contains d = true ↔ d ∈ new ∨ before.1.contains d = true
  size : after.1.size = before.1.size + new.toList.length
  unique : after.2.harvester.stats.unique = before.2.harvester.stats.unique + new.toList.length
  asked : ∀ d, (after.2.harvester.window.bearing d).length ≤
    (before.2.harvester.window.bearing d).length + if d ∈ new then 1 else 0
  fewer : ∀ d ∈ after.2.left, d ∈ before.2.left
  settled : ∀ d ∈ before.2.left, after.1.contains d = true ∨ d ∈ after.2.left

theorem turnedQuiet {seen : Seen} {p after : Post (σ × List Ask)}
    (unique : after.harvester.stats.unique = p.harvester.stats.unique) (asked : after.harvester.window = p.harvester.window)
    (fewer : ∀ d ∈ after.left, d ∈ p.left) (settled : ∀ d ∈ p.left, seen.contains d = true ∨ d ∈ after.left) :
    Turned (seen, p) none (seen, after) where
  fresh := nofun
  seen _ := ⟨.inr, Or.rec nofun id⟩
  size := rfl
  unique := unique
  asked d := (congrArg (fun w => (Window.bearing d w).length) asked).le
  fewer := fewer
  settled := settled

theorem turnTurned (E : Setting σ ε) (before : Seen × Post (σ × List Ask)) :
    Turned before (sight before) (turn E.logged before) := by
  obtain ⟨seen, h, blobs, responses⟩ := before
  cases blobs with
  | nil =>
    cases responses with
    | nil => exact turnedQuiet rfl rfl (fun _ => id) fun _ => .inr
    | cons response rest =>
      have same : left ⟨(opened (seen, h) response).2, (Capture.extract response).certificates, rest⟩ =
          left ⟨h, [], response :: rest⟩ := by
        rw [left, left, blobsOf, blobsOf, List.flatMap_cons]
        rfl
      exact turnedQuiet (countResponseBlobs _ response).1 rfl (fun _ mem => same ▸ mem) fun _ mem => .inr (same ▸ mem)
  | cons der rest =>
    have next : left ⟨h, der :: rest, responses⟩ = .ofBytes der :: left ⟨h, rest, responses⟩ := rfl
    have fewer : ∀ d ∈ left ⟨h, rest, responses⟩, d ∈ left ⟨h, der :: rest, responses⟩ := fun _ =>
      List.mem_cons_of_mem _
    have settled : ∀ d ∈ left ⟨h, der :: rest, responses⟩,
        (offer E.logged (seen, h) der).1.contains d = true ∨ d ∈ left ⟨h, rest, responses⟩ := fun d mem =>
      (List.mem_cons.mp mem).imp (fun here => (offerSeen E.logged _ d).mpr (.inl here)) id
    cases known : seen.contains (.ofBytes der) with
    | true =>
      have first : sight (seen, ⟨h, der :: rest, responses⟩) = none := if_pos known
      have offered := offerKnown E.logged (h := h) known
      rw [offered] at settled
      rw [first, turnBlob, offered]
      exact turnedQuiet rfl rfl fewer settled
    | false =>
      have first : sight (seen, ⟨h, der :: rest, responses⟩) = some (.ofBytes der) :=
        if_neg (Bool.eq_false_iff.mp known)
      have offered := offerNew E.logged (h := h) known
      rw [offered] at settled
      rw [first, turnBlob, offered]
      refine ⟨?_, fun d => ?_, Seen.sizeInsert known, keepUnique E.logged h.sighted der, fun d => ?_, fewer, settled⟩
      · rintro _ ⟨⟩
        exact ⟨known, List.mem_cons_self⟩
      · rw [Option.mem_some_iff, eq_comm (b := d)]
        exact Seen.containsInsert
      · obtain ⟨asks, grown, few, -⟩ := keepHands E h.sighted der d
        simp only [grown, List.length_append, Option.mem_some_iff, eq_comm (b := d)]
        exact Nat.add_le_add_left few _

section Unlogged

def unlogged (p : Post (σ × List Ask)) : Post σ := ⟨p.harvester.unlogged, p.blobs, p.responses⟩

theorem turnUnlogged (E : Setting σ ε) (seen : Seen) (p : Post (σ × List Ask)) :
    turn E (seen, p.unlogged) = ((turn E.logged (seen, p)).1, (turn E.logged (seen, p)).2.unlogged) := by
  obtain ⟨h, blobs, responses⟩ := p
  cases blobs with
  | cons der rest =>
    rw [turnBlob, unlogged, turnBlob, offerUnlogged]
    rfl
  | nil => cases responses <;> rfl

end Unlogged

end Post

abbrev Crew {n : Nat} (σ : Fin n → Type) := Seen × ((i : Fin n) → Post (σ i))

namespace Crew
variable {n : Nat} {σ ε : Fin n → Type}

def fresh (sinks : (i : Fin n) → σ i) (maxAges : Fin n → Nat) (responses : Fin n → List Bytes) : Crew σ :=
  (.empty, fun i => .fresh (sinks i) (maxAges i) (responses i))

def unlogged (crew : Crew fun i => σ i × List Ask) : Crew σ := (crew.1, fun i => (crew.2 i).unlogged)

section Turns
variable (E : (i : Fin n) → Setting (σ i) (ε i))

def step (crew : Crew σ) (i : Fin n) : Crew σ :=
  let after := Post.turn (E i) (crew.1, crew.2 i)
  (after.1, Function.update crew.2 i after.2)

def drive (crew : Crew σ) (schedule : List (Fin n)) : Crew σ := schedule.foldl (step E) crew

def finds (crew : Crew σ) : List (Fin n) → List (Fin n × Digest)
  | [] => []
  | i :: rest => (Post.sight (crew.1, crew.2 i)).toList.map (i, ·) ++ finds (step E crew i) rest

theorem stepUnlogged (crew : Crew fun i => σ i × List Ask) (i : Fin n) :
    step E crew.unlogged i = (step (fun i => (E i).logged) crew i).unlogged := by
  simp only [step, unlogged, Post.turnUnlogged]
  refine congrArg (Prod.mk _) (funext fun j => ?_)
  rw [Function.apply_update fun _ => Post.unlogged]

theorem driveUnlogged (crew : Crew fun i => σ i × List Ask) (schedule : List (Fin n)) :
    drive E crew.unlogged schedule = (drive (fun i => (E i).logged) crew schedule).unlogged ∧
    finds E crew.unlogged schedule = finds (fun i => (E i).logged) crew schedule := by
  induction schedule generalizing crew with
  | nil => exact ⟨rfl, rfl⟩
  | cons i rest ih =>
    obtain ⟨driven, found⟩ := ih (step (fun i => (E i).logged) crew i)
    rw [← stepUnlogged] at driven found
    exact ⟨driven, congrArg (_ ++ ·) found⟩

end Turns

section Shares
variable {E : (i : Fin n) → Setting (σ i) (ε i)} {start : Fin n → List Digest}

/- What a crew is that began with these digests to come and has made these finds. -/
structure Shared (start : Fin n → List Digest) (found : List (Fin n × Digest)) (crew : Crew fun i => σ i × List Ask) :
    Prop where
  seen : ∀ d, crew.1.contains d = true ↔ d ∈ found.map Prod.snd
  once : (found.map Prod.snd).Nodup
  size : crew.1.size = found.length
  unique : ∀ i, (crew.2 i).harvester.stats.unique = found.countP (·.1 = i)
  asked : ∀ i d, ((crew.2 i).harvester.window.bearing d).length ≤ found.count (i, d)
  own : ∀ i d, (i, d) ∈ found → d ∈ start i
  left : ∀ i, ∀ d ∈ (crew.2 i).left, d ∈ start i
  covered : ∀ i, ∀ d ∈ start i, d ∈ found.map Prod.snd ∨ d ∈ (crew.2 i).left

section Step
variable {found : List (Fin n × Digest)} {crew after : Crew fun i => σ i × List Ask} {i : Fin n} {new : Option Digest}

structure Stepped (crew : Crew fun i => σ i × List Ask) (i : Fin n) (new : Option Digest)
    (after : Crew fun i => σ i × List Ask) : Prop where
  turned : Post.Turned (crew.1, crew.2 i) new (after.1, after.2 i)
  others : ∀ j, j ≠ i → after.2 j = crew.2 j

theorem stepSteps (crew : Crew fun i => σ i × List Ask) (i : Fin n) :
    Stepped crew i (Post.sight (crew.1, crew.2 i)) (step (fun i => (E i).logged) crew i) := by
  have here : (step (fun i => (E i).logged) crew i).2 i = _ := Function.update_self ..
  exact ⟨here ▸ Post.turnTurned (E i) (crew.1, crew.2 i), fun j other => Function.update_of_ne other ..⟩

theorem sightsAppend (found : List (Fin n × Digest)) (i : Fin n) (new : Option Digest) :
    (found ++ new.toList.map (i, ·)).map Prod.snd = found.map Prod.snd ++ new.toList := by
  rw [List.map_append, List.map_map]
  exact congrArg _ (List.map_id _)

variable (shared : Shared start found crew) (stepped : Stepped crew i new after)
include shared stepped

theorem stepSeen (d : Digest) : after.1.contains d = true ↔ d ∈ (found ++ new.toList.map (i, ·)).map Prod.snd := by
  rw [sightsAppend, List.mem_append, ← shared.seen, Option.mem_toList, or_comm]
  exact stepped.turned.seen d

theorem stepOnce : ((found ++ new.toList.map (i, ·)).map Prod.snd).Nodup := by
  rw [sightsAppend]
  refine List.nodup_append.mpr ⟨shared.once, new.toList_nodup, ?_⟩
  rintro d old _ first rfl
  have met := (shared.seen d).mpr old
  have unmet := (stepped.turned.fresh d (Option.mem_toList.mp first)).1
  exact Bool.false_ne_true (unmet.symm.trans met)

theorem stepUnique (j : Fin n) :
    (after.2 j).harvester.stats.unique = (found ++ new.toList.map (i, ·)).countP (·.1 = j) := by
  rw [List.countP_append, ← shared.unique]
  by_cases same : j = i
  · subst same
    rw [stepped.turned.unique]
    cases new <;> simp
  · rw [stepped.others j same]
    cases new <;> simp [Ne.symm same]

theorem stepAsked (j : Fin n) (d : Digest) :
    ((after.2 j).harvester.window.bearing d).length ≤ (found ++ new.toList.map (i, ·)).count (j, d) := by
  rw [List.count_append]
  by_cases same : j = i
  · subst same
    refine (stepped.turned.asked d).trans (Nat.add_le_add (shared.asked j d) ?_)
    cases new <;> simp [List.count_singleton]
  · rw [stepped.others j same]
    exact (shared.asked j d).trans (Nat.le_add_right _ _)

theorem stepOwn (j : Fin n) (d : Digest) (mem : (j, d) ∈ found ++ new.toList.map (i, ·)) : d ∈ start j := by
  rcases List.mem_append.mp mem with old | first
  · exact shared.own j d old
  · obtain ⟨_, first, same⟩ := List.mem_map.mp first
    cases same
    exact shared.left i d (stepped.turned.fresh d (Option.mem_toList.mp first)).2

theorem stepLeft (j : Fin n) (d : Digest) (mem : d ∈ (after.2 j).left) : d ∈ start j := by
  by_cases same : j = i
  · subst same
    exact shared.left j d (stepped.turned.fewer d mem)
  · rw [stepped.others j same] at mem
    exact shared.left j d mem

theorem stepCovered (j : Fin n) (d : Digest) (mem : d ∈ start j) :
    d ∈ (found ++ new.toList.map (i, ·)).map Prod.snd ∨ d ∈ (after.2 j).left := by
  rw [← stepSeen shared stepped]
  rcases shared.covered j d mem with old | later
  · exact .inl ((stepped.turned.seen d).mpr (.inr ((shared.seen d).mpr old)))
  · by_cases same : j = i
    · subst same
      exact stepped.turned.settled d later
    · rw [stepped.others j same]
      exact .inr later

omit stepped in
theorem stepShared (i : Fin n) : Shared start (found ++ (Post.sight (crew.1, crew.2 i)).toList.map (i, ·))
    (step (fun i => (E i).logged) crew i) := by
  have stepped := stepSteps (E := E) crew i
  refine ⟨stepSeen shared stepped, stepOnce shared stepped, ?_, stepUnique shared stepped, stepAsked shared stepped,
    stepOwn shared stepped, stepLeft shared stepped, stepCovered shared stepped⟩
  rw [List.length_append, List.length_map, ← shared.size]
  exact stepped.turned.size

end Step

theorem driveShared {found : List (Fin n × Digest)} {crew : Crew fun i => σ i × List Ask}
    (shared : Shared start found crew) (schedule : List (Fin n)) :
    Shared start (found ++ finds (fun i => (E i).logged) crew schedule) (drive (fun i => (E i).logged) crew schedule) := by
  induction schedule generalizing found crew with
  | nil =>
    rw [finds, List.append_nil]
    exact shared
  | cons i rest ih =>
    rw [finds, ← List.append_assoc]
    exact ih (stepShared shared i)

theorem freshShared (sinks : (i : Fin n) → σ i) (maxAges : Fin n → Nat) (responses : Fin n → List Bytes) :
    Shared (fun i => (blobsOf (responses i)).map Digest.ofBytes) []
      (fresh (fun i => (sinks i, ([] : List Ask))) maxAges responses) where
  seen _ := by simp [fresh, Seen.empty, Seen.contains]
  once := .nil
  size := rfl
  unique _ := rfl
  asked _ _ := Nat.le_refl 0
  own _ _ := nofun
  left _ _ := id
  covered _ _ := .inr

theorem doneMet {found : List (Fin n × Digest)} {crew : Crew fun i => σ i × List Ask}
    (shared : Shared start found crew) (ended : ∀ i, (crew.2 i).Done) (d : Digest) :
    d ∈ found.map Prod.snd ↔ d ∈ (List.finRange n).flatMap start := by
  rw [List.mem_flatMap]
  constructor
  · intro mem
    obtain ⟨⟨i, d⟩, find, rfl⟩ := List.mem_map.mp mem
    exact ⟨i, List.mem_finRange i, shared.own i d find⟩
  · rintro ⟨i, -, mem⟩
    refine (shared.covered i d mem).resolve_right ?_
    rw [Post.doneLeft (ended i)]
    exact List.not_mem_nil

end Shares

section Counts
variable {found : List (Fin n × Digest)} {d : Digest}

theorem countsPerFinder (found : List (Fin n × Digest)) : ∑ i, found.countP (·.1 = i) = found.length := by
  induction found with
  | nil => simp
  | cons find rest ih => simp [List.countP_cons, Finset.sum_add_distrib, ih]

theorem foundOnce (once : (found.map Prod.snd).Nodup) (mem : d ∈ found.map Prod.snd) :
    ∃ i, (i, d) ∈ found ∧ ∀ j, found.count (j, d) = if j = i then 1 else 0 := by
  obtain ⟨⟨i, d⟩, find, rfl⟩ := List.mem_map.mp mem
  refine ⟨i, find, fun j => ?_⟩
  split <;> rename_i same
  · subst same
    exact List.count_eq_one_of_mem once.of_map find
  · refine List.count_eq_zero_of_not_mem fun twin => same ?_
    exact congrArg Prod.fst (List.inj_on_of_nodup_map once twin find rfl)

theorem countsPerDigest (once : (found.map Prod.snd).Nodup) (d : Digest) : ∑ i, found.count (i, d) ≤ 1 := by
  by_cases mem : d ∈ found.map Prod.snd
  · obtain ⟨i, -, counts⟩ := foundOnce once mem
    simp [counts]
  · have none (i : Fin n) : found.count (i, d) = 0 :=
      List.count_eq_zero_of_not_mem fun find => mem (List.mem_map.mpr ⟨_, find, rfl⟩)
    simp [none]

end Counts

theorem sharedSightsAreSole (E : (i : Fin n) → Setting (σ i) (ε i)) (sinks : (i : Fin n) → σ i)
    (maxAges : Fin n → Nat) (responses : Fin n → List Bytes) (schedule : List (Fin n))
    (ended : ∀ i, ((drive E (fresh sinks maxAges responses) schedule).2 i).Done) :
    let last := drive E (fresh sinks maxAges responses) schedule
    let found := finds E (fresh sinks maxAges responses) schedule
    let logged := drive (fun i => (E i).logged) (fresh (fun i => (sinks i, [])) maxAges responses) schedule
    let digests (i : Fin n) : List Digest := (blobsOf (responses i)).map Digest.ofBytes
    let all : List Digest := (List.finRange n).flatMap digests
    (∀ d ∈ all, ∃ i, d ∈ digests i ∧ ∀ j, found.count (j, d) = if j = i then 1 else 0) ∧
    (∀ i, (last.2 i).harvester.stats.unique = (found.filter (·.1 = i)).length) ∧
    ∑ i, (last.2 i).harvester.stats.unique = last.1.size ∧
    last.1.size = all.toFinset.card ∧
    last = logged.unlogged ∧
    ∀ d, ∑ i, ((logged.2 i).harvester.window.bearing d).length ≤ 1 := by
  intro last found logged digests all
  have shared := driveShared (E := E) (freshShared sinks maxAges responses) schedule
  obtain ⟨driven, same⟩ := driveUnlogged E (fresh (fun i => (sinks i, [])) maxAges responses) schedule
  rw [List.nil_append, ← same] at shared
  change Shared digests found logged at shared
  change last = logged.unlogged at driven
  have unique (i : Fin n) : (last.2 i).harvester.stats.unique = found.countP (·.1 = i) := by
    rw [driven]
    exact shared.unique i
  have size : last.1.size = found.length := by
    rw [driven]
    exact shared.size
  have met := doneMet shared fun i => by
    have done : (last.2 i).Done := ended i
    rw [driven] at done
    exact done
  refine ⟨fun d mem => ?_, fun i => ?_, ?_, ?_, driven, fun d => ?_⟩
  · obtain ⟨i, find, counts⟩ := foundOnce shared.once ((met d).mpr mem)
    exact ⟨i, shared.own i d find, counts⟩
  · rw [unique, List.countP_eq_length_filter]
  · simp only [unique, size, countsPerFinder]
  · have sets : all.toFinset = (found.map Prod.snd).toFinset := by
      ext d
      rw [List.mem_toFinset, List.mem_toFinset, met]
    rw [sets, List.toFinset_card_of_nodup shared.once, List.length_map, size]
  · exact (Finset.sum_le_sum fun i _ => shared.asked i d).trans (countsPerDigest shared.once d)

theorem twoHarvestsShareTwoSights :
    let one : Bytes := [22, 3, 3, 0, 11, 11, 0, 0, 7, 0, 0, 4, 0, 0, 1, 7]
    let both : Bytes := [22, 3, 3, 0, 15, 11, 0, 0, 11, 0, 0, 8, 0, 0, 1, 9, 0, 0, 1, 7]
    let responses : Fin 2 → List Bytes := ![[one, one], [both]]
    let classify : Classifier := fun der => if der = [7] then .ok ⟨.rsa, 8⟩ else .error .undecodable
    let E : Fin 2 → Setting Recorder Refusal := ![⟨fun _ => .ok ⟨.dsa, 9⟩, Recorder.sink, id⟩, ⟨classify, Recorder.sink, id⟩]
    let sinks : Fin 2 → Recorder := ![⟨0, 0, [], [], []⟩, ⟨1, 0, [], [], []⟩]
    let last := drive E (fresh sinks ![5, 5] responses) [1, 0, 1, 0, 1, 0, 0]
    (∀ i, (last.2 i).Done) ∧ ∑ i, (last.2 i).harvester.stats.unique = 2 := by
  intro one both responses classify E sinks last
  have ended : ∀ i, (last.2 i).Done := by decide +kernel
  obtain ⟨-, -, total, size, -⟩ :=
    sharedSightsAreSole E sinks ![5, 5] responses [1, 0, 1, 0, 1, 0, 0] ended
  refine ⟨ended, total.trans (size.trans ?_)⟩
  decide +kernel

end Crew
end Harvester
end TlsCensus
