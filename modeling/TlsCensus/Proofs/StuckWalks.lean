import TlsCensus.Proofs.Gathering

/-! The error that a scan fails with when an index of its sweep is stuck, which is when the cap
ends its walk in the padding. It is the least stuck index of the whole space, wherever the
space is cut, however many connections are open and whatever the addresses do. -/
namespace TlsCensus

namespace Sweep

def Stuck (s : Sweep) (i : Nat) : Prop :=
  ∀ j ≤ s.cap.toNat, s.total ≤
    ((Network.encrypt (.covering s.total.toUInt64 s.rounds) (Permutation.keyed s.seed))^[j + 1] i.toUInt64).toNat

instance (s : Sweep) (i : Nat) : Decidable (s.Stuck i) := inferInstanceAs (Decidable (∀ _ ≤ _, _))

section Sound
variable {s : Sweep} (sound : s.Sound) {p : Permutation} (permutes : s.permutation = some p)
include sound permutes

theorem stuckIff {i : Nat} (inside : i < s.total) : addressAt p s.blocks i = none ↔ s.Stuck i := by
  have word := sound.totalBound
  have range := (sound.engineCovered permutes).2
  have within : ¬ p.range ≤ i.toUInt64 := by
    rw [UInt64.le_iff_toNat_le, range, wordValue (by omega)]
    omega
  let step := p.network.encrypt (Permutation.keyed p.seed)
  have stuck : Permutation.land p.range step p.cap.toNat (step i.toUInt64) = none ↔ s.Stuck i := by
    rw [Permutation.landNone]
    simp only [step, UInt64.le_iff_toNat_le, sound.permutationMade permutes, wordValue word]
    rfl
  rw [← stuck]
  cases landed : Permutation.land p.range step p.cap.toNat (step i.toUInt64) with
  | none =>
    have failed : p.shuffle i.toUInt64 = .error (.walkTooLong i.toUInt64 p.cap) := Permutation.walkNone within landed
    simp [addressAt, failed]
  | some v =>
    have shuffled : p.shuffle i.toUInt64 = .ok v := Permutation.walkSome within landed
    obtain ⟨a, found⟩ := landedAddress sound permutes shuffled
    simp [addressAt, shuffled, found]

theorem firstFailureLeast {e : SweepError} : firstFailure p s.blocks (List.range s.total) = some e ↔
    ∃ i < s.total, s.Stuck i ∧ (∀ j < i, ¬ s.Stuck j) ∧ e = .permutation (.walkTooLong i.toUInt64 s.cap) := by
  have cap : p.cap = s.cap := by rw [sound.permutationMade permutes]
  have least {i : Nat} : ((List.range s.total).find? fun i => (addressAt p s.blocks i).isNone) = some i ↔
      i < s.total ∧ s.Stuck i ∧ ∀ j < i, ¬ s.Stuck j := by
    rw [List.find?_range_eq_some, List.mem_range, Option.isNone_iff_eq_none, and_left_comm]
    refine and_congr_right fun inside => and_congr (stuckIff sound permutes inside) (forall₂_congr fun j below => ?_)
    rw [← stuckIff sound permutes (Nat.lt_trans below inside)]
    simp [Option.isSome_iff_ne_none]
  rw [firstFailure, Option.map_eq_some_iff]
  constructor
  · rintro ⟨i, found, rfl⟩
    obtain ⟨inside, here, early⟩ := least.mp found
    exact ⟨i, inside, here, early, by rw [cap]⟩
  · rintro ⟨i, inside, here, early, rfl⟩
    exact ⟨i, least.mpr ⟨inside, here, early⟩, by rw [cap]⟩

end Sound

end Sweep

namespace Scan
variable {κ σ ε : Type}

theorem obeyedCommits {E : Setting κ σ ε} {refused : Row → Bool} {outside inside : σ → Prop}
    (obeys : E.sink.Obeys refused outside inside) {s : σ} (begun : outside s) {sweep : Sweep}
    (filled : sweep.blocks.isEmpty = false) (workers : Nat) (e : ε) :
    (run E sweep workers s).result ≠ .error (.finalCommit e) := by
  intro failed
  rw [runUnlogged] at failed
  obtain ⟨settled, -⟩ := gatheredObeyed E (traces E sweep (max workers 1)) s obeys begun
  obtain ⟨granted, -⟩ := Window.flushObeyed obeys settled
  have refusal := ((runFailures E.logged sweep filled workers (s, [])).1 e).mp failed
  cases granted.symm.trans refusal

theorem scanFailsAtLeastStuck (E : Setting κ σ ε) {sweep : Sweep} (built : sweep.Built) (ranged : sweep.blocks ≠ [])
    (running : E.stopped = false) (workers : Nat) (s : σ)
    (committed : ∀ e, (run E sweep workers s).result ≠ .error (.finalCommit e)) :
    ((∃ e, (run E sweep workers s).result = .error (.sweep e)) ↔ ∃ i < sweep.total, sweep.Stuck i) ∧
    ∀ e, (run E sweep workers s).result = .error (.sweep e) ↔
      ∃ i < sweep.total, sweep.Stuck i ∧ (∀ j < i, ¬ sweep.Stuck j) ∧
        e = .permutation (.walkTooLong i.toUInt64 sweep.cap) := by
  have sound := built.sound
  have filled : sweep.blocks.isEmpty = false := by simpa using ranged
  obtain ⟨p, permutes⟩ : ∃ p, sweep.permutation = some p := ⟨_, sound.permutes filled⟩
  obtain ⟨commits, fails⟩ := runFailures E sweep filled workers s
  have flushed : ((gathered E (traces E sweep (max workers 1)) s).2.flush E.sink).1 = .ok () := by
    cases answer : ((gathered E (traces E sweep (max workers 1)) s).2.flush E.sink).1 with
    | ok => rfl
    | error e => exact absurd ((commits e).mpr answer) (committed e)
  have first (e : SweepError) : (run E sweep workers s).result = .error (.sweep e) ↔
      Sweep.firstFailure p sweep.blocks (List.range sweep.total) = some e := by
    rw [fails, tracesFailure sound permutes running (Nat.le_max_right _ _)]
    exact and_iff_right flushed
  refine ⟨⟨?_, ?_⟩, fun e => (first e).trans (Sweep.firstFailureLeast sound permutes)⟩
  · rintro ⟨e, failed⟩
    obtain ⟨i, inside, stuck, -⟩ := (Sweep.firstFailureLeast sound permutes).mp ((first e).mp failed)
    exact ⟨i, inside, stuck⟩
  · rintro ⟨i, inside, stuck⟩
    cases failure : Sweep.firstFailure p sweep.blocks (List.range sweep.total) with
    | some e => exact ⟨e, (first e).mpr failure⟩
    | none =>
      have lands := Sweep.firstFailureNone.mp failure i (List.mem_range.mpr inside)
      exact absurd ((Sweep.stuckIff sound permutes inside).mpr stuck) lands

theorem twoStuckWorkersFail :
    let E : Setting Script Recorder Refusal := ⟨⟨Script.capability, fun _ => some ⟨[.awaiting, .done], [[1]], false⟩,
      fun _ => true, fun _ => .listening [22, 3] none [.close], fun _ => 0, 443, 1, 5, true, fun _ => 99, {}⟩,
      Recorder.sink, 9, id, false, id⟩
    let sweep := ((Sweep.new 3 1).withCap 0).addAll [.cidr "10.0.0.0/29"]
    let s : Recorder := ⟨0, 0, [], [], []⟩
    sweep.Built ∧ sweep.blocks ≠ [] ∧ E.stopped = false ∧ sweep.total = 6 ∧ sweep.Stuck 2 ∧ sweep.Stuck 3 ∧
      (∀ e, (run E sweep 2 s).result ≠ .error (.finalCommit e)) ∧
      (run E sweep 2 s).result = .error (.sweep (.permutation (.walkTooLong 2 0))) := by
  intro E sweep s
  have built : sweep.Built := .added _ (.capped 0 (.new 3 1))
  have space : sweep.blocks.isEmpty = false ∧ sweep.cap = 0 ∧ sweep.total = 6 ∧ sweep.Stuck 2 ∧ sweep.Stuck 3 ∧
      ∀ j < 2, ¬ sweep.Stuck j := by decide +kernel
  obtain ⟨filled, cap, total, stuck, other, early⟩ := space
  have ranged : sweep.blocks ≠ [] := by simpa using filled
  have committed := obeyedCommits (E := E) (recorderObeys [] []) (s := s) ⟨rfl, rfl, rfl, rfl⟩ filled 2
  obtain ⟨-, fails⟩ := scanFailsAtLeastStuck E built ranged rfl 2 s committed
  have failed := (fails _).mpr ⟨2, by omega, stuck, early, rfl⟩
  rw [cap] at failed
  exact ⟨built, ranged, rfl, total, stuck, other, committed, failed⟩

end Scan
end TlsCensus
