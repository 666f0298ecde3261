import TlsCensus.Proofs.Shards

/-! Calls that are refused. Whatever calls led to a sweep, one that answers an error leaves every
field as it was: a block that is turned away is not half laid, and a walk that is too long does not
move the cursor, so that its position is not skipped. However many calls are refused one after
another, each is answered as it would have been first. -/
namespace TlsCensus.Sweep

inductive Call where
  | add (addition : Addition)
  | next
  | shard (count index : Nat)
  deriving DecidableEq, Repr

inductive Reply where
  | added
  | address (address : UInt32)
  | shard (shard : Sweep)
  deriving DecidableEq, Repr

def call (s : Sweep) : Call → Except SweepError Reply × Sweep
  | .add a => ((s.add a).1.map fun _ => .added, (s.add a).2)
  | .next => (s.next.1.map .address, s.next.2)
  | .shard count i => ((s.shard count i).map .shard, s)

def calls (s : Sweep) : List Call → List (Except SweepError Reply) × Sweep
  | [] => ([], s)
  | c :: rest => ((s.call c).1 :: ((s.call c).2.calls rest).1, ((s.call c).2.calls rest).2)

def Refused (answer : Except SweepError Reply) : Prop := ∃ e, answer = .error e

instance : DecidablePred Refused
  | .error e => isTrue ⟨e, rfl⟩
  | .ok _ => isFalse nofun

theorem mapRefused {α : Type} {f : α → Reply} {answer : Except SweepError α} (refused : Refused (answer.map f)) :
    ∃ e, answer = .error e := by
  obtain ⟨e, failed⟩ := refused
  cases answer with
  | error e => exact ⟨e, rfl⟩
  | ok a => cases failed

section Refusal
variable {s : Sweep} (sound : s.Sound)
include sound

theorem addRefused {a : Addition} {e : SweepError} (failed : (s.add a).1 = .error e) : (s.add a).2 = s := by
  rcases addCases sound a with ⟨_, same⟩ | ⟨block, -, same, -⟩
  · rw [same]
  · rw [same] at failed
    contradiction

/- An address behind a position of the walk is found in the blocks, so no call fails once the cursor
has moved. -/
theorem nextRefused {e : SweepError} (failed : s.next.1 = .error e) : s.next.2 = s := by
  cases left : s.finished with
  | false =>
    obtain ⟨p, -, ⟨a, -, same⟩ | ⟨-, same⟩⟩ := nextCases sound left
    · rw [same] at failed
      contradiction
    · rw [same]
  | true =>
    unfold next
    split
    · rfl
    · rw [left]
      rfl

theorem callRefused {c : Call} (refused : Refused (s.call c).1) : (s.call c).2 = s := by
  cases c with
  | add a =>
    obtain ⟨e, failed⟩ := mapRefused refused
    exact addRefused sound failed
  | next =>
    obtain ⟨e, failed⟩ := mapRefused refused
    exact nextRefused sound failed
  | shard count i => rfl

theorem callsRefused (cs : List Call) (refused : ∀ answer ∈ (s.calls cs).1, Refused answer) :
    s.calls cs = (cs.map fun c => (s.call c).1, s) := by
  induction cs with
  | nil => rfl
  | cons c rest ih =>
    have same := callRefused sound (refused _ List.mem_cons_self)
    rw [calls, same] at refused ⊢
    rw [ih fun answer mem => refused answer (List.mem_cons_of_mem _ mem)]
    rfl

end Refusal

theorem refusedCallsChangeNothing {s : Sweep} (built : s.Built) :
    (∀ c e, (s.call c).1 = .error e → (s.call c).2 = s) ∧
    ∀ cs, (∀ answer ∈ (s.calls cs).1, Refused answer) →
      s.calls cs = (cs.map fun c => (s.call c).1, s) ∧ (s.calls cs).2.next = s.next := by
  refine ⟨fun c e failed => callRefused built.sound ⟨e, failed⟩, fun cs refused => ?_⟩
  have same := callsRefused built.sound cs refused
  exact ⟨same, by rw [same]⟩

theorem stuckPositionNotSkipped :
    let s := (((new 3 1).withCap 0).addAll [.cidr "10.0.0.0/29"]).next.2.next.2
    let cs := [.next, .add (.address 0x0A000004 30), .add (.cidr "10.0.0.9/24"), .shard 2 2, .next]
    s.Built ∧ s.cursor = 2 ∧ (∀ answer ∈ (s.calls cs).1, Refused answer) ∧ (s.calls cs).2 = s ∧
    (s.calls cs).2.next.1 = .error (.permutation (.walkTooLong 2 0)) := by
  intro s cs
  have built : s.Built := .moved (.moved (.added _ (.capped 0 (.new 3 1))))
  have run : s.cursor = 2 ∧ (∀ answer ∈ (s.calls cs).1, Refused answer) ∧
      s.next.1 = .error (.permutation (.walkTooLong 2 0)) := by decide +kernel
  obtain ⟨cursor, refused, stuck⟩ := run
  clear_value s cs
  obtain ⟨same, again⟩ := (refusedCallsChangeNothing built).2 cs refused
  exact ⟨built, cursor, refused, congrArg Prod.snd same, (congrArg Prod.fst again).trans stuck⟩

end TlsCensus.Sweep
