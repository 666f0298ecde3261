import TlsCensus.Probe.Progress
import Mathlib.Data.List.Perm.Subperm

/-! Counters as counts. What a scan has counted is a tally of its attempts and of the outcomes
it found, in whatever order; what it hands on is the same outcomes but the unanswered ones. -/
namespace TlsCensus

namespace Progress

def codes (code : ResultCode) (found : List Outcome) : UInt64 := .ofNat (found.countP (·.result = code))

def tally (attempted : Nat) (found : List Outcome) : Progress :=
  ⟨.ofNat attempted, codes .connectFailed found, codes .tcpTimeout found, codes .tlsCompleted found,
   codes .tlsTimeout found, codes .tlsError found, 0, 0⟩

theorem codesAppend (code : ResultCode) (xs ys : List Outcome) : codes code (xs ++ ys) = codes code xs + codes code ys := by
  rw [codes, List.countP_append, UInt64.ofNat_add]
  rfl

theorem tallyAppend (m n : Nat) (xs ys : List Outcome) : tally (m + n) (xs ++ ys) = (tally m xs).add (tally n ys) := by
  simp only [tally, add, codesAppend, UInt64.ofNat_add, UInt64.add_zero]

theorem tallyPerm {found others : List Outcome} (same : found.Perm others) (attempted : Nat) :
    tally attempted found = tally attempted others := by
  simp only [tally, codes, same.countP_eq]

theorem addAssoc (p q r : Progress) : (p.add q).add r = p.add (q.add r) := by
  simp only [add, UInt64.add_assoc]

theorem addZero (p : Progress) : p.add (tally 0 []) = p := by
  simp [add, tally, codes]

theorem zeroAdd (p : Progress) : zero.add p = p := by
  simp [add, zero]

theorem recordAttemptTally (p : Progress) : p.recordAttempt = p.add (tally 1 []) := by
  simp [recordAttempt, add, tally, codes]

theorem recordResultTally (p : Progress) (o : Outcome) : p.recordResult o.result = p.add (tally 0 [o]) := by
  unfold recordResult
  split <;> rename_i code <;> simp [add, tally, codes, code]

theorem recordAllTally (p : Progress) (found : List Outcome) : p.recordAll found = p.add (tally 0 found) := by
  induction found generalizing p with
  | nil => exact (addZero p).symm
  | cons o rest ih =>
    have cut := tallyAppend 0 0 [o] rest
    rw [recordAll, List.foldl_cons, recordResultTally, ← recordAll, ih, addAssoc, ← cut]
    rfl

theorem finishedTally (attempted : Nat) (found : List Outcome) : (tally attempted found).finished = .ofNat found.length := by
  simp only [finished, tally, codes, ← UInt64.ofNat_add]
  congr 1
  induction found with
  | nil => rfl
  | cons o rest ih =>
    simp only [List.countP_cons, List.length_cons, ← ih]
    cases o.result <;> simp <;> omega

theorem recordStoredTwice (p : Progress) (a b c d : Nat) :
    (p.recordStored (.ofNat a) (.ofNat b)).recordStored (.ofNat c) (.ofNat d) =
      p.recordStored (.ofNat (a + c)) (.ofNat (b + d)) := by
  simp only [recordStored, UInt64.ofNat_add, UInt64.add_assoc]

theorem foldTallies (is : List Nat) (visited : Nat → List UInt32) (found : Nat → List Outcome) (p : Progress) :
    (is.map fun i => tally (visited i).length (found i)).foldl add p =
      p.add (.tally (is.flatMap visited).length (is.flatMap found)) := by
  induction is generalizing p with
  | nil => exact (addZero p).symm
  | cons i rest ih =>
    rw [List.map_cons, List.foldl_cons, ih, addAssoc, ← tallyAppend, List.flatMap_cons,
      List.flatMap_cons, List.length_append]

end Progress

section Storable

theorem storableAppend (storeUnanswered : Bool) (xs ys : List Outcome) :
    storable storeUnanswered (xs ++ ys) = storable storeUnanswered xs ++ storable storeUnanswered ys := by
  cases storeUnanswered with
  | true => rfl
  | false => exact List.filter_append ..

theorem storableFlatMap (storeUnanswered : Bool) (is : List Nat) (found : Nat → List Outcome) :
    storable storeUnanswered (is.flatMap found) = is.flatMap fun i => storable storeUnanswered (found i) := by
  cases storeUnanswered with
  | true => rfl
  | false => exact List.filter_flatMap ..

theorem storablePerm (storeUnanswered : Bool) {found others : List Outcome} (same : found.Perm others) :
    (storable storeUnanswered found).Perm (storable storeUnanswered others) := by
  cases storeUnanswered with
  | true => exact same
  | false => exact same.filter _

theorem storableLength (storeUnanswered : Bool) (found : List Outcome) :
    (storable storeUnanswered found).length +
      (if storeUnanswered then 0 else found.countP (·.result = .tcpTimeout)) = found.length := by
  cases storeUnanswered with
  | true => rfl
  | false =>
    have split := List.length_eq_countP_add_countP (fun o : Outcome => decide (o.result = .tcpTimeout)) (l := found)
    rw [split, storable, if_neg Bool.false_ne_true, ← List.countP_eq_length_filter]
    simp [Nat.add_comm]

theorem resultsCounted {found others : List Outcome} (same : found.map (·.result) = others.map (·.result)) :
    (∀ attempted, Progress.tally attempted found = Progress.tally attempted others) ∧
    ∀ storeUnanswered, (storable storeUnanswered found).length = (storable storeUnanswered others).length := by
  have count (q : ResultCode → Bool) : found.countP (fun o => q o.result) = others.countP (fun o => q o.result) := by
    have counted := congrArg (List.countP q) same
    rwa [List.countP_map, List.countP_map] at counted
  constructor
  · intro attempted
    have codes (code : ResultCode) : Progress.codes code found = Progress.codes code others :=
      congrArg UInt64.ofNat (count fun result => decide (result = code))
    simp only [Progress.tally, codes]
  · intro storeUnanswered
    cases storeUnanswered with
    | true => simpa [storable] using congrArg List.length same
    | false =>
      simp only [storable, Bool.false_eq_true, if_false, ← List.countP_eq_length_filter]
      exact count fun result => decide (result ≠ .tcpTimeout)

end Storable

end TlsCensus
