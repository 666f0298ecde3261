import TlsCensus.Program.Report
import Mathlib

/-! The members of a JSON report by their keys. Of members with one key a sorted tree keeps the last.
Result codes have labels of their own, so the report of the counts holds for each code the last
count that is given for it. -/
namespace TlsCensus

theorem numberText {a b : Int64} (same : toString a.toInt = toString b.toInt) : a = b :=
  Int64.toInt_inj.mp (Int.repr_injective (by simpa only [Int.toString_eq_repr] using same))

theorem ResultCode.ofStoredSome {code : Int64} {result : ResultCode} (known : ofStored? code = some result) :
    result.stored = code := by
  simpa using List.find?_some known

theorem ResultCode.labelOfNumber {code : Int64} (unknown : ofStored? code = none) :
    labelOfStored code = "unknown(" ++ toString code.toInt ++ ")" := by
  rw [labelOfStored, unknown]
  rfl

theorem ResultCode.labelOfKnown {code : Int64} {result : ResultCode} (known : ofStored? code = some result) :
    labelOfStored code = result.label := by
  rw [labelOfStored, known]

theorem ResultCode.labelKnown (result : ResultCode) (text : String) : result.label ≠ "unknown(" ++ text ++ ")" := by
  intro same
  have first := congrArg (·.toList.head?) same
  cases result <;> simp [label] at first

theorem ResultCode.labelInjective {a b : Int64} (same : labelOfStored a = labelOfStored b) : a = b := by
  cases first : ofStored? a with
  | none =>
    cases next : ofStored? b with
    | none =>
      rw [labelOfNumber first, labelOfNumber next] at same
      exact numberText (by simpa using same)
    | some result =>
      rw [labelOfNumber first, labelOfKnown next] at same
      exact absurd same.symm (labelKnown result _)
  | some result =>
    cases next : ofStored? b with
    | none =>
      rw [labelOfKnown first, labelOfNumber next] at same
      exact absurd same (labelKnown result _)
    | some other =>
      rw [labelOfKnown first, labelOfKnown next] at same
      have one : result = other := by cases result <;> cases other <;> first | rfl | simp [label] at same
      rw [← ofStoredSome first, ← ofStoredSome next, one]

theorem lookupFirst {α β : Type} [DecidableEq α] (pair : α × β) (rest : List (α × β)) (key : α) :
    (pair :: rest).lookup key = if key = pair.1 then some pair.2 else rest.lookup key := by
  by_cases here : key = pair.1
  · simp [List.lookup, here]
  · simp [List.lookup, here, beq_eq_false_iff_ne.mpr here]

theorem lookupOnce {α β : Type} [DecidableEq α] {pairs : List (α × β)} (apart : (pairs.map Prod.fst).Nodup)
    {key : α} {found : β} (inside : (key, found) ∈ pairs) : pairs.lookup key = some found := by
  induction pairs with
  | nil => cases inside
  | cons pair rest ih =>
    obtain ⟨fresh, others⟩ := List.nodup_cons.mp apart
    rw [lookupFirst]
    rcases List.mem_cons.mp inside with rfl | behind
    · exact if_pos rfl
    · rw [if_neg, ih others behind]
      rintro rfl
      exact fresh (List.mem_map.mpr ⟨_, behind, rfl⟩)

theorem lookupLast {α β : Type} [DecidableEq α] {pairs : List (α × β)} (apart : (pairs.map Prod.fst).Nodup)
    {key : α} {found : β} (inside : (key, found) ∈ pairs) : pairs.reverse.lookup key = some found :=
  lookupOnce (by rwa [List.map_reverse, List.nodup_reverse]) (List.mem_reverse.mpr inside)

namespace JsonTree

theorem insertLookup (member : String × JsonTree) (done : List (String × JsonTree)) (key : String) :
    (insertMember member done).lookup key = if key = member.1 then some member.2 else done.lookup key := by
  induction done with
  | nil => rw [insertMember, lookupFirst]
  | cons m rest ih =>
    rw [insertMember]
    split
    · rw [lookupFirst]
    · split
      · rename_i same
        rw [lookupFirst, lookupFirst, ← same]
        split <;> rfl
      · rename_i other
        rw [lookupFirst, ih, lookupFirst]
        by_cases here : key = m.1
        · rw [if_pos here, if_pos here, if_neg (fun same => other (same.symm.trans here))]
        · rw [if_neg here, if_neg here]

theorem sortedLookup (members done : List (String × JsonTree)) (key : String) :
    (sortedMembers done members).lookup key =
      ((members.reverse.lookup key).map sorted).or (done.lookup key) := by
  induction members generalizing done with
  | nil => rfl
  | cons member rest ih =>
    rw [sortedMembers, ih, insertLookup, List.reverse_cons, List.lookup_append, lookupFirst]
    cases rest.reverse.lookup key with
    | some t => rfl
    | none => by_cases here : key = member.1 <;> simp [here]

end JsonTree

namespace Report

def resultMembers (counts : List (Int64 × Nat)) : List (String × JsonTree) :=
  JsonTree.sortedMembers [] (counts.map fun pair => (ResultCode.labelOfStored pair.1, count pair.2))

theorem triageMembers (db : String) (out : Option String) (t : Triage.Totals) (counts : List (Int64 × Nat)) :
    triage .json db out t counts = (JsonTree.object [("db", .text db), ("results", .object (resultMembers counts)),
      ("totals", (totals t).sorted)]).indented := by
  have first : ¬ "totals" < "db" ∧ "totals" ≠ "db" := by decide
  have next : ¬ "results" < "db" ∧ "results" ≠ "db" ∧ "results" < "totals" := by decide
  simp only [triage, json, JsonTree.sorted, JsonTree.sortedMembers, JsonTree.insertMember, resultMembers,
    first, next, if_true, if_false]

theorem entriesLookup (pairs : List (Int64 × Nat)) (code : Int64) :
    (pairs.map fun pair => (ResultCode.labelOfStored pair.1, count pair.2)).lookup (ResultCode.labelOfStored code) =
      (pairs.lookup code).map count := by
  induction pairs with
  | nil => rfl
  | cons pair rest ih =>
    rw [List.map_cons, lookupFirst, lookupFirst, ih]
    by_cases here : code = pair.1
    · simp [here]
    · rw [if_neg here, if_neg fun same => here (ResultCode.labelInjective same)]

theorem resultLookup (counts : List (Int64 × Nat)) (code : Int64) :
    (resultMembers counts).lookup (ResultCode.labelOfStored code) = (counts.reverse.lookup code).map count := by
  rw [resultMembers, JsonTree.sortedLookup, ← List.map_reverse, entriesLookup]
  cases counts.reverse.lookup code <;> rfl

def Lossless (codes : List Int64) (members : List (String × JsonTree)) : Prop :=
  ∀ code ∈ codes, members.lookup (ResultCode.labelOfStored code) = some (count (codes.count code))

end Report

end TlsCensus
